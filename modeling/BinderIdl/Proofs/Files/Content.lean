import BinderIdl.AtomicWrite
import BinderIdl.Log
import BinderIdl.Proofs.Files.Tree

/-! What a file holds after it was written: the content, whichever way it was written, as
long as nothing is written to the same place afterwards. Here a path is any text that leads
to the file. -/
namespace BinderIdl

open Text (Loose loose)

namespace FileTree

variable {t t' : FileTree} {current current' q : Place} {text text' : Loose}
  {content content' : ByteArray}

/-- A text that leads somewhere is that of a path which is followed. -/
theorem exists_follow_of_locate (h : t.locate current text = .ok q) :
    ∃ start names, t.follow start names = .ok q ∧
      ∀ t' : FileTree, t'.locate current text = t'.follow start names := by
  cases hBytes : text.bytes? with
  | none =>
      rw [locate, hBytes] at h
      cases h
  | some bytes =>
      cases hRefusal : refusal? bytes with
      | some kind =>
          simp only [locate, hBytes, trace, hRefusal] at h
          cases h
      | none =>
          have hWay : ∀ t' : FileTree, t'.locate current text =
              t'.follow (if bytes.head? = some slash then [] else current) (names bytes) := by
            intro t'
            simp only [locate, hBytes, trace, hRefusal]
          exact ⟨_, _, (hWay t).symm.trans h, hWay⟩

/-- What leads somewhere in two trees leads to the same place. -/
theorem locate_unique {q' : Place} (h : t.locate current text = .ok q)
    (h' : t'.locate current text = .ok q') : q = q' := by
  obtain ⟨start, names, hFollow, hWay⟩ := exists_follow_of_locate h
  rw [hWay] at h'
  exact (walk_of_follow hFollow).symm.trans (walk_of_follow h')

/-- A tree with all the folders of another. -/
def Keeps (t t' : FileTree) : Prop := ∀ q, t.get? q = some .folder → t'.get? q = some .folder

theorem Keeps.locate (hKeeps : t.Keeps t') (h : t.locate current text = .ok q) :
    t'.locate current text = .ok q := by
  obtain ⟨start, names, hFollow, hWay⟩ := exists_follow_of_locate h
  rw [hWay]
  exact follow_mono hKeeps hFollow

theorem keeps_put (h : t.get? q ≠ some .folder) (node : Node) : t.Keeps (t.put q node) := by
  intro r hr
  rw [get?_put (ne_nil_of_get?_ne h), if_neg, hr]
  rintro rfl
  exact h hr

theorem keeps_erase (h : t.get? q ≠ some .folder) : t.Keeps (t.erase q) := by
  intro r hr
  rw [get?_erase (ne_nil_of_get?_ne h), if_neg, hr]
  rintro rfl
  exact h hr

theorem fetch_eq_ok : t.fetch current text = .ok content ↔
    ∃ q, t.locate current text = .ok q ∧ t.get? q = some (.file content) := by
  rw [fetch]
  cases hLocate : t.locate current text with
  | error kind => simp
  | ok q =>
      cases hNode : t.get? q with
      | none => simp [hNode]
      | some node => cases node <;> simp [hNode]

/-- A text that leads to where a file was put. -/
theorem fetch_put (h : t.locate current text = .ok q) (hNode : t.get? q ≠ some .folder) :
    (t.put q (.file content)).fetch current text = .ok content := by
  refine fetch_eq_ok.mpr ⟨q, (keeps_put hNode _).locate h, ?_⟩
  rw [get?_put (ne_nil_of_get?_ne hNode), if_pos rfl]

/-- A text that leads elsewhere. -/
theorem fetch_put_of_ne (h : t.fetch current text = .ok content) (hNode : t.get? q ≠ some .folder)
    (hApart : t.locate current text ≠ .ok q) (node : Node) :
    (t.put q node).fetch current text = .ok content := by
  obtain ⟨r, hLocate, hFile⟩ := fetch_eq_ok.mp h
  refine fetch_eq_ok.mpr ⟨r, (keeps_put hNode node).locate hLocate, ?_⟩
  rw [get?_put (ne_nil_of_get?_ne hNode), if_neg, hFile]
  rintro rfl
  exact hApart hLocate

/-- What was stored is there. -/
theorem fetch_store (h : t.store current text content = .ok t') :
    t'.fetch current text = .ok content := by
  obtain ⟨q, hLocate, hNode, rfl⟩ := store_eq_ok h
  exact fetch_put hLocate hNode

/-- What was stored and then moved is where it was moved to. -/
theorem fetch_move (hFile : t.fetch current text = .ok content)
    (hMove : t.move current text text' = .ok t') : t'.fetch current text' = .ok content := by
  obtain ⟨q, r, node, hFrom, hTo, -, hNode, hTarget, rfl⟩ := move_eq_ok hMove
  obtain ⟨q', hFrom', hContent⟩ := fetch_eq_ok.mp hFile
  obtain rfl : q' = q := locate_unique hFrom' hFrom
  obtain rfl : node = .file content := Option.some.inj (hNode.symm.trans hContent)
  have hSource : t.get? q' ≠ some .folder := by
    rw [hContent]
    simp
  have hErased : (t.erase q').get? r ≠ some .folder := by
    rw [get?_erase (ne_nil_of_get?_ne hSource)]
    split
    · simp
    · exact hTarget
  exact fetch_put ((keeps_erase hSource).locate hTo) hErased

/-- From the root on, a path leads to the same place whatever the current folder is. -/
theorem locate_absolute {p : Path} (h : p.root ≠ .none) (current' : Place) :
    t.locate current p.print = t.locate current' p.print := by
  rw [locate, locate]
  cases hBytes : p.print.bytes? with
  | none => rfl
  | some bytes =>
      obtain ⟨-, rfl⟩ := Path.bytes?_print_eq_some.mp hBytes
      have hHead : p.bytes.head? = some slash := by
        rw [Path.bytes, if_neg fun hHere => h hHere.1]
        cases hRoot : p.root with
        | none => exact absurd hRoot h
        | slash => rfl
        | twoSlashes => rfl
      simp only [trace, hHead, if_true]

end FileTree

namespace AtomicWrite

variable {ε : Type} {t t' : FileTree} {current : Place} {target : Path} {text : String}

theorem fetch_of_place {temporary : Path} {check : Option (String → Option ε)}
    (h : place t current target temporary text check = (.ok (), t')) :
    checked check text = .ok () ∧ t'.fetch current target.print = .ok text.toUTF8 := by
  rw [place] at h
  cases hStore : t.store current temporary.print text.toUTF8 with
  | error fault =>
      rw [hStore] at h
      cases h
  | ok t₁ =>
      simp only [hStore] at h
      cases hCheck : checked check text with
      | error fault =>
          rw [hCheck] at h
          cases h
      | ok _ =>
          simp only [hCheck] at h
          cases hMove : t₁.move current temporary.print target.print with
          | error fault =>
              rw [hMove] at h
              cases h
          | ok t₂ =>
              rw [hMove] at h
              cases h
              exact ⟨rfl, FileTree.fetch_move (FileTree.fetch_store hStore) hMove⟩

/-- A content that was written in one step was accepted, and is there. -/
theorem fetch_of_write {check : Option (String → Option ε)}
    (h : write t current target text check = (.ok (), t')) :
    checked check text = .ok () ∧ t'.fetch current target.print = .ok text.toUTF8 := by
  rw [write] at h
  split at h
  · cases h
  · rename_i t₁ _ _
    dsimp only at h
    split at h
    · rename_i hPlace
      cases h
      exact fetch_of_place hPlace
    · cases h

theorem eq_none_of_checked {defect? : String → Option ε}
    (h : checked (some defect?) text = .ok ()) : defect? text = none := by
  rw [checked, Option.bind_some] at h
  cases hDefect : defect? text with
  | none => rfl
  | some reason =>
      rw [hDefect] at h
      cases h

/-- The check does not matter for a content that it accepts. -/
theorem write_of_accepted {defect? : String → Option ε} (h : defect? text = none) :
    write t current target text (some defect?) = write t current target text none := by
  have hChecked : checked (some defect?) text = checked none text := by
    rw [checked, checked, Option.bind_some, h, Option.bind_none]
  simp only [write, place, hChecked]

end AtomicWrite

/-- An entry of the log changes nothing but the log file. -/
theorem Log.File.write_cases (f : Log.File) (t : FileTree) (e : Log.Entry) :
    f.write t e = t ∨ ∃ q content, t.locate [] f.path.print = .ok q ∧ t.get? q ≠ some .folder ∧
      f.write t e = t.put q (.file content) := by
  have hStored : ∀ content t', t.store [] f.path.print content = .ok t' →
      ∃ q content, t.locate [] f.path.print = .ok q ∧ t.get? q ≠ some .folder ∧
        t' = t.put q (.file content) := by
    intro content t' hStore
    obtain ⟨q, hLocate, hNode, rfl⟩ := FileTree.store_eq_ok hStore
    exact ⟨q, content, hLocate, hNode, rfl⟩
  rw [write]
  split
  · rename_i t' hAppend
    rw [append] at hAppend
    split at hAppend
    · exact .inr (hStored _ _ hAppend)
    · split at hAppend
      · exact .inr (hStored _ _ hAppend)
      · cases hAppend
  · exact .inl rfl

end BinderIdl
