import BinderIdl.Proofs.Files.Patch

/-! Writing a file in one step, as a whole. It ends well exactly if the folder of the target is
there or can be made, a new file can be put in it, the target is no folder and the content is
accepted. Then the target holds the content; otherwise every file is as it was. The new file is
gone in both cases, and all that may be new besides are folders above the target. -/
namespace BinderIdl

open Text (Loose)

namespace FileTree

variable {t t' : FileTree} {current : Place} {target : Path} {content : ByteArray}

/-- What was written is read back. -/
theorem Written.fetch_eq (hTarget : target.Plain) (h : Written t t' current target content) :
    t'.fetch current target.print = .ok content := by
  obtain ⟨t₁, q, _, hLocate, hFolder, hGet⟩ := h
  have hLocate' : t'.locate current target.print = .ok q := by
    refine locate_mono ?_ hTarget hLocate
    intro r hr
    rw [hGet]
    dsimp only
    rw [if_neg, hr]
    rintro rfl
    exact hFolder hr
  rw [fetch, hLocate']
  dsimp only
  rw [hGet]
  simp only [if_true]

/-- Apart from the target and from new folders above it, nothing is different. -/
theorem Written.get?_cases (hTarget : target.Plain) (h : Written t t' current target content)
    (q : Place) : q = target.destination current ∨ t'.get? q = t.get? q ∨
      (t.get? q = none ∧ t'.get? q = some .folder ∧ onTheWay target.parent current q) := by
  obtain ⟨t₁, r, hGrows, hLocate, _, hGet⟩ := h
  by_cases hq : q = r
  · exact .inl (hq.trans (destination_of_locate hTarget hLocate).symm)
  · have hSame : t'.get? q = t₁.get? q := by
      rw [hGet]
      exact if_neg hq
    rw [hSame]
    exact .inr (hGrows q)

end FileTree

namespace AtomicWrite

variable {t t₁ : FileTree} {current : Place} {target p : Path} {content : String} {ε : Type}
  {check : Option (String → Option ε)}

theorem checked_eq_ok_iff :
    checked check content = .ok () ↔ ∀ defect? ∈ check, defect? content = none := by
  cases check with
  | none => simp [checked]
  | some defect? => cases h : defect? content <;> simp [checked, h]

/-- A file can be put at a new path and moved from there to a target. -/
structure Admits (t : FileTree) (current : Place) (new target : Path) : Prop where
  room : ∃ q, t.locate current new.print = .ok q
  step : FileTree.endsInStep target.print = false
  target : ∃ q, t.locate current target.print = .ok q ∧ t.get? q ≠ some .folder

theorem place_eq_ok_iff (hp : p.Plain) (hTarget : target.Plain)
    (hFree : t.isThere current p.print = false) :
    (AtomicWrite.place t current target p content check).1 = .ok () ↔
      checked check content = .ok () ∧ Admits t current p target := by
  constructor
  · intro h
    rcases place_cases hp hTarget hFree content check with
      ⟨⟨fault, hFault⟩, _⟩ | ⟨q, _, hCheck, hLocate, hFolder, _⟩
    · rw [hFault] at h
      cases h
    · rw [AtomicWrite.place] at h
      split at h
      · cases h
      · rename_i hStore
        obtain ⟨r, hRoom, _⟩ := FileTree.store_eq_ok hStore
        rw [hCheck] at h
        dsimp only at h
        split at h
        · cases h
        · rename_i hMove
          obtain ⟨_, _, _, _, _, hStep, _⟩ := FileTree.move_eq_ok hMove
          exact ⟨hCheck, ⟨r, hRoom⟩, hStep, q, hLocate, hFolder⟩
  · rintro ⟨hCheck, ⟨q, hRoom⟩, hStep, r, hLocate, hFolder⟩
    have hStore : t.store current p.print content.toUTF8 =
        .ok (t.put q (.file content.toUTF8)) := by
      have hNone : t.get? q = none := by
        rw [FileTree.isThere, FileTree.find?, hRoom] at hFree
        simpa using hFree
      simp only [FileTree.store, hRoom, hNone]
    obtain ⟨q', hNil, hNone, hPut, hFrom⟩ := stored_of_free hp hFree hStore
    -- The new file takes the place of no folder.
    have hTo : (t.put q (.file content.toUTF8)).locate current target.print = .ok r := by
      refine FileTree.locate_mono ?_ hTarget hLocate
      intro s hs
      rw [hPut, FileTree.get?_put hNil, if_neg, hs]
      rintro rfl
      rw [hNone] at hs
      cases hs
    have hKept : (t.put q (.file content.toUTF8)).folderAt r = false := by
      rw [Bool.eq_false_iff, ne_eq, FileTree.folderAt_iff, hPut, FileTree.get?_put hNil]
      split
      · simp
      · exact hFolder
    have hFile : (t.put q (.file content.toUTF8)).get? q' = some (.file content.toUTF8) := by
      rw [hPut, FileTree.get?_put hNil, if_pos rfl]
    have hMove := FileTree.move_of_located hFrom hTo hFile
    rw [hStep, hKept] at hMove
    simp only [AtomicWrite.place, hStore, hCheck, hMove, Bool.false_eq_true, if_false]

/-- Writing ends well exactly if it can be done and the content is accepted. -/
theorem write_eq_ok_iff (hTarget : target.Plain) :
    (write t current target content check).1 = .ok () ↔
      checked check content = .ok () ∧ ∃ t₁, (t.makeFolders current target.parent).1 = .ok t₁ ∧
        Admits t₁ current (freshPath t₁ current target) target := by
  rw [write]
  cases hMake : t.makeFolders current target.parent with
  | mk result t' =>
      cases result with
      | error fault => simp
      | ok t₁ =>
          obtain ⟨n, hFresh, hFree, _⟩ := freshPath_eq t₁ current hTarget
          rw [← hFresh] at hFree
          have hPlain : (freshPath t₁ current target).Plain := hFresh ▸ beside_plain hTarget
          have hPlace : (AtomicWrite.place t₁ current target (freshPath t₁ current target) content
              check).1 = .ok () ↔ _ := place_eq_ok_iff hPlain hTarget hFree
          cases hDone : AtomicWrite.place t₁ current target (freshPath t₁ current target) content
              check with
          | mk answer t₂ =>
              rw [hDone] at hPlace
              cases answer with
              | error fault => simpa [hDone] using hPlace
              | ok _ => simpa [hDone] using hPlace

/-- Writing a file in one step is all or nothing, whatever the path, the content and the check. -/
theorem write_all_or_nothing (t : FileTree) (current : Place) (path : Loose) (content : String)
    (check : Option (String → Option ε)) :
    let target := Path.read path
    let answer := write t current target content check
    (answer.1 = .ok () ↔ (∀ defect? ∈ check, defect? content = none) ∧
      ∃ t₁, (t.makeFolders current target.parent).1 = .ok t₁ ∧
        Admits t₁ current (freshPath t₁ current target) target) ∧
    (answer.1 = .ok () → answer.2.fetch current target.print = .ok content.toUTF8 ∧
      ∀ q, answer.2.content? q =
        if q = target.destination current then some content.toUTF8 else t.content? q) ∧
    (answer.1 ≠ .ok () → ∀ q, answer.2.content? q = t.content? q) ∧
    ∀ q, answer.1 = .ok () ∧ q = target.destination current ∨ answer.2.get? q = t.get? q ∨
      (t.get? q = none ∧ answer.2.get? q = some .folder ∧
        FileTree.onTheWay target.parent current q) := by
  intro target answer
  have hTarget : target.Plain := Path.read_plain path
  refine ⟨?_, ?_⟩
  · rw [← checked_eq_ok_iff]
    exact write_eq_ok_iff hTarget
  · rcases write_cases t current hTarget content check with
      ⟨fault, t', hWrite, hGrows⟩ | ⟨t', hWrite, _, hWritten⟩
    · rw [show answer = (.error fault, t') from hWrite]
      exact ⟨(absurd · (by simp)), fun _ => hGrows.content?_eq, fun q => .inr (hGrows q)⟩
    · rw [show answer = (.ok (), t') from hWrite]
      refine ⟨fun _ => ⟨hWritten.fetch_eq hTarget, hWritten.content?_eq hTarget⟩,
        fun h => absurd rfl h, fun q => ?_⟩
      rcases hWritten.get?_cases hTarget q with hq | hq
      · exact .inl ⟨rfl, hq⟩
      · exact .inr hq

end AtomicWrite

end BinderIdl
