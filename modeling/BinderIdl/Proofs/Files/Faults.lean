import BinderIdl.Proofs.Files.AtomicWrite

/-! Why files cannot be used. A path that could be the path of a file is followed as far
as it leads, so what is wrong is always something about the files, never the path. -/
namespace BinderIdl

open Text (Loose loose byteOf)

/-- A path that could lead to a file in some tree. -/
structure Path.Sound (p : Path) : Prop where
  plain : p.Plain
  nameable : p.Nameable
  null : ∀ part ∈ p.parts, .char (Char.ofNat 0) ∉ part

namespace Path

theorem Sound.parent {p : Path} (h : p.Sound) : p.parent.Sound where
  plain := h.plain.parent
  nameable part hPart := h.nameable part (List.dropLast_subset _ hPart)
  null part hPart := h.null part (List.dropLast_subset _ hPart)

theorem mem_intercalate {α : Type} {separator a : α} {parts : List (List α)}
    (h : a ∈ List.intercalate [separator] parts) : a = separator ∨ ∃ part ∈ parts, a ∈ part := by
  induction parts with
  | nil => cases h
  | cons part parts ih =>
      cases parts with
      | nil =>
          rw [List.intercalate_singleton] at h
          exact .inr ⟨part, List.mem_cons_self, h⟩
      | cons next parts =>
          simp only [List.intercalate_cons_cons, List.mem_append, List.mem_singleton] at h
          rcases h with (h | h) | h
          · exact .inr ⟨part, List.mem_cons_self, h⟩
          · exact .inl h
          · rcases ih h with hSeparator | ⟨q, hq, ha⟩
            · exact .inl hSeparator
            · exact .inr ⟨q, List.mem_cons_of_mem _ hq, ha⟩

theorem Sound.zero_not_mem {p : Path} (h : p.Sound) : (0 : UInt8) ∉ p.bytes := by
  rw [bytes]
  split
  · decide
  · rw [List.mem_append, not_or]
    constructor
    · cases p.root <;> decide
    · intro hMem
      rcases mem_intercalate hMem with hSlash | ⟨name, hName, hZero⟩
      · revert hSlash
        decide
      · obtain ⟨part, hPart, rfl⟩ := List.mem_map.mp hName
        have hNull := Loose.byteOf_mem_iff (h.nameable.bytes?_part hPart) (c := Char.ofNat 0)
          (by decide)
        exact h.null part hPart (hNull.mp hZero)

theorem Sound.isNoPath_refusal? {p : Path} (h : p.Sound) {kind : FileFaultKind}
    (hRefusal : p.refusal? = some kind) : kind.isNoPath = false := by
  have hZero : p.bytes.contains 0 = false := by
    rw [Bool.eq_false_iff, ne_eq, List.contains_iff_mem]
    exact h.zero_not_mem
  simp only [refusal?, h.nameable.bytes?_print, FileTree.refusal?, hZero] at hRefusal
  split at hRefusal
  · contradiction
  · split at hRefusal
    · cases hRefusal
      rfl
    · split at hRefusal
      · cases hRefusal
        rfl
      · cases hRefusal

end Path

namespace FileTree

variable {t t' : FileTree} {current place : Place} {p : Path} {fault : FileFault}

theorem follow_isNoPath {names : List FileName} {kind : FileFaultKind}
    (h : t.follow place names = .error kind) : kind.isNoPath = false := by
  induction names generalizing place with
  | nil => cases h
  | cons name names ih =>
      simp only [follow] at h
      split at h
      · split at h
        · exact ih h
        · split at h
          · exact ih h
          · split at h
            · cases h
              rfl
            · exact ih h
      · cases h
        rfl
      · cases h
        rfl

theorem locate_isNoPath (hp : p.Sound) {kind : FileFaultKind}
    (h : t.locate current p.print = .error kind) : kind.isNoPath = false := by
  cases hRefusal : p.refusal? with
  | some kind' =>
      rw [locate_of_refusal hRefusal] at h
      cases h
      exact hp.isNoPath_refusal? hRefusal
  | none =>
      rw [locate_of_no_refusal hp.plain hRefusal] at h
      exact follow_isNoPath h

theorem fetch_isNoPath (hp : p.Sound) (h : t.fetch current p.print = .error fault) :
    fault.kind.isNoPath = false := by
  rw [fetch] at h
  split at h
  · rename_i hLocate
    cases h
    exact locate_isNoPath hp hLocate
  · split at h <;> cases h <;> rfl

theorem store_isNoPath (hp : p.Sound) {content : ByteArray}
    (h : t.store current p.print content = .error fault) : fault.kind.isNoPath = false := by
  rw [store] at h
  split at h
  · rename_i hLocate
    cases h
    exact locate_isNoPath hp hLocate
  · split at h <;> cases h
    rfl

theorem drop_isNoPath (hp : p.Sound) (h : t.drop current p.print = .error fault) :
    fault.kind.isNoPath = false := by
  rw [drop] at h
  split at h
  · rename_i hLocate
    cases h
    exact locate_isNoPath hp hLocate
  · split at h <;> cases h <;> rfl

theorem move_isNoPath {q : Path} (hp : p.Sound) (hq : q.Sound)
    (h : t.move current p.print q.print = .error fault) : fault.kind.isNoPath = false := by
  rw [move] at h
  split at h
  · rename_i hLocate
    cases h
    exact locate_isNoPath hp hLocate
  · rename_i hLocate _
    cases h
    exact locate_isNoPath hq hLocate
  · split at h
    · cases h
      rfl
    · split at h <;> cases h <;> rfl

theorem makeFolder_isNoPath (hp : p.Sound) (h : t.makeFolder current p = .error fault) :
    fault.kind.isNoPath = false := by
  rw [makeFolder] at h
  split at h
  · rename_i hLocate
    cases h
    exact locate_isNoPath hp hLocate
  · split at h <;> cases h
    rfl

/-- The folders around a path are tried as well, and their paths are no worse. -/
theorem makeFoldersUpTo_isNoPath (t : FileTree) (current : Place) (hp : p.Sound) (fuel : Nat)
    (h : (t.makeFoldersUpTo current p fuel).1 = .error fault) : fault.kind.isNoPath = false := by
  induction fuel generalizing p fault with
  | zero => exact makeFolder_isNoPath hp h
  | succ fuel ih =>
      simp only [makeFoldersUpTo] at h
      split at h
      · cases h
      · rename_i first hFirst
        split at h
        · split at h
          · rename_i parentFault t₁ hParent
            cases h
            exact ih hp.parent (by rw [hParent])
          · split at h
            · cases h
            · rename_i second hSecond
              split at h
              · cases h
              · cases h
                exact makeFolder_isNoPath hp hSecond
        · split at h
          · cases h
          · cases h
            exact makeFolder_isNoPath hp hFirst

end FileTree

namespace AtomicWrite

variable {t t' : FileTree} {current : Place} {target : Path} {ε : Type}

theorem temporaryName_subset {name : Loose} {n : Nat} {g : Text.Glyph}
    (h : g ∈ temporaryName name n) :
    g ∈ name ∨ g ∈ loose "." ∨ g ∈ loose ("." ++ Text.padded 8 n ++ ".tmp") := by
  simp only [temporaryName, List.mem_append] at h
  rcases h with (h | h) | h
  · exact .inr (.inl h)
  · exact .inl h
  · exact .inr (.inr h)

theorem null_not_mem_padded (width n : Nat) :
    .char (Char.ofNat 0) ∉ loose ("." ++ Text.padded width n ++ ".tmp") := by
  have hDigits : Char.ofNat 0 ∉ Nat.toDigits 10 n := by
    intro h
    have := Nat.isDigit_of_mem_toDigits (by decide) (by decide) h
    revert this
    decide
  simp [loose, Text.padded, Text.zeros, hDigits]

/-- The new file beside a target has a path if the target has one. -/
theorem beside_sound (h : target.Sound) (n : Nat) : (beside target n).Sound := by
  have hName : ∀ {g}, g ∈ target.name → ∃ part ∈ target.parts, g ∈ part := by
    intro g hg
    rw [Path.name] at hg
    cases hLast : target.parts.getLast? with
    | none => simp [hLast] at hg
    | some part => exact ⟨part, List.mem_of_getLast? hLast, by simpa [hLast] using hg⟩
  have hParts : ∀ part ∈ (beside target n).parts,
      part ∈ target.parent.parts ∨ part = temporaryName target.name n := by
    intro part hPart
    simpa [beside_eq] using hPart
  refine ⟨beside_plain h.plain, fun part hPart => ?_, fun part hPart => ?_⟩
  · rcases hParts part hPart with hPart | rfl
    · exact h.parent.nameable part hPart
    · rw [Loose.isSome_bytes?_iff]
      intro g hg
      rcases temporaryName_subset hg with hg | hg
      · obtain ⟨part, hPart, hg⟩ := hName hg
        exact Loose.isSome_bytes?_iff.mp (h.nameable part hPart) g hg
      · -- The rest of the name is made of characters.
        obtain ⟨c, rfl⟩ : ∃ c, g = .char c := by
          rcases hg with hg | hg <;>
          · obtain ⟨c, _, hc⟩ := List.mem_map.mp hg
            exact ⟨c, hc.symm⟩
        rfl
  · rcases hParts part hPart with hPart | rfl
    · exact h.parent.null part hPart
    · intro hNull
      rcases temporaryName_subset hNull with hNull | hNull | hNull
      · obtain ⟨part, hPart, hNull⟩ := hName hNull
        exact h.null part hPart hNull
      · revert hNull
        decide
      · exact null_not_mem_padded 8 n hNull

theorem place_isNoPath {p : Path} {content : String} {check : Option (String → Option ε)}
    {fault : FileFault} (hp : p.Sound) (hTarget : target.Sound)
    (h : (place t current target p content check).1 = .error (.file fault)) :
    fault.kind.isNoPath = false := by
  rw [place] at h
  split at h
  · rename_i hStore
    cases h
    exact FileTree.store_isNoPath hp hStore
  · split at h
    · rename_i hCheck
      cases h
      rw [checked] at hCheck
      split at hCheck <;> cases hCheck
    · split at h
      · rename_i hMove
        cases h
        exact FileTree.move_isNoPath hp hTarget hMove
      · cases h

theorem write_isNoPath {content : String} {check : Option (String → Option ε)}
    {fault : FileFault} (hTarget : target.Sound)
    (h : write t current target content check = (.error (.file fault), t')) :
    fault.kind.isNoPath = false := by
  rw [write, FileTree.makeFolders] at h
  split at h
  · rename_i hMake
    cases h
    exact FileTree.makeFoldersUpTo_isNoPath t current hTarget.parent _ (by rw [hMake])
  · rename_i t₁ _ _
    obtain ⟨n, hFresh, _⟩ := freshPath_eq t₁ current hTarget.plain
    rw [hFresh] at h
    dsimp only at h
    split at h
    · cases h
    · rename_i hPlace
      cases h
      exact place_isNoPath (beside_sound hTarget n) hTarget (by rw [hPlace])

end AtomicWrite

end BinderIdl
