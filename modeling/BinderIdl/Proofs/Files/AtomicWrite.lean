import Mathlib.Data.List.Nodup
import Mathlib.Data.List.Perm.Subperm
import BinderIdl.AtomicWrite
import BinderIdl.Proofs.Files.Tree

/-! Writing a file in one step either replaces the content of the target and nothing
else, or leaves every file as it was. In both cases folders around the target may be
new, and the file beside the target is gone again. -/
namespace BinderIdl

open Text (Loose loose byteOf)

namespace Text

theorem padded_injective (width : Nat) : Function.Injective (padded width) := by
  intro m n h
  have hDigits := congrArg (fun s => Nat.ofDigitChars 10 s.toList 0) h
  simpa [padded, zeros, Nat.ofDigitChars_append, Nat.ofDigitChars_replicate_zero,
    Nat.ofDigitChars_ten_toDigits] using hDigits

end Text

theorem FileName.ordinary_of_mem {name : FileName} {b : UInt8} (h : b ∈ name)
    (hDot : b ≠ byteOf '.') : name.Ordinary := by
  have hHere : FileTree.here = List.replicate 1 (byteOf '.') := by decide
  have hAbove : FileTree.above = List.replicate 2 (byteOf '.') := by decide
  constructor
  · rintro rfl
    exact hDot (List.eq_of_mem_replicate (hHere ▸ h))
  · rintro rfl
    exact hDot (List.eq_of_mem_replicate (hAbove ▸ h))

namespace AtomicWrite

/-- The path of the new file beside a target, with a number. -/
def beside (target : Path) (number : Nat) : Path :=
  target.parent / (⟨.none, [temporaryName target.name number]⟩ : Path)

variable {t t' : FileTree} {current place : Place} {target : Path} {n : Nat}

theorem beside_eq (target : Path) (n : Nat) :
    beside target n = ⟨target.root, target.parent.parts ++ [temporaryName target.name n]⟩ := rfl

theorem slash_not_mem_name (h : target.Plain) : .char '/' ∉ target.name := by
  rw [Path.name]
  cases hLast : target.parts.getLast? with
  | none => exact List.not_mem_nil
  | some part => exact (h part (List.mem_of_getLast? hLast)).2

theorem slash_not_mem_padded (width n : Nat) :
    .char '/' ∉ loose ("." ++ Text.padded width n ++ ".tmp") := by
  have hDigits : '/' ∉ Nat.toDigits 10 n := by
    intro h
    have := Nat.isDigit_of_mem_toDigits (by decide) (by decide) h
    revert this
    decide
  simp [loose, Text.padded, Text.zeros, hDigits]

theorem beside_plain (h : target.Plain) : (beside target n).Plain := by
  apply h.parent.append
  intro part hPart
  rw [List.mem_singleton] at hPart
  subst hPart
  constructor
  · simp [temporaryName, loose]
  · simp only [temporaryName, List.mem_append, not_or]
    exact ⟨⟨by simp [loose], slash_not_mem_name h⟩, slash_not_mem_padded 8 n⟩

/-- The name of the new file. -/
def temporaryFile (name : Loose) (number : Nat) : FileName :=
  (temporaryName name number).bytes?.getD []

theorem beside_steps (target : Path) (n : Nat) :
    (beside target n).steps = target.parent.names ++ [temporaryFile target.name n] := by
  simp [beside_eq, Path.steps, Path.names, temporaryFile]

theorem nameable_of_locate {p : Path} (h : t.locate current p.print = .ok place) :
    p.Nameable := by
  cases hRefusal : p.refusal? with
  | some kind =>
      rw [FileTree.locate_of_refusal hRefusal] at h
      cases h
  | none => exact Path.nameable_of_no_refusal hRefusal

theorem temporaryFile_ordinary {name : Loose} {bytes : FileName}
    (h : (temporaryName name n).bytes? = some bytes) : bytes.Ordinary := by
  have hMem : Text.Glyph.char 't' ∈ temporaryName name n := by
    simp [temporaryName, loose]
  exact FileName.ordinary_of_mem ((Loose.byteOf_mem_iff h (by decide)).mpr hMem) (by decide)

/-- A new file is looked up in the folder of the target. -/
theorem locate_beside (hTarget : target.Plain)
    (h : t.locate current (beside target n).print = .ok place) :
    ∃ folder, t.follow (target.start current) target.parent.names = .ok folder ∧
      (temporaryName target.name n).bytes? = some (temporaryFile target.name n) ∧
      place = folder ++ [temporaryFile target.name n] := by
  have hNameable := nameable_of_locate h
  have hBytes := hNameable.bytes?_part
    (show temporaryName target.name n ∈ (beside target n).parts by simp [beside_eq])
  have hFollow := FileTree.follow_of_locate (beside_plain hTarget) h
  rw [beside_steps] at hFollow
  obtain ⟨folder, hFolder, _, _, rfl⟩ :=
    FileTree.follow_concat (temporaryFile_ordinary hBytes) hFollow
  exact ⟨folder, hFolder, hBytes, rfl⟩

theorem bytes?_temporaryName_injective {name : Loose} {m n : Nat} {bytes : FileName}
    (hm : (temporaryName name m).bytes? = some bytes)
    (hn : (temporaryName name n).bytes? = some bytes) : m = n := by
  obtain ⟨a, b, ha, hb, rfl⟩ := Loose.bytes?_append_eq_some.mp hm
  obtain ⟨a', b', ha', hb', hSame⟩ := Loose.bytes?_append_eq_some.mp hn
  obtain rfl : a = a' := Option.some.inj (ha.symm.trans ha')
  obtain rfl : b = b' := List.append_cancel_left hSame
  have hText := Text.eq_of_bytes?_loose (hb.trans hb'.symm)
  apply Text.padded_injective 8
  have hList := congrArg String.toList hText
  exact String.toList_inj.mp (by simpa using hList)

/-- There is room for a new file beside every target: the numbers that are tried
outnumber the places where something is. -/
theorem exists_free (t : FileTree) (current : Place) (hTarget : target.Plain) :
    ∃ n < t.nodes.length + 1, t.isThere current (beside target n).print = false := by
  by_contra hNone
  have hThere : ∀ n < t.nodes.length + 1, ∃ place,
      t.locate current (beside target n).print = .ok place ∧ place ∈ t.nodes.map Prod.fst := by
    intro n hn
    have hIs : t.isThere current (beside target n).print ≠ false := fun h => hNone ⟨n, hn, h⟩
    rw [Bool.ne_false_iff, FileTree.isThere, Option.isSome_iff_exists] at hIs
    obtain ⟨node, hNode⟩ := hIs
    rw [FileTree.find?] at hNode
    split at hNode
    · rename_i place hLocate
      obtain ⟨folder, _, _, rfl⟩ := locate_beside hTarget hLocate
      exact ⟨_, hLocate, FileTree.mem_of_get? (by simp) hNode⟩
    · cases hNode
  -- The place of each number, which is never the default.
  let placeOf (n : Nat) : Place :=
    (t.locate current (beside target n).print).toOption.getD []
  have hPlace : ∀ {n place}, t.locate current (beside target n).print = .ok place →
      placeOf n = place := fun h => by simp [placeOf, h, Except.toOption]
  have hNodup : ((List.range (t.nodes.length + 1)).map placeOf).Nodup := by
    refine List.Nodup.map_on ?_ List.nodup_range
    intro m hm n hn hSame
    obtain ⟨place, hLocate, _⟩ := hThere m (List.mem_range.mp hm)
    obtain ⟨place', hLocate', _⟩ := hThere n (List.mem_range.mp hn)
    rw [hPlace hLocate, hPlace hLocate'] at hSame
    subst hSame
    obtain ⟨folder, _, hBytes, rfl⟩ := locate_beside hTarget hLocate
    obtain ⟨folder', _, hBytes', hEq⟩ := locate_beside hTarget hLocate'
    have hFile : temporaryFile target.name m = temporaryFile target.name n := by
      simpa using (List.append_inj' hEq (by simp)).2
    rw [hFile] at hBytes
    exact bytes?_temporaryName_injective hBytes hBytes'
  have hSubset : (List.range (t.nodes.length + 1)).map placeOf ⊆ t.nodes.map Prod.fst := by
    intro place hMem
    obtain ⟨n, hn, rfl⟩ := List.mem_map.mp hMem
    obtain ⟨place, hLocate, hListed⟩ := hThere n (List.mem_range.mp hn)
    rwa [hPlace hLocate]
  have hLength := (hNodup.subperm hSubset).length_le
  simp only [List.length_map, List.length_range] at hLength
  omega

/-- The path for the new file is the first one that is free. -/
theorem freshPath_eq (t : FileTree) (current : Place) (hTarget : target.Plain) :
    ∃ n, freshPath t current target = beside target n ∧
      t.isThere current (beside target n).print = false ∧
      ∀ m < n, t.isThere current (beside target m).print = true := by
  have hFind : freshPath t current target =
      (((List.range (t.nodes.length + 1)).find? fun n =>
        !t.isThere current (beside target n).print).map (beside target)).getD target := by
    rw [freshPath, List.find?_map]
    rfl
  obtain ⟨k, hk, hFree⟩ := exists_free t current hTarget
  cases hFirst : (List.range (t.nodes.length + 1)).find? fun n =>
      !t.isThere current (beside target n).print with
  | none =>
      have hAll := List.find?_eq_none.mp hFirst k (List.mem_range.mpr hk)
      simp [hFree] at hAll
  | some n =>
      obtain ⟨hn, _, hBefore⟩ := List.find?_range_eq_some.mp hFirst
      refine ⟨n, by rw [hFind, hFirst]; rfl, by simpa using hn, ?_⟩
      intro m hm
      simpa using hBefore m hm

variable {ε : Type}

theorem cleanUp_of_free {p : Path} (h : t.isThere current p.print = false) :
    cleanUp t current p = t := by
  rw [FileTree.isThere, FileTree.find?] at h
  rw [cleanUp, FileTree.drop]
  cases hLocate : t.locate current p.print with
  | error kind => rfl
  | ok place =>
      have hNone : t.get? place = none := by simpa [hLocate] using h
      simp only [hNone]

/-- A free place at which a file was put, and which is found again. -/
theorem stored_of_free {p : Path} (hp : p.Plain) (hFree : t.isThere current p.print = false)
    {bytes : ByteArray} (h : t.store current p.print bytes = .ok t') :
    ∃ place, place ≠ [] ∧ t.get? place = none ∧ t' = t.put place (.file bytes) ∧
      t'.locate current p.print = .ok place := by
  obtain ⟨place, hLocate, hNode, rfl⟩ := FileTree.store_eq_ok h
  have hNone : t.get? place = none := by
    rw [FileTree.isThere, FileTree.find?, hLocate] at hFree
    simpa using hFree
  have hNil := FileTree.ne_nil_of_get?_ne hNode
  refine ⟨place, hNil, hNone, rfl, FileTree.locate_mono ?_ hp hLocate⟩
  intro q hq
  rw [FileTree.get?_put hNil, if_neg, hq]
  rintro rfl
  rw [hNone] at hq
  cases hq

/-- The new file leaves nothing behind when it is removed. -/
theorem get?_cleanUp {p : Path} {bytes : ByteArray} (hNil : place ≠ [])
    (hNone : t.get? place = none)
    (hLocate : (t.put place (.file bytes)).locate current p.print = .ok place) :
    (cleanUp (t.put place (.file bytes)) current p).get? = t.get? := by
  have hFile : (t.put place (.file bytes)).get? place = some (.file bytes) := by
    rw [FileTree.get?_put hNil, if_pos rfl]
  simp only [cleanUp, FileTree.drop, hLocate, hFile]
  funext q
  rw [FileTree.get?_erase hNil, FileTree.get?_put hNil]
  split
  · rename_i hq
    rw [hq, hNone]
  · rfl

/-- What is left once the folder of the target is there: the target with the content,
or everything as it was. -/
theorem place_cases {p : Path} (hp : p.Plain) (hTarget : target.Plain)
    (hFree : t.isThere current p.print = false) (content : String)
    (check : Option (String → Option ε)) :
    ((∃ fault, (AtomicWrite.place t current target p content check).1 = .error fault) ∧
      (cleanUp (AtomicWrite.place t current target p content check).2 current p).get? = t.get?) ∨
    (∃ q, (AtomicWrite.place t current target p content check).1 = .ok () ∧
      checked check content = .ok () ∧ t.locate current target.print = .ok q ∧
      t.get? q ≠ some .folder ∧
      (AtomicWrite.place t current target p content check).2.get? =
        fun r => if r = q then some (.file content.toUTF8) else t.get? r) := by
  rw [AtomicWrite.place]
  split
  · exact .inl ⟨⟨_, rfl⟩, by rw [cleanUp_of_free hFree]⟩
  · rename_i t₁ hStore
    obtain ⟨q, hNil, hNone, rfl, hLocate⟩ := stored_of_free hp hFree hStore
    split
    · exact .inl ⟨⟨_, rfl⟩, get?_cleanUp hNil hNone hLocate⟩
    · rename_i hCheck
      split
      · exact .inl ⟨⟨_, rfl⟩, get?_cleanUp hNil hNone hLocate⟩
      · rename_i t₂ hMove
        obtain ⟨q', r, node, hFrom, hTo, _, hNode, hFolder, rfl⟩ := FileTree.move_eq_ok hMove
        obtain rfl : q = q' := by
          rw [hLocate] at hFrom
          cases hFrom
          rfl
        rw [FileTree.get?_put hNil, if_pos rfl, Option.some.injEq] at hNode
        subst hNode
        -- The new file is no folder, so the target is found without it as well.
        have hTo' : t.locate current target.print = .ok r := by
          refine FileTree.locate_mono ?_ hTarget hTo
          intro s hs
          rw [FileTree.get?_put hNil] at hs
          split at hs
          · cases hs
          · exact hs
        have hr : r ≠ [] := FileTree.ne_nil_of_get?_ne hFolder
        refine .inr ⟨r, rfl, hCheck, hTo', ?_, ?_⟩
        · intro hs
          rw [FileTree.get?_put hNil] at hFolder
          split at hFolder
          · rename_i hrq
            rw [hrq, hNone] at hs
            cases hs
          · exact hFolder hs
        · funext s
          rw [FileTree.get?_put hr, FileTree.get?_erase hNil, FileTree.get?_put hNil]
          split
          · rfl
          · split
            · rename_i hs
              rw [hs, hNone]
            · rfl

/-- Writing a file in one step: either it fails and only folders are new, or the
content was accepted and is in the file. -/
theorem write_cases (t : FileTree) (current : Place) (hTarget : target.Plain) (content : String)
    (check : Option (String → Option ε)) :
    (∃ fault t', write t current target content check = (.error fault, t') ∧
      t.Grows t' (FileTree.onTheWay target.parent current)) ∨
    (∃ t', write t current target content check = (.ok (), t') ∧
      checked check content = .ok () ∧ t.Written t' current target content.toUTF8) := by
  obtain ⟨hOk, hError⟩ := FileTree.makeFoldersUpTo_grows t current hTarget.parent
    (target.parent.parts.length + 1)
  rw [write, FileTree.makeFolders]
  split
  · rename_i fault t₁ hMake
    rw [hMake] at hError
    exact .inl ⟨_, t₁, rfl, hError⟩
  · rename_i t₁ _ hMake
    have hGrows := hOk t₁ (by rw [hMake])
    obtain ⟨n, hFresh, hFree, _⟩ := freshPath_eq t₁ current hTarget
    rw [← hFresh] at hFree
    have hPlain : (freshPath t₁ current target).Plain := hFresh ▸ beside_plain hTarget
    dsimp only
    rcases place_cases hPlain hTarget hFree content check with
      ⟨⟨fault, hFault⟩, hSame⟩ | ⟨q, hDone, hCheck, hLocate, hFolder, hGet⟩
    · split
      · rename_i hPlace
        rw [hPlace] at hFault
        cases hFault
      · rename_i hPlace
        rw [hPlace] at hSame
        exact .inl ⟨_, _, rfl, hGrows.congr hSame⟩
    · split
      · rename_i hPlace
        rw [hPlace] at hGet
        exact .inr ⟨_, rfl, hCheck, t₁, q, hGrows, hLocate, hFolder, hGet⟩
      · rename_i hPlace
        rw [hPlace] at hDone
        cases hDone

end AtomicWrite

end BinderIdl
