import Mathlib.Data.List.Infix
import BinderIdl.Proofs.Files.Faults

/-! Folders in a tree that hangs together: whatever is somewhere is in a folder. There,
making a folder with those around it depends on one thing only, whether a file is in the
way, and the folders that are new are exactly those that were missing. -/
namespace BinderIdl

open Text (Loose loose)

/-- The places that names lead through from a place, and the place itself. -/
def Place.descent (place : Place) (names : List FileName) : List Place :=
  names.inits.map (place ++ ·)

theorem Place.mem_descent {place q : Place} {names : List FileName} :
    q ∈ place.descent names ↔ ∃ first, first <+: names ∧ q = place ++ first := by
  simp [descent, List.mem_inits, eq_comm]

/-- Names that lead from a place past a folder, nowhere into it. -/
def Place.Avoids (place : Place) (names : List FileName) (folder : Place) : Prop :=
  ∀ first, first <+: names → ¬folder <+: place.walk first

instance (place : Place) (names : List FileName) (folder : Place) :
    Decidable (place.Avoids names folder) :=
  decidable_of_iff (∀ first ∈ names.inits, ¬folder <+: place.walk first) (by
    simp [Place.Avoids, List.mem_inits])

/-- What is at every place, with folders at some of those where nothing is. -/
def fill (folders : List Place) (view : Place → Option Node) (q : Place) : Option Node :=
  if q ∈ folders then some ((view q).getD .folder) else view q

theorem fill_of_mem {folders : List Place} {view : Place → Option Node} {q : Place}
    (h : q ∈ folders) : fill folders view q = some ((view q).getD .folder) := if_pos h

theorem fill_of_not_mem {folders : List Place} {view : Place → Option Node} {q : Place}
    (h : q ∉ folders) : fill folders view q = view q := if_neg h

/-- Where something is, it stays. -/
theorem fill_of_some {folders : List Place} {view : Place → Option Node} {q : Place} {node : Node}
    (h : view q = some node) : fill folders view q = some node := by
  rw [fill, h]
  split <;> rfl

namespace Path

theorem prefix_intercalate_dropLast {α : Type} (separator : α) (parts : List (List α)) :
    List.intercalate [separator] parts.dropLast <+: List.intercalate [separator] parts := by
  induction parts with
  | nil => exact List.prefix_refl _
  | cons part parts ih =>
      cases parts with
      | nil => exact List.nil_prefix
      | cons next parts =>
          rw [List.dropLast_cons_cons, List.intercalate_cons_cons]
          cases parts with
          | nil =>
              rw [List.dropLast_singleton, List.intercalate_singleton, List.append_assoc]
              exact List.prefix_append _ _
          | cons last parts =>
              rw [List.dropLast_cons_cons] at ih ⊢
              rw [List.intercalate_cons_cons]
              exact (List.prefix_append_right_inj _).mpr ih

/-- A path is its folder and its name. -/
theorem parts_eq {p : Path} (h : p.parts ≠ []) : p.parts = p.parent.parts ++ [p.name] := by
  rw [parent, name, List.getLast?_eq_some_getLast h]
  exact (List.dropLast_append_getLast h).symm

theorem names_parent (p : Path) : p.parent.names = p.names.dropLast := by
  simp [parent, names]

theorem Sound.bytes_ne_nil {p : Path} (h : p.Sound) : p.bytes ≠ [] := by
  rw [bytes]
  split
  · decide
  · rename_i hThere
    by_cases hNil : p.parts = []
    · cases hRoot : p.root with
      | none => exact absurd ⟨hRoot, hNil⟩ hThere
      | slash => simp [rootBytes]
      | twoSlashes => simp [rootBytes]
    · intro hBytes
      have hNames := (List.append_eq_nil_iff.mp hBytes).2
      exact intercalate_ne_nil FileTree.slash (fun h => hNil (names_eq_nil.mp h))
        (fun name hName => (h.plain.name_ne_nil h.nameable name hName).1) hNames

/-- A path that could lead to a file is followed unless it is too long. -/
theorem Sound.refusal?_eq_none_iff {p : Path} (h : p.Sound) :
    p.refusal? = none ↔ p.bytes.length < FileTree.pathLimit := by
  have hZero : p.bytes.contains 0 = false := by
    rw [Bool.eq_false_iff, ne_eq, List.contains_iff_mem]
    exact h.zero_not_mem
  simp only [refusal?, h.nameable.bytes?_print, FileTree.refusal?, hZero, h.bytes_ne_nil]
  simp

/-- The bytes of the folder of a path are no more than those of the path. -/
theorem Sound.length_bytes_parent_le {p : Path} (h : p.Sound) :
    p.parent.bytes.length ≤ p.bytes.length := by
  have hPositive : 1 ≤ p.bytes.length := List.length_pos_iff.mpr h.bytes_ne_nil
  rw [bytes]
  split
  · exact hPositive
  · rename_i hThere
    have hSome : ¬(p.root = .none ∧ p.parts = []) := by
      rintro ⟨hRoot, hNil⟩
      exact hThere ⟨hRoot, by simp [Path.parent, hNil]⟩
    rw [bytes, if_neg hSome, names_parent]
    exact ((List.prefix_append_right_inj _).mpr (prefix_intercalate_dropLast _ _)).length_le

theorem length_intercalate_congr {α : Type} (separator : α) {parts others : List (List α)}
    (h : parts.map List.length = others.map List.length) :
    (List.intercalate [separator] parts).length = (List.intercalate [separator] others).length := by
  induction parts generalizing others with
  | nil =>
      rw [List.map_nil, eq_comm, List.map_eq_nil_iff] at h
      rw [h]
  | cons part parts ih =>
      obtain ⟨other, others, rfl⟩ := List.exists_cons_of_ne_nil (l := others) (by rintro rfl; cases h)
      obtain ⟨hFirst, hRest⟩ := List.cons.inj h
      have hLength := ih hRest
      cases parts with
      | nil =>
          rw [List.map_nil, eq_comm, List.map_eq_nil_iff] at hRest
          rw [hRest, List.intercalate_singleton, List.intercalate_singleton, hFirst]
      | cons next parts =>
          obtain ⟨next', others, rfl⟩ :=
            List.exists_cons_of_ne_nil (l := others) (by rintro rfl; cases hRest)
          rw [List.intercalate_cons_cons, List.intercalate_cons_cons]
          simp only [List.length_append, hFirst, hLength]

/-- Paths whose names have the same lengths are equally long. -/
theorem length_bytes_congr {p q : Path} (hRoot : p.root = q.root)
    (h : p.names.map List.length = q.names.map List.length) : p.bytes.length = q.bytes.length := by
  have hNil : p.parts = [] ↔ q.parts = [] := by
    rw [← names_eq_nil, ← names_eq_nil, ← List.map_eq_nil_iff (f := List.length), h,
      List.map_eq_nil_iff]
  simp only [bytes, hRoot, hNil]
  split
  · rfl
  · rw [List.length_append, List.length_append, length_intercalate_congr _ h]

end Path

namespace FileTree

variable {t t' : FileTree} {current place q : Place} {names : List FileName} {name : FileName}
  {path : Path}

/-- Whatever is somewhere is in a folder. -/
def Rooted (view : Place → Option Node) : Prop :=
  ∀ q name, view (q ++ [name]) ≠ none → view q = some .folder

/-- All places above something are folders. -/
theorem Rooted.above {view : Place → Option Node} (h : Rooted view) {more : List FileName}
    (hMore : more ≠ []) (hThere : view (q ++ more) ≠ none) : view q = some .folder := by
  induction more using List.reverseRecOn with
  | nil => exact absurd rfl hMore
  | append_singleton more name ih =>
      rw [← List.append_assoc] at hThere
      have hFolder := h _ _ hThere
      by_cases hNil : more = []
      · rwa [hNil, List.append_nil] at hFolder
      · exact ih hNil (by simp [hFolder])

/-- A name that leads to something in a folder and is not too long. -/
def Usable (name : FileName) : Prop := name.Ordinary ∧ name.length ≤ nameLimit

theorem follow_cons_of_folder (hName : Usable name) (hFolder : t.get? place = some .folder)
    (names : List FileName) : t.follow place (name :: names) = t.follow (place ++ [name]) names := by
  simp only [follow, hFolder, if_neg hName.1.1, if_neg hName.1.2, if_neg (Nat.not_lt.mpr hName.2)]

/-- Usable names lead somewhere through folders. -/
theorem follow_of_folders (hNames : ∀ n ∈ names, Usable n)
    (h : ∀ first, first <+: names → first ≠ names → t.get? (place ++ first) = some .folder) :
    t.follow place names = .ok (place ++ names) := by
  induction names generalizing place with
  | nil => simp [follow]
  | cons n names ih =>
      have hFolder : t.get? place = some .folder := by
        simpa using h [] List.nil_prefix (by simp)
      rw [follow_cons_of_folder (hNames n List.mem_cons_self) hFolder]
      have hRest : t.follow (place ++ [n]) names = .ok (place ++ [n] ++ names) := by
        apply ih fun n hn => hNames n (List.mem_cons_of_mem _ hn)
        intro first hFirst hNe
        simpa using h (n :: first) (by simpa using hFirst) (by simpa using hNe)
      rw [hRest, List.append_assoc, List.singleton_append]

/-- Ordinary names that lead somewhere are not too long. -/
theorem usable_of_follow (hNames : ∀ n ∈ names, n.Ordinary) (h : t.follow place names = .ok q) :
    ∀ n ∈ names, Usable n := by
  induction names generalizing place with
  | nil => exact nofun
  | cons n names ih =>
      have hOrdinary := hNames n List.mem_cons_self
      obtain ⟨_, ⟨hHere, _⟩ | ⟨hAbove, _⟩ | ⟨_, hLength, hRest⟩⟩ := follow_cons_eq_ok.mp h
      · exact absurd hHere hOrdinary.1
      · exact absurd hAbove hOrdinary.2
      · intro m hm
        rcases List.mem_cons.mp hm with rfl | hm
        · exact ⟨hOrdinary, hLength⟩
        · exact ih (fun n hn => hNames n (List.mem_cons_of_mem _ hn)) hRest m hm

/-- Names are followed alike through places at which the same is. -/
theorem follow_congr
    (h : ∀ first, first <+: names → t'.get? (place.walk first) = t.get? (place.walk first)) :
    t'.follow place names = t.follow place names := by
  induction names generalizing place with
  | nil => rfl
  | cons n names ih =>
      have hHere : t'.get? place = t.get? place := h [] List.nil_prefix
      have hRest : ∀ q : Place, (∀ first, q.walk first = place.walk (n :: first)) →
          t'.follow q names = t.follow q names := by
        intro q hq
        apply ih
        intro first hFirst
        rw [hq]
        exact h (n :: first) (List.cons_prefix_cons.mpr ⟨rfl, hFirst⟩)
      simp only [follow, hHere]
      by_cases hn : n = here
      · simp only [if_pos hn]
        rw [hRest place fun first => by rw [Place.walk, if_pos hn]]
      · by_cases hUp : n = above
        · simp only [if_neg hn, if_pos hUp]
          rw [hRest place.dropLast fun first => by rw [Place.walk, if_neg hn, if_pos hUp]]
        · simp only [if_neg hn, if_neg hUp]
          rw [hRest (place ++ [n]) fun first => by rw [Place.walk, if_neg hn, if_neg hUp]]

/-- A file is in the way. -/
def Blocked (t : FileTree) (place : Place) (names : List FileName) : Prop :=
  ∃ first c, first <+: names ∧ t.get? (place ++ first) = some (.file c)

/-- Where no file is in the way, there are folders all the way down. -/
theorem fill_descent_of_free (hFree : ¬t.Blocked place names) {first : List FileName}
    (hFirst : first <+: names) : fill (place.descent names) t.get? (place ++ first) = some .folder := by
  rw [fill_of_mem (Place.mem_descent.mpr ⟨first, hFirst, rfl⟩)]
  cases hNode : t.get? (place ++ first) with
  | none => rfl
  | some node =>
      cases node with
      | folder => rfl
      | file c => exact absurd ⟨first, c, hFirst, hNode⟩ hFree

/-- New folders in folders. -/
theorem Rooted.fill (h : Rooted t.get?) (hPlace : t.get? place = some .folder)
    (hFree : ¬t.Blocked place names) : Rooted (fill (place.descent names) t.get?) := by
  intro q name hThere
  by_cases hMem : q ++ [name] ∈ place.descent names
  · obtain ⟨first, hFirst, hEq⟩ := Place.mem_descent.mp hMem
    induction first using List.reverseRecOn with
    | nil =>
        -- The place itself is new to nobody: it was there, and so was the one above.
        rw [List.append_nil] at hEq
        apply fill_of_some
        exact h q name (by rw [hEq, hPlace]; simp)
    | append_singleton first last _ =>
        rw [← List.append_assoc] at hEq
        obtain rfl : q = place ++ first := (List.append_inj' hEq rfl).1
        exact fill_descent_of_free hFree ((List.prefix_append _ _).trans hFirst)
  · rw [fill_of_not_mem hMem] at hThere
    exact fill_of_some (h q name hThere)

theorem follow_of_blocked (hRooted : Rooted t.get?) (hNames : ∀ n ∈ names, Usable n)
    (h : t.Blocked place names) (last : FileName) :
    t.follow place (names ++ [last]) = .error .notFolder := by
  induction names generalizing place with
  | nil =>
      obtain ⟨first, c, hFirst, hFile⟩ := h
      rw [List.prefix_nil.mp hFirst, List.append_nil] at hFile
      simp [follow, hFile]
  | cons n names ih =>
      obtain ⟨first, c, hFirst, hFile⟩ := h
      cases first with
      | nil =>
          rw [List.append_nil] at hFile
          simp [follow, hFile]
      | cons m first =>
          obtain ⟨rfl, hRest⟩ := List.cons_prefix_cons.mp hFirst
          have hFolder : t.get? place = some .folder :=
            hRooted.above (List.cons_ne_nil m first) (by simp [hFile])
          rw [List.cons_append, follow_cons_of_folder (hNames m List.mem_cons_self) hFolder]
          apply ih fun n hn => hNames n (List.mem_cons_of_mem _ hn)
          exact ⟨first, c, hRest, by simpa using hFile⟩

theorem follow_of_missing (hNames : ∀ n ∈ names, Usable n) (hFree : ¬t.Blocked place names)
    (h : t.get? (place ++ names) = none) (last : FileName) :
    t.follow place (names ++ [last]) = .error .missing := by
  induction names generalizing place with
  | nil =>
      rw [List.append_nil] at h
      simp [follow, h]
  | cons n names ih =>
      cases hPlace : t.get? place with
      | none => simp [follow, hPlace]
      | some node =>
          cases node with
          | file c =>
              exact absurd ⟨[], c, List.nil_prefix, by simpa using hPlace⟩ hFree
          | folder =>
              rw [List.cons_append, follow_cons_of_folder (hNames n List.mem_cons_self) hPlace]
              apply ih (fun n hn => hNames n (List.mem_cons_of_mem _ hn))
              · rintro ⟨first, c, hFirst, hFile⟩
                exact hFree ⟨n :: first, c, by simpa using hFirst, by simpa using hFile⟩
              · simpa using h

/-- A path that leads down from a place through some names. -/
structure Down (t : FileTree) (current : Place) (path : Path) (place : Place)
    (names : List FileName) : Prop where
  sound : path.Sound
  length : path.bytes.length < pathLimit
  way : ∃ first, path.names = first ++ names ∧ t.follow (path.start current) first = .ok place
  usable : ∀ n ∈ names, Usable n

namespace Down

theorem parent (h : Down t current path place (names ++ [name])) :
    Down t current path.parent place names where
  sound := h.sound.parent
  length := Nat.lt_of_le_of_lt h.sound.length_bytes_parent_le h.length
  way := by
    obtain ⟨first, hNames, hFollow⟩ := h.way
    refine ⟨first, ?_, hFollow⟩
    rw [Path.names_parent, hNames, ← List.append_assoc, List.dropLast_concat]
  usable n hn := h.usable n (List.mem_append_left _ hn)

theorem length_lt (h : Down t current path place names) :
    names.length < path.parts.length + 1 := by
  obtain ⟨first, hNames, _⟩ := h.way
  have hLength := congrArg List.length hNames
  simp only [Path.names, List.length_map, List.length_append] at hLength
  omega

theorem parent_ne (h : Down t current path place (names ++ [name])) : path.parent ≠ path := by
  obtain ⟨first, hNames, _⟩ := h.way
  intro hSame
  have hLength := congrArg (List.length ∘ Path.names) hSame
  simp [Path.names_parent, hNames] at hLength

theorem mono (h : Down t current path place names)
    (hFolders : ∀ q, t.get? q = some .folder → t'.get? q = some .folder) :
    Down t' current path place names where
  sound := h.sound
  length := h.length
  way := by
    obtain ⟨first, hNames, hFollow⟩ := h.way
    exact ⟨first, hNames, follow_mono hFolders hFollow⟩
  usable := h.usable

theorem locate_concat (h : Down t current path place (names ++ [name])) :
    t.locate current path.print = t.follow place (names ++ [name]) := by
  obtain ⟨first, hNames, hFollow⟩ := h.way
  have hNil : path.parts ≠ [] := by
    intro h
    rw [Path.names_eq_nil.mpr h] at hNames
    simp at hNames
  rw [locate_of_no_refusal h.sound.plain (h.sound.refusal?_eq_none_iff.mpr h.length), Path.steps,
    if_neg hNil, hNames, follow_append, hFollow]
  rfl

theorem locate_nil (h : Down t current path place []) (hFolder : t.get? place = some .folder) :
    t.locate current path.print = .ok place := by
  obtain ⟨first, hNames, hFollow⟩ := h.way
  rw [List.append_nil] at hNames
  rw [locate_of_no_refusal h.sound.plain (h.sound.refusal?_eq_none_iff.mpr h.length), Path.steps]
  split
  · rename_i hNil
    rw [← hNames, Path.names_eq_nil.mpr hNil] at hFollow
    cases hFollow
    simp [follow, hFolder]
  · rw [hNames, hFollow]

end Down

/-- A place where something is already. -/
theorem makeFoldersUpTo_of_some {node : Node} (hLocate : t.locate current path.print = .ok q)
    (hNode : t.get? q = some node) (fuel : Nat) :
    t.makeFoldersUpTo current path (fuel + 1) =
      (if (t.content? q).isSome then .error ⟨.present, path.print, none⟩ else .ok t, t) := by
  cases node <;> simp [makeFoldersUpTo, makeFolder, isFolder, find?, content?, hLocate, hNode]

theorem makeFoldersUpTo_of_none (hLocate : t.locate current path.print = .ok q)
    (hNode : t.get? q = none) (fuel : Nat) :
    t.makeFoldersUpTo current path (fuel + 1) = (.ok (t.put q .folder), t.put q .folder) := by
  simp only [makeFoldersUpTo, makeFolder, hLocate, hNode]

/-- The places above a folder in a tree that hangs together are folders. -/
theorem Rooted.descent {view : Place → Option Node} (h : Rooted view)
    (hFolder : view (place ++ names) = some .folder) {first : List FileName}
    (hFirst : first <+: names) : view (place ++ first) = some .folder := by
  obtain ⟨more, rfl⟩ := hFirst
  by_cases hNil : more = []
  · rwa [hNil, List.append_nil] at hFolder
  · rw [← List.append_assoc] at hFolder
    exact h.above hNil (by rw [hFolder]; simp)

theorem fill_descent_of_folder {view : Place → Option Node} (h : Rooted view)
    (hFolder : view (place ++ names) = some .folder) : fill (place.descent names) view = view := by
  funext q
  by_cases hq : q ∈ place.descent names
  · obtain ⟨first, hFirst, rfl⟩ := Place.mem_descent.mp hq
    have hView := h.descent hFolder hFirst
    rw [fill_of_some hView, hView]
  · exact fill_of_not_mem hq

/-- The last of the missing folders. -/
theorem fill_descent_concat {view : Place → Option Node}
    (hNone : view (place ++ names ++ [name]) = none) (q : Place) :
    fill (place.descent (names ++ [name])) view q =
      if q = place ++ names ++ [name] then some .folder
      else fill (place.descent names) view q := by
  have hMem : q ∈ place.descent (names ++ [name]) ↔
      q = place ++ names ++ [name] ∨ q ∈ place.descent names := by
    simp only [Place.mem_descent, List.prefix_concat_iff]
    constructor
    · rintro ⟨first, rfl | hFirst, rfl⟩
      · exact .inl (List.append_assoc _ _ _).symm
      · exact .inr ⟨first, hFirst, rfl⟩
    · rintro (rfl | ⟨first, hFirst, rfl⟩)
      · exact ⟨_, .inl rfl, List.append_assoc _ _ _⟩
      · exact ⟨first, .inr hFirst, rfl⟩
  split
  · rename_i hq
    rw [fill_of_mem (hMem.mpr (.inl hq)), hq, hNone]
    rfl
  · rename_i hq
    by_cases hOld : q ∈ place.descent names
    · rw [fill_of_mem hOld, fill_of_mem (hMem.mpr (.inr hOld))]
    · rw [fill_of_not_mem hOld, fill_of_not_mem fun h => (hMem.mp h).elim hq hOld]

/-- Nothing is in the way: the folders are made as far as they are missing. -/
theorem makeFoldersUpTo_of_free (hRooted : Rooted t.get?) (hPlace : t.get? place = some .folder)
    (hFree : ¬t.Blocked place names) (hDown : Down t current path place names) {fuel : Nat}
    (hFuel : names.length < fuel) : ∃ t', t.makeFoldersUpTo current path fuel = (.ok t', t') ∧
      t'.get? = fill (place.descent names) t.get? := by
  induction names using List.reverseRecOn generalizing path fuel with
  | nil =>
      obtain ⟨fuel, rfl⟩ := Nat.exists_eq_add_one_of_ne_zero (Nat.ne_of_gt hFuel)
      have hLocate := hDown.locate_nil hPlace
      refine ⟨t, ?_, (fill_descent_of_folder hRooted (by simpa using hPlace)).symm⟩
      rw [makeFoldersUpTo_of_some hLocate hPlace, content?, hPlace]
      rfl
  | append_singleton names name ih =>
      obtain ⟨fuel, rfl⟩ := Nat.exists_eq_add_one_of_ne_zero (Nat.ne_of_gt (Nat.zero_lt_of_lt hFuel))
      have hLocate := hDown.locate_concat
      have hFree' : ¬t.Blocked place names := by
        rintro ⟨first, c, hFirst, hFile⟩
        exact hFree ⟨first, c, hFirst.trans (List.prefix_append _ _), hFile⟩
      have hUsable : ∀ n ∈ names, Usable n := fun n hn => hDown.usable n (List.mem_append_left _ hn)
      cases hFolder : t.get? (place ++ names) with
      | none =>
          -- The folder around it is missing as well, and is made first.
          rw [follow_of_missing hUsable hFree' hFolder] at hLocate
          obtain ⟨t₁, hMake, hView⟩ := ih hFree' hDown.parent (by simpa using hFuel)
          have hNone : t.get? (place ++ names ++ [name]) = none := by
            apply Classical.byContradiction
            intro hThere
            rw [hRooted _ _ hThere] at hFolder
            cases hFolder
          have hFolders : ∀ q, t.get? q = some .folder → t₁.get? q = some .folder := by
            intro q hq
            rw [hView, fill_of_some hq]
          have hWay : ∀ first, first <+: names ++ [name] → first ≠ names ++ [name] →
              t₁.get? (place ++ first) = some .folder := by
            intro first hFirst hNe
            have hMem : first <+: names := (List.prefix_concat_iff.mp hFirst).resolve_left hNe
            rw [hView]
            exact fill_descent_of_free hFree' hMem
          have hLocate₁ := (hDown.mono hFolders).locate_concat
          rw [follow_of_folders hDown.usable hWay, ← List.append_assoc] at hLocate₁
          have hNone₁ : t₁.get? (place ++ names ++ [name]) = none := by
            rw [hView, fill_of_not_mem, hNone]
            intro hMem
            obtain ⟨first, hFirst, hEq⟩ := Place.mem_descent.mp hMem
            have hLength := hFirst.length_le
            have := congrArg List.length hEq
            simp only [List.length_append, List.length_singleton] at this
            omega
          refine ⟨t₁.put (place ++ names ++ [name]) .folder, ?_, ?_⟩
          · simp only [makeFoldersUpTo, makeFolder, hLocate, true_and, if_pos hDown.parent_ne, hMake,
              hLocate₁, hNone₁]
          · funext q
            rw [get?_put (by simp), fill_descent_concat hNone, hView]
      | some node =>
          cases node with
          | file c => exact absurd ⟨names, c, List.prefix_append _ _, hFolder⟩ hFree
          | folder =>
              have hWay : ∀ first, first <+: names ++ [name] → first ≠ names ++ [name] →
                  t.get? (place ++ first) = some .folder := fun first hFirst hNe =>
                hRooted.descent hFolder ((List.prefix_concat_iff.mp hFirst).resolve_left hNe)
              rw [follow_of_folders hDown.usable hWay, ← List.append_assoc] at hLocate
              cases hLast : t.get? (place ++ names ++ [name]) with
              | none =>
                  refine ⟨t.put (place ++ names ++ [name]) .folder, ?_, ?_⟩
                  · exact makeFoldersUpTo_of_none hLocate hLast fuel
                  · funext q
                    rw [get?_put (by simp), fill_descent_concat hLast,
                      fill_descent_of_folder hRooted hFolder]
              | some node =>
                  cases node with
                  | file c =>
                      rw [List.append_assoc] at hLast
                      exact absurd ⟨_, c, List.prefix_refl _, hLast⟩ hFree
                  | folder =>
                      refine ⟨t, ?_, ?_⟩
                      · rw [makeFoldersUpTo_of_some hLocate hLast, content?, hLast]
                        rfl
                      · rw [List.append_assoc] at hLast
                        exact (fill_descent_of_folder hRooted hLast).symm

/-- How a folder cannot be made: in its place is a file, or something on the way is no
folder. -/
def obstruction (t : FileTree) (place : Place) : FileFaultKind :=
  if (t.content? place).isSome then .present else .notFolder

/-- A file is in the way: nothing is made. -/
theorem makeFoldersUpTo_of_blocked (hRooted : Rooted t.get?) (hPlace : t.get? place = some .folder)
    (hBlocked : t.Blocked place names) (hDown : Down t current path place names) {fuel : Nat}
    (hFuel : names.length < fuel) : t.makeFoldersUpTo current path fuel =
      (.error ⟨t.obstruction (place ++ names), path.print, none⟩, t) := by
  obtain ⟨fuel, rfl⟩ := Nat.exists_eq_add_one_of_ne_zero (Nat.ne_of_gt (Nat.zero_lt_of_lt hFuel))
  obtain ⟨first, c, hFirst, hFile⟩ := hBlocked
  obtain rfl | ⟨names, name, rfl⟩ := List.eq_nil_or_concat' names
  · rw [List.prefix_nil.mp hFirst, List.append_nil, hPlace] at hFile
    cases hFile
  · have hLocate := hDown.locate_concat
    have hUsable : ∀ n ∈ names, Usable n := fun n hn => hDown.usable n (List.mem_append_left _ hn)
    rcases List.prefix_concat_iff.mp hFirst with rfl | hFirst
    · -- The file is in the place of the folder itself.
      rw [← List.append_assoc] at hFile
      have hFolder : t.get? (place ++ names) = some .folder :=
        hRooted _ name (by rw [hFile]; simp)
      rw [follow_of_folders hDown.usable, ← List.append_assoc] at hLocate
      · rw [makeFoldersUpTo_of_some hLocate hFile, ← List.append_assoc, obstruction, content?, hFile]
        rfl
      · exact fun first hFirst hNe =>
          hRooted.descent hFolder ((List.prefix_concat_iff.mp hFirst).resolve_left hNe)
    · rw [follow_of_blocked hRooted hUsable ⟨first, c, hFirst, hFile⟩] at hLocate
      have hNone : t.content? (place ++ (names ++ [name])) = none := by
        obtain ⟨more, rfl⟩ := hFirst
        have hNode : t.get? (place ++ (first ++ more ++ [name])) = none := by
          apply Classical.byContradiction
          intro hThere
          rw [List.append_assoc, ← List.append_assoc] at hThere
          rw [hRooted.above (by simp) hThere] at hFile
          cases hFile
        rw [content?, hNode]
      simp [makeFoldersUpTo, makeFolder, isFolder, find?, hLocate, obstruction, hNone]

end FileTree

end BinderIdl
