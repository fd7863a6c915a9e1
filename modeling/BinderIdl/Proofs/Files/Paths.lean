import BinderIdl.Proofs.Files.Names

/-! How the text of a path is followed in a tree of files: the parts of the path are
the names on the way. What keeps a text from being followed at all does not depend on
the tree. -/
namespace BinderIdl

open Text (Loose loose byteOf)

namespace Path

theorem intercalate_ne_nil {α : Type} (separator : α) {parts : List (List α)} (hNil : parts ≠ [])
    (h : ∀ part ∈ parts, part ≠ []) : List.intercalate [separator] parts ≠ [] := by
  cases parts with
  | nil => exact absurd rfl hNil
  | cons part parts =>
      have hPart := h part List.mem_cons_self
      cases parts with
      | nil => rwa [List.intercalate_singleton]
      | cons next parts => simp [List.intercalate_cons_cons]

theorem getLast?_intercalate_ne {α : Type} {separator : α} {parts : List (List α)}
    (hNil : parts ≠ []) (h : ∀ part ∈ parts, part ≠ [] ∧ separator ∉ part) :
    (List.intercalate [separator] parts).getLast? ≠ some separator := by
  induction parts with
  | nil => exact absurd rfl hNil
  | cons part parts ih =>
      cases parts with
      | nil =>
          rw [List.intercalate_singleton]
          intro hLast
          exact (h part List.mem_cons_self).2 (List.mem_of_getLast? hLast)
      | cons next parts =>
          have hRest : ∀ q ∈ next :: parts, q ≠ [] ∧ separator ∉ q :=
            fun q hq => h q (List.mem_cons_of_mem _ hq)
          have hNext : List.intercalate [separator] (next :: parts) ≠ [] :=
            intercalate_ne_nil separator (by simp) fun q hq => (hRest q hq).1
          rw [List.intercalate_cons_cons, List.getLast?_append,
            List.getLast?_eq_some_getLast hNext, Option.some_or]
          rw [← List.getLast?_eq_some_getLast hNext]
          exact ih (by simp) hRest

section Pieces

variable {α : Type} [DecidableEq α] {separator : α}

theorem pieces_of_not_mem {l : List α} (h : separator ∉ l) : pieces separator l = [l] := by
  induction l with
  | nil => rfl
  | cons a l ih =>
      rw [List.mem_cons, not_or] at h
      simp only [pieces, if_neg (Ne.symm h.1), ih h.2]

theorem pieces_ne_nil (separator : α) (l : List α) : pieces separator l ≠ [] := by
  cases l with
  | nil => simp [pieces]
  | cons a l =>
      simp only [pieces]
      split
      · simp
      · split <;> simp

theorem pieces_append_cons (l rest : List α) :
    pieces separator (l ++ separator :: rest) = pieces separator l ++ pieces separator rest := by
  induction l with
  | nil => simp [pieces]
  | cons a l ih =>
      obtain ⟨p, ps, hPieces⟩ := List.exists_cons_of_ne_nil (pieces_ne_nil separator l)
      simp only [List.cons_append, pieces, ih, hPieces]
      split <;> rfl

theorem not_mem_of_mem_pieces {l piece : List α} (h : piece ∈ pieces separator l) :
    separator ∉ piece := by
  induction l generalizing piece with
  | nil =>
      rw [pieces, List.mem_singleton] at h
      simp [h]
  | cons a l ih =>
      simp only [pieces] at h
      split at h
      · rcases List.mem_cons.mp h with rfl | h
        · exact List.not_mem_nil
        · exact ih h
      · rename_i ha
        split at h
        · rw [List.mem_singleton] at h
          simpa [h] using Ne.symm ha
        · rename_i p ps hPieces
          rcases List.mem_cons.mp h with rfl | h
          · rw [List.mem_cons, not_or]
            exact ⟨Ne.symm ha, ih (hPieces ▸ List.mem_cons_self)⟩
          · exact ih (hPieces ▸ List.mem_cons_of_mem _ h)

theorem sublist_of_mem_pieces {l piece : List α} (h : piece ∈ pieces separator l) :
    piece.Sublist l := by
  induction l generalizing piece with
  | nil =>
      rw [pieces, List.mem_singleton] at h
      exact h ▸ List.Sublist.refl []
  | cons a l ih =>
      simp only [pieces] at h
      split at h
      · rcases List.mem_cons.mp h with rfl | h
        · exact List.nil_sublist _
        · exact (ih h).cons a
      · split at h
        · rw [List.mem_singleton.mp h]
          exact (List.nil_sublist l).cons_cons a
        · rename_i p ps hPieces
          rcases List.mem_cons.mp h with rfl | h
          · exact (ih (hPieces ▸ List.mem_cons_self)).cons_cons a
          · exact (ih (hPieces ▸ List.mem_cons_of_mem _ h)).cons a

theorem pieces_intercalate {parts : List (List α)} (hNil : parts ≠ []) :
    pieces separator (List.intercalate [separator] parts) = parts.flatMap (pieces separator) := by
  induction parts with
  | nil => exact absurd rfl hNil
  | cons part parts ih =>
      cases parts with
      | nil => simp [List.intercalate_singleton]
      | cons next parts =>
          rw [List.intercalate_cons_cons, List.append_assoc, List.singleton_append,
            pieces_append_cons, ih (by simp), List.flatMap_cons (x := part)]

theorem flatMap_pieces {parts : List (List α)} (h : ∀ part ∈ parts, separator ∉ part) :
    parts.flatMap (pieces separator) = parts := by
  induction parts with
  | nil => rfl
  | cons part parts ih =>
      rw [List.flatMap_cons, pieces_of_not_mem (h part List.mem_cons_self),
        ih fun q hq => h q (List.mem_cons_of_mem _ hq), List.singleton_append]

end Pieces

/-- A path whose parts are names, as every path is that was read from a text. -/
def Plain (p : Path) : Prop := ∀ part ∈ p.parts, part ≠ [] ∧ .char '/' ∉ part

/-- A path whose parts can all be names of files. -/
def Nameable (p : Path) : Prop := ∀ part ∈ p.parts, part.bytes?.isSome

/-- The names of the parts. -/
def names (p : Path) : List FileName := p.parts.map fun part => part.bytes?.getD []

/-- The names on the way that a path describes. The path without parts still asks
for the folder where it starts. -/
def steps (p : Path) : List FileName := if p.parts = [] then [FileTree.here] else p.names

/-- Where the way starts. -/
def start (p : Path) (current : Place) : Place := if p.isAbsolute then [] else current

/-- The bytes of a root. -/
def rootBytes : PathRoot → List UInt8
  | .none => []
  | .slash => [FileTree.slash]
  | .twoSlashes => [FileTree.slash, FileTree.slash]

/-- The bytes of a path. -/
def bytes (p : Path) : List UInt8 :=
  if p.root = .none ∧ p.parts = [] then FileTree.here
  else rootBytes p.root ++ List.intercalate [FileTree.slash] p.names

/-- Why the text of a path cannot be followed in any tree. -/
def refusal? (p : Path) : Option FileFaultKind :=
  match p.print.bytes? with
  | some bytes => FileTree.refusal? bytes
  | none => some .unnameable

theorem read_plain (text : Loose) : (read text).Plain := by
  intro part hPart
  obtain ⟨hPieces, hIsPart⟩ := List.mem_filter.mp hPart
  refine ⟨?_, not_mem_of_mem_pieces hPieces⟩
  rintro rfl
  simp [isPart] at hIsPart

theorem Plain.append {p q : Path} (hp : p.Plain) (hq : q.Plain) : (p / q).Plain := by
  intro part hPart
  change part ∈ (Path.append p q).parts at hPart
  rw [Path.append] at hPart
  split at hPart
  · exact hq part hPart
  · exact (List.mem_append.mp hPart).elim (hp part) (hq part)

theorem Plain.parent {p : Path} (hp : p.Plain) : p.parent.Plain :=
  fun part hPart => hp part (List.dropLast_subset _ hPart)

theorem bytes?_intercalate_eq_some {parts : List Loose} {bs : List UInt8} :
    Loose.bytes? (List.intercalate (loose "/") parts) = some bs ↔
      (∀ part ∈ parts, part.bytes?.isSome) ∧
        bs = List.intercalate [FileTree.slash] (parts.map fun part => part.bytes?.getD []) := by
  have hSlash : Loose.bytes? (loose "/") = some [FileTree.slash] := by decide
  induction parts generalizing bs with
  | nil => simp [List.intercalate_nil]
  | cons part parts ih =>
      cases parts with
      | nil =>
          simp only [List.intercalate_singleton, List.mem_singleton, forall_eq, List.map_cons,
            List.map_nil]
          cases part.bytes? with
          | none => simp
          | some a => simp [eq_comm (a := bs)]
      | cons next parts =>
          rw [List.intercalate_cons_cons, List.append_assoc, Loose.bytes?_append_eq_some]
          simp only [Loose.bytes?_append_eq_some, ih, hSlash, List.map_cons,
            List.intercalate_cons_cons, Option.some.injEq]
          constructor
          · rintro ⟨a, _, ha, ⟨_, _, rfl, ⟨hParts, rfl⟩, rfl⟩, rfl⟩
            refine ⟨?_, by simp [ha]⟩
            intro q hq
            rcases List.mem_cons.mp hq with rfl | hq
            · simp [ha]
            · exact hParts q hq
          · rintro ⟨hParts, rfl⟩
            obtain ⟨a, ha⟩ := Option.isSome_iff_exists.mp (hParts part List.mem_cons_self)
            exact ⟨a, _, ha, ⟨_, _, rfl, ⟨fun q hq => hParts q (List.mem_cons_of_mem _ hq), rfl⟩,
              rfl⟩, by simp [ha]⟩

theorem bytes?_rootText (root : PathRoot) :
    Loose.bytes? (rootText root) = some (rootBytes root) := by
  cases root <;> decide

theorem bytes?_print_eq_some {p : Path} {bs : List UInt8} :
    p.print.bytes? = some bs ↔ p.Nameable ∧ bs = p.bytes := by
  rw [print, bytes]
  split
  · rename_i hHere
    have hDot : Loose.bytes? (loose ".") = some FileTree.here := by decide
    rw [hDot, Option.some.injEq, Nameable, hHere.2]
    simp [eq_comm (a := bs)]
  · rw [Loose.bytes?_append_eq_some]
    simp only [bytes?_rootText, bytes?_intercalate_eq_some, Option.some.injEq]
    constructor
    · rintro ⟨_, _, rfl, ⟨hParts, rfl⟩, rfl⟩
      exact ⟨hParts, rfl⟩
    · rintro ⟨hParts, rfl⟩
      exact ⟨_, _, rfl, ⟨hParts, rfl⟩, rfl⟩

theorem Nameable.bytes?_print {p : Path} (h : p.Nameable) : p.print.bytes? = some p.bytes :=
  bytes?_print_eq_some.mpr ⟨h, rfl⟩

/-- Only a path whose parts are names of files is followed. -/
theorem nameable_of_no_refusal {p : Path} (h : p.refusal? = none) : p.Nameable := by
  rw [refusal?] at h
  cases hBytes : p.print.bytes? with
  | none =>
      rw [hBytes] at h
      cases h
  | some bytes => exact (bytes?_print_eq_some.mp hBytes).1

theorem Nameable.bytes?_part {p : Path} (h : p.Nameable) {part : Loose} (hPart : part ∈ p.parts) :
    part.bytes? = some (part.bytes?.getD []) := by
  obtain ⟨bs, hbs⟩ := Option.isSome_iff_exists.mp (h part hPart)
  simp [hbs]

/-- The names of a path are no empty names, and there are no slashes in them. -/
theorem Plain.name_ne_nil {p : Path} (hp : p.Plain) (hn : p.Nameable) :
    ∀ name ∈ p.names, name ≠ [] ∧ FileTree.slash ∉ name := by
  intro name hName
  obtain ⟨part, hPart, rfl⟩ := List.mem_map.mp hName
  have hBytes := hn.bytes?_part hPart
  obtain ⟨hNil, hSlash⟩ := hp part hPart
  constructor
  · intro hEmpty
    rw [hEmpty] at hBytes
    exact hNil (Loose.bytes?_eq_nil hBytes)
  · exact fun hMem => hSlash ((Loose.byteOf_mem_iff hBytes (c := '/') (by decide)).mp hMem)

theorem names_eq_nil {p : Path} : p.names = [] ↔ p.parts = [] := List.map_eq_nil_iff

/-- The bytes of a path lead through its names. -/
theorem Plain.names_bytes {p : Path} (hp : p.Plain) (hn : p.Nameable) :
    FileTree.names p.bytes = p.steps := by
  have hNames := hp.name_ne_nil hn
  by_cases hNil : p.parts = []
  · rcases p with ⟨root, parts⟩
    obtain rfl : parts = [] := hNil
    cases root <;> decide
  · have hNil' : p.names ≠ [] := fun h => hNil (names_eq_nil.mp h)
    have hLast := getLast?_intercalate_ne hNil' hNames
    have hSome := intercalate_ne_nil FileTree.slash hNil' fun n h => (hNames n h).1
    have hPieces : pieces FileTree.slash (List.intercalate [FileTree.slash] p.names) = p.names := by
      rw [pieces_intercalate hNil', flatMap_pieces fun n h => (hNames n h).2]
    have hKeep : p.names.filter (· != []) = p.names := by
      rw [List.filter_eq_self]
      intro name hName
      simp [(hNames name hName).1]
    have hBytes : p.bytes = rootBytes p.root ++ List.intercalate [FileTree.slash] p.names := by
      rw [bytes, if_neg (fun h => hNil h.2)]
    have hLast' : p.bytes.getLast? ≠ some FileTree.slash := by
      rw [hBytes, List.getLast?_append, List.getLast?_eq_some_getLast hSome, Option.some_or,
        ← List.getLast?_eq_some_getLast hSome]
      exact hLast
    rw [steps, if_neg hNil, FileTree.names, if_neg hLast', hBytes]
    -- The slashes of the root only add empty pieces.
    cases p.root with
    | none => simpa [rootBytes, hPieces] using hKeep
    | slash => simpa [rootBytes, pieces, hPieces] using hKeep
    | twoSlashes => simpa [rootBytes, pieces, hPieces] using hKeep

theorem Plain.head?_bytes {p : Path} (hp : p.Plain) (hn : p.Nameable) :
    p.bytes.head? = some FileTree.slash ↔ p.isAbsolute = true := by
  rw [bytes]
  split
  · rename_i hHere
    simp only [isAbsolute, hHere.1]
    decide
  · rename_i hThere
    cases hRoot : p.root with
    | slash => simp [rootBytes, isAbsolute, hRoot]
    | twoSlashes => simp [rootBytes, isAbsolute, hRoot]
    | none =>
        have hNil : p.names ≠ [] := fun h => hThere ⟨hRoot, names_eq_nil.mp h⟩
        obtain ⟨name, names, hCons⟩ := List.exists_cons_of_ne_nil hNil
        obtain ⟨hName, hSlash⟩ := hp.name_ne_nil hn name (by simp [hCons])
        obtain ⟨b, bs, rfl⟩ := List.exists_cons_of_ne_nil hName
        have hHead : (List.intercalate [FileTree.slash] p.names).head? = some b := by
          rw [hCons]
          cases names <;> simp [List.intercalate_singleton, List.intercalate_cons_cons]
        simp only [rootBytes, List.nil_append, hHead, isAbsolute, hRoot, Option.some.injEq]
        constructor
        · rintro rfl
          exact absurd List.mem_cons_self hSlash
        · intro h
          cases h

end Path

namespace FileTree

variable {t : FileTree} {current place : Place} {p : Path}

theorem locate_of_refusal {kind : FileFaultKind} (h : p.refusal? = some kind) :
    t.locate current p.print = .error kind := by
  rw [Path.refusal?] at h
  rw [locate]
  cases hBytes : p.print.bytes? with
  | none =>
      rw [hBytes] at h
      cases h
      rfl
  | some bytes =>
      rw [hBytes] at h
      simp only [trace, h]

/-- A path leads through its names, unless it is refused. -/
theorem locate_of_no_refusal (hp : p.Plain) (h : p.refusal? = none) :
    t.locate current p.print = t.follow (p.start current) p.steps := by
  rw [Path.refusal?] at h
  cases hBytes : p.print.bytes? with
  | none =>
      rw [hBytes] at h
      cases h
  | some bytes =>
      rw [hBytes] at h
      obtain ⟨hn, rfl⟩ := Path.bytes?_print_eq_some.mp hBytes
      simp only [locate, hBytes, trace, h]
      simp only [hp.names_bytes hn, hp.head?_bytes hn, Path.start]

theorem follow_of_locate (hp : p.Plain) (h : t.locate current p.print = .ok place) :
    t.follow (p.start current) p.steps = .ok place := by
  cases hRefusal : p.refusal? with
  | none => rw [← locate_of_no_refusal hp hRefusal, h]
  | some kind =>
      rw [locate_of_refusal hRefusal] at h
      cases h

end FileTree

end BinderIdl
