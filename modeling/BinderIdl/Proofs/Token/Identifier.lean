import BinderIdl.Proofs.Files.Paths
import BinderIdl.Proofs.Interface.Derivation

/-! The names in a text. Every token of the class of names is an identifier, so a
qualified name is its identifiers with single dots between them. -/
namespace BinderIdl

open Text (Loose loose)

/-- The blanks as ranges: the first number of each and how many follow from it on. -/
def Text.blankRanges : List (Nat × Nat) :=
  [(9, 5), (28, 5), (0x85, 1), (0xA0, 1), (0x1680, 1), (0x2000, 11), (0x2028, 2), (0x202F, 1),
    (0x205F, 1), (0x3000, 1)]

theorem Text.exists_blankRange {c : Char} (h : Text.isBlank c = true) :
    ∃ p ∈ blankRanges, c.toNat ∈ List.range' p.1 p.2 := by
  simp only [isBlank, Bool.or_eq_true, Bool.and_eq_true, decide_eq_true_eq, beq_iff_eq] at h
  simp only [blankRanges, List.mem_range'_1, List.mem_cons, List.not_mem_nil, or_false,
    exists_eq_or_imp, exists_eq_left]
  omega

/-- No blank is part of a word. -/
theorem Text.isWord_of_isBlank {c : Char} (h : Text.isBlank c = true) : Text.isWord c = false := by
  have hRanges : ∀ p ∈ blankRanges, ∀ n ∈ List.range' p.1 p.2, Text.isWord (Char.ofNat n) = false := by
    decide +kernel
  obtain ⟨p, hp, hMem⟩ := exists_blankRange h
  rw [← Char.ofNat_toNat c]
  exact hRanges p hp _ hMem

/-- A text that is an identifier. -/
def IsIdentifier (s : String) : Prop :=
  s.toList ≠ [] ∧ ∀ c ∈ s.toList, Scan.continuesIdentifier c = true

/-- A text of identifiers with dots between them. -/
def IsQualified (s : String) : Prop :=
  ∃ names, names ≠ [] ∧ (∀ name ∈ names, IsIdentifier name) ∧ s = Text.join "." names

theorem loose_join (names : List String) :
    loose (Text.join "." names) = List.intercalate [.char '.'] (names.map loose) := by
  induction names with
  | nil => rfl
  | cons name names ih =>
      cases names with
      | nil => rw [Text.join, List.map_singleton, List.intercalate_singleton]
      | cons next names =>
          simp only [Text.join, Text.loose_append, ih, List.map_cons, List.intercalate_cons_cons]
          rfl

theorem IsIdentifier.dot_not_mem {s : String} (h : IsIdentifier s) : .char '.' ∉ loose s := by
  intro hMem
  obtain ⟨c, hc, hDot⟩ := List.mem_map.mp hMem
  cases hDot
  exact absurd (h.2 _ hc) (by decide +kernel)

theorem IsIdentifier.loose_ne_nil {s : String} (h : IsIdentifier s) : loose s ≠ [] := by
  simpa [loose] using h.1

/-- Wherever a qualified name is cut at some of its dots, no piece is empty or starts
with a dot. -/
theorem IsQualified.of_intercalate {s : String} (h : IsQualified s) {parts : List Loose}
    (hParts : loose s = List.intercalate (loose ".") parts) :
    ∀ part ∈ parts, part ≠ [] ∧ part.head? ≠ some (.char '.') := by
  obtain ⟨names, hNil, hNames, rfl⟩ := h
  have hPieces : ∀ piece ∈ Path.pieces (.char '.') (loose (Text.join "." names)), piece ≠ [] := by
    intro piece hPiece
    rw [loose_join, Path.pieces_intercalate (by simpa using hNil), Path.flatMap_pieces] at hPiece
    · obtain ⟨name, hName, rfl⟩ := List.mem_map.mp hPiece
      exact (hNames name hName).loose_ne_nil
    · intro part hPart
      obtain ⟨name, hName, rfl⟩ := List.mem_map.mp hPart
      exact (hNames name hName).dot_not_mem
  intro part hPart
  have hFirst : ∀ piece ∈ Path.pieces (.char '.') part, piece ≠ [] := by
    intro piece hPiece
    apply hPieces
    have hSome : parts ≠ [] := List.ne_nil_of_mem hPart
    rw [hParts, show loose "." = [.char '.'] from rfl, Path.pieces_intercalate hSome]
    exact List.mem_flatMap.mpr ⟨part, hPart, hPiece⟩
  constructor
  · rintro rfl
    exact hFirst [] (by simp [Path.pieces]) rfl
  · intro hHead
    obtain ⟨rest, rfl⟩ : ∃ rest, part = .char '.' :: rest := by
      cases part with
      | nil => cases hHead
      | cons g rest =>
          cases hHead
          exact ⟨rest, rfl⟩
    exact hFirst [] (by simp [Path.pieces]) rfl

/-- A qualified name starts with a character of an identifier. -/
theorem IsQualified.exists_first {s : String} (h : IsQualified s) :
    ∃ c rest, s.toList = c :: rest ∧ Scan.continuesIdentifier c = true := by
  obtain ⟨names, hNil, hNames, rfl⟩ := h
  obtain ⟨first, rest, rfl⟩ := List.exists_cons_of_ne_nil hNil
  obtain ⟨hSome, hAll⟩ := hNames first List.mem_cons_self
  obtain ⟨c, cs, hFirst⟩ := List.exists_cons_of_ne_nil hSome
  have hc : Scan.continuesIdentifier c = true := hAll c (by rw [hFirst]; exact List.mem_cons_self)
  cases rest with
  | nil => exact ⟨c, cs, by rw [Text.join, hFirst], hc⟩
  | cons next rest =>
      refine ⟨c, cs ++ (".".toList ++ (Text.join "." (next :: rest)).toList), ?_, hc⟩
      simp [Text.join, hFirst]

namespace Scan

theorem continues_of_starts {c : Char} (h : startsIdentifier c = true) :
    continuesIdentifier c = true := by
  simp only [startsIdentifier, Bool.or_eq_true, beq_iff_eq] at h
  rcases h with (hLetter | rfl) | rfl
  · have hAscii : c.toNat < 0x80 := by
      simp only [Text.isAsciiLetter, Bool.or_eq_true, Bool.and_eq_true, decide_eq_true_eq,
        Char.le_def, UInt32.le_iff_toNat_le] at hLetter
      have hz : 'z'.val.toNat = 122 := rfl
      have hZ : 'Z'.val.toNat = 90 := rfl
      show c.val.toNat < 0x80
      omega
    simp [continuesIdentifier, Text.isWord, hAscii, hLetter]
  · decide
  · decide

theorem continues_of_name {c : Char} {cs rest : List Char} {l : Lexeme}
    (h : lexeme c cs = .ok (l, rest)) (hName : l.cls = .token .name) :
    l.text ≠ [] ∧ ∀ d ∈ l.text, continuesIdentifier d = true := by
  have ofComment : ∀ {cls fault}, cls ≠ .token .name →
      comment cls fault (c :: cs) ≠ .ok (l, rest) := by
    intro cls fault hCls hComment
    rw [comment] at hComment
    split at hComment
    · cases hComment
      exact hCls hName
    · cases hComment
  rw [lexeme] at h
  split at h
  · cases h
    cases hName
  split at h
  · cases h
    cases hName
  split at h
  · exact absurd h (ofComment (by decide))
  split at h
  · exact absurd h (ofComment (by decide))
  split at h
  · split at h
    · cases h
      cases hName
    · cases h
  split at h
  · cases h
    cases hName
  split at h
  · rename_i hStart
    cases h
    refine ⟨by simp, ?_⟩
    intro d hd
    rcases List.mem_cons.mp hd with rfl | hd
    · exact continues_of_starts hStart
    · exact List.all_eq_true.mp List.all_takeWhile d hd
  · cases h

/-- Every lexeme of a text was read where it starts. -/
theorem exists_of_mem_lexemes (cs : List Char) :
    ∀ l ∈ (lexemes cs).1, ∃ c cs' rest, lexeme c cs' = .ok (l, rest) := by
  fun_induction lexemes cs with
  | case1 => simp
  | case2 => simp
  | case3 c cs l rest hLexeme _ ls fault hRest ih =>
      intro l' hMem
      rcases List.mem_cons.mp hMem with rfl | hMem
      · exact ⟨c, cs, rest, hLexeme⟩
      · exact ih l' (by simpa [hRest] using hMem)

theorem lexeme_of_place {p : Position} {ls : List Lexeme} {t : Token}
    (h : t ∈ (place p ls).1) : ∃ l ∈ ls, l.cls = .token t.cls ∧ t.value = String.ofList l.text := by
  induction ls generalizing p with
  | nil => simp [place] at h
  | cons l ls ih =>
      have hRest : t ∈ (place (p.advance l.text) ls).1 →
          ∃ l' ∈ l :: ls, l'.cls = .token t.cls ∧ t.value = String.ofList l'.text := by
        intro hMem
        obtain ⟨l', hMem', hToken⟩ := ih hMem
        exact ⟨l', List.mem_cons_of_mem _ hMem', hToken⟩
      simp only [place] at h
      split at h
      · rename_i cls hCls
        rcases List.mem_cons.mp h with rfl | h
        · exact ⟨l, List.mem_cons_self, hCls, rfl⟩
        · exact hRest h
      · exact hRest h

end Scan

/-- Every token of a source is a lexeme of its text. -/
theorem Source.exists_lexeme_of_read {filename : Option String} {text : String} {s : Source}
    (h : Source.read filename text = .ok s) {t : Token} (hMem : t ∈ s.tokens) :
    ∃ c cs l rest, Scan.lexeme c cs = .ok (l, rest) ∧ l.cls = .token t.cls ∧
      t.value = String.ofList l.text := by
  have hTokens : s.tokens = (Scan.place .start (Scan.lexemes text.toList).1).1 := by
    simp only [Source.read] at h
    split at h
    · cases h
      rfl
    · cases h
  rw [hTokens] at hMem
  obtain ⟨l, hLexeme, hCls, hValue⟩ := Scan.lexeme_of_place hMem
  obtain ⟨c, cs, rest, hRead⟩ := Scan.exists_of_mem_lexemes _ l hLexeme
  exact ⟨c, cs, l, rest, hRead, hCls, hValue⟩

theorem Source.identifier_of_read {filename : Option String} {text : String} {s : Source}
    (h : Source.read filename text = .ok s) {t : Token} (hMem : t ∈ s.tokens)
    (hName : t.cls = .name) : IsIdentifier t.value := by
  obtain ⟨c, cs, l, rest, hRead, hCls, hValue⟩ := Source.exists_lexeme_of_read h hMem
  rw [hValue]
  simpa [IsIdentifier] using Scan.continues_of_name hRead (by rw [hCls, hName])

/-- The tokens of a qualified name spell its identifiers. -/
theorem NameTree.isQualified (t : NameTree)
    (h : ∀ token ∈ t.tokens, token.cls = .name → IsIdentifier token.value) :
    IsQualified t.text := by
  refine ⟨_, by simp, ?_, rfl⟩
  intro name hName
  rcases List.mem_cons.mp hName with rfl | hName
  · exact h t.first.token (by simp [tokens, Leaf.tokens]) t.first.cls_eq
  · obtain ⟨⟨dot, leaf⟩, hLeaf, rfl⟩ := List.mem_map.mp hName
    apply h leaf.token _ leaf.cls_eq
    rw [tokens]
    apply List.mem_append_right
    exact List.mem_flatMap.mpr ⟨_, hLeaf, by simp [pairTokens, Leaf.tokens]⟩

theorem Interface.ofTokens_of_ofSource {s : Source} {i : Interface}
    (h : Interface.ofSource s = .ok (some i)) : Interface.ofTokens s.tokens = .ok (some i) := by
  rw [Interface.ofSource] at h
  split at h
  · rename_i hTokens
    cases h
    exact hTokens
  · cases h

theorem Interface.exists_tree_of_ofSource {s : Source} {i : Interface}
    (h : Interface.ofSource s = .ok (some i)) :
    ∃ t : DefinitionTree, t.tokens = s.tokens ∧ i = t.interface := by
  have hTokens := Interface.ofTokens_of_ofSource h
  rw [Interface.ofTokens_eq_ok_some_iff] at hTokens
  obtain ⟨t, ht⟩ : ∃ t : DefinitionTree, t.tokens = s.tokens :=
    Interface.Parse.exists_tree_of_file hTokens
  refine ⟨t, ht, ?_⟩
  rw [← ht] at hTokens
  exact ((Interface.Parse.file_eq_ok_iff t i).mp hTokens).2

/-- A package is a qualified name. -/
theorem Interface.isQualified_package {filename : Option String} {text : String} {s : Source}
    {i : Interface} (hRead : Source.read filename text = .ok s)
    (h : Interface.ofSource s = .ok (some i)) : IsQualified i.package := by
  obtain ⟨t, ht, rfl⟩ := Interface.exists_tree_of_ofSource h
  apply t.package.isQualified
  intro token hToken
  apply Source.identifier_of_read hRead
  rw [← ht, DefinitionTree.tokens]
  simp only [List.mem_append]
  simp [hToken]

/-- The name of an interface is an identifier. -/
theorem Interface.isIdentifier_name {filename : Option String} {text : String} {s : Source}
    {i : Interface} (hRead : Source.read filename text = .ok s)
    (h : Interface.ofSource s = .ok (some i)) : IsIdentifier i.name := by
  obtain ⟨t, ht, rfl⟩ := Interface.exists_tree_of_ofSource h
  apply Source.identifier_of_read hRead (t := t.name.token) _ t.name.cls_eq
  rw [← ht, DefinitionTree.tokens]
  simp [Leaf.tokens]

end BinderIdl
