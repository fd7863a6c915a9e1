import BinderIdl.Proofs.Token.Segmentation

/-! Where a text stops being read. Up to the place of a lexical fault the text is cut into
lexemes, and there no lexeme starts: the character starts nothing, or a comment or a type
block has no end. What was cut off before the place does not depend on what follows it, so a
text with an unexpected character has the same fault however it goes on. -/
namespace BinderIdl

/-- A fault says why no lexeme starts a text. -/
inductive LexicalFault.Blocks : LexicalFault → List Char → Prop
  /-- The character starts nothing, and a slash starts no comment. -/
  | unexpected {c : Char} {rest : List Char} (hBlank : Text.isBlank c = false) (hOpen : c ≠ '<')
      (hMark : ∀ m : Mark, m.char ≠ c) (hWord : Scan.startsIdentifier c = false)
      (hComment : c = '/' → ∀ d ∈ rest.head?, d ≠ '/' ∧ d ≠ '*') :
      Blocks (.unexpected c) (c :: rest)
  | openComment {body : List Char} (hEnd : ¬['*', '/'] <:+: body) (hStar : body.head? ≠ some '*') :
      Blocks .openComment ('/' :: '*' :: body)
  | openJavadoc {body : List Char} (hEnd : ¬['*', '/'] <:+: '*' :: body) :
      Blocks .openJavadoc ('/' :: '*' :: '*' :: body)
  | openTypeBlock {body : List Char} (hBlock : ∀ p, p <+: '<' :: body → ¬Balanced p) :
      Blocks .openTypeBlock ('<' :: body)

/-- The number of characters behind a character that decide whether it is unexpected. -/
def LexicalFault.lookahead (c : Char) : Nat := if c = '/' then 1 else 0

namespace LexicalFault.Blocks

variable {c d : Char} {rest rest' : List Char}

theorem head_unexpected (h : (LexicalFault.unexpected c).Blocks (d :: rest)) : d = c := by
  cases h
  rfl

/-- Whether a character is unexpected depends on it and on the next one at most. -/
theorem congr_unexpected (h : (LexicalFault.unexpected c).Blocks (c :: rest))
    (hRest : rest'.take (lookahead c) = rest.take (lookahead c)) :
    (LexicalFault.unexpected c).Blocks (c :: rest') := by
  cases h with
  | unexpected hBlank hOpen hMark hWord hComment =>
      refine .unexpected hBlank hOpen hMark hWord ?_
      rintro rfl
      have hNext : rest'.head? = rest.head? := by
        simpa [lookahead, List.head?_take] using congrArg List.head? hRest
      rw [hNext]
      exact hComment rfl

end LexicalFault.Blocks

namespace Scan

theorem not_infix_of_throughCommentEnd {cs : List Char} (h : throughCommentEnd cs = none) :
    ¬['*', '/'] <:+: cs := by
  rintro ⟨before, after, rfl⟩
  exact not_endsComment_of_throughCommentEnd h _ (List.prefix_append _ after)
    (List.suffix_append before _)

theorem comment_eq_error {cls : LexemeClass} {fault fault' : LexicalFault} {cs : List Char}
    (h : comment cls fault ('/' :: '*' :: cs) = .error fault') :
    fault' = fault ∧ ¬['*', '/'] <:+: cs := by
  rw [comment, List.drop_succ_cons, List.drop_succ_cons, List.drop_zero] at h
  split at h
  · cases h
  · rename_i hNone
    cases h
    exact ⟨rfl, not_infix_of_throughCommentEnd hNone⟩

theorem ofChar?_eq_none_iff {c : Char} : Mark.ofChar? c = none ↔ ∀ m : Mark, m.char ≠ c := by
  rw [Mark.ofChar?, List.find?_eq_none]
  constructor
  · intro h m
    simpa using h m (by cases m <;> decide)
  · intro h m _
    simpa using h m

/-- Where no lexeme can be read, the fault says why. -/
theorem blocks_of_lexeme {c : Char} {cs : List Char} {fault : LexicalFault}
    (h : lexeme c cs = .error fault) : fault.Blocks (c :: cs) := by
  rw [lexeme] at h
  split at h
  · cases h
  rename_i hBlank
  split at h
  · cases h
  rename_i hSlashes
  split at h
  · rename_i hStars
    rw [Bool.and_eq_true] at hStars
    obtain ⟨more, hMore⟩ := List.isPrefixOf_iff_prefix.mp hStars.1
    cases hMore
    obtain ⟨rfl, hEnd⟩ := comment_eq_error h
    exact .openJavadoc hEnd
  rename_i hStars
  split at h
  · rename_i hStar
    obtain ⟨more, hMore⟩ := List.isPrefixOf_iff_prefix.mp hStar
    cases hMore
    obtain ⟨rfl, hEnd⟩ := comment_eq_error h
    refine .openComment hEnd fun hHead => ?_
    -- A second star would make the comment a Javadoc, or end it.
    obtain ⟨more, rfl⟩ := List.head?_eq_some_iff.mp hHead
    refine hStars (Bool.and_eq_true_iff.mpr ⟨by simp [List.isPrefixOf], ?_⟩)
    rw [Bool.not_eq_true', Bool.eq_false_iff]
    intro hClosed
    obtain ⟨after, hAfter⟩ := List.isPrefixOf_iff_prefix.mp hClosed
    cases hAfter
    exact hEnd ⟨[], after, rfl⟩
  rename_i hStar
  split at h
  · rename_i hOpen
    subst hOpen
    split at h
    · cases h
    · rename_i hNone
      cases h
      refine .openTypeBlock fun p hp hBalanced => ?_
      cases p with
      | nil => exact hBalanced.1 rfl
      | cons d p =>
          obtain ⟨rfl, hTail⟩ := List.cons_prefix_cons.mp hp
          exact not_closes_of_throughBlockEnd hNone p hTail (closes_of_balanced hBalanced)
  rename_i hOpen
  split at h
  · cases h
  rename_i hMark
  split at h
  · cases h
  rename_i hWord
  cases h
  refine .unexpected (by simpa using hBlank) hOpen (ofChar?_eq_none_iff.mp hMark)
    (by simpa using hWord) ?_
  rintro rfl d hd
  obtain ⟨more, rfl⟩ := List.head?_eq_some_iff.mp (Option.mem_def.mp hd)
  constructor
  · rintro rfl
    exact hSlashes (by simp [List.isPrefixOf])
  · rintro rfl
    exact hStar (by simp [List.isPrefixOf])

/-- Whether a character is unexpected depends on it alone, and for a slash on the next one. -/
theorem lexeme_of_unexpected {c : Char} {cs : List Char}
    (h : (LexicalFault.unexpected c).Blocks (c :: cs)) : lexeme c cs = .error (.unexpected c) := by
  cases h with
  | unexpected hBlank hOpen hMark hWord hComment =>
      have hSlash : ∀ d ∈ ['/', '*'], ∀ more : List Char,
          ('/' :: d :: more).isPrefixOf (c :: cs) = false := by
        intro d hd more
        rw [Bool.eq_false_iff]
        intro hPrefix
        obtain ⟨after, hAfter⟩ := List.isPrefixOf_iff_prefix.mp hPrefix
        cases hAfter
        obtain ⟨hFirst, hSecond⟩ := hComment rfl d rfl
        rcases List.mem_pair.mp hd with rfl | rfl
        · exact hFirst rfl
        · exact hSecond rfl
      have hLine := hSlash '/' (by decide) []
      have hBlock := hSlash '*' (by decide)
      simp only [lexeme, hBlank, hLine, hBlock, hOpen, ofChar?_eq_none_iff.mpr hMark, hWord,
        Bool.false_and, Bool.false_eq_true, if_false]

end Scan

/-- The text of lexemes. -/
def spelled (ls : List Lexeme) : List Char := ls.flatMap Lexeme.text

theorem spelled_cons_append (l : Lexeme) (ls : List Lexeme) (rest : List Char) :
    spelled (l :: ls) ++ rest = l.text ++ (spelled ls ++ rest) := by
  rw [spelled, List.flatMap_cons, List.append_assoc, ← spelled]

/-- Lexemes that stand one behind the other, in front of what follows them. -/
def InRow : List Lexeme → List Char → Prop
  | [], _ => True
  | l :: ls, rest => l.Stands (spelled ls ++ rest) ∧ InRow ls rest

/-- A lexeme depends on the next character alone, and it can stand at the end of a text. -/
theorem Lexeme.Stands.congr {l : Lexeme} {rest rest' : List Char} (h : l.Stands rest)
    (hHead : ∀ c ∈ rest'.head?, c ∈ rest.head?) : l.Stands rest' := by
  cases h with
  | blank hNil hBlank hRest => exact .blank hNil hBlank fun c hc => hRest c (hHead c hc)
  | lineComment hBody hRest => exact .lineComment hBody fun c hc => hRest c (hHead c hc)
  | blockComment hBody hStar => exact .blockComment hBody hStar
  | javadoc hBody hMore => exact .javadoc hBody hMore
  | typeBlock hBlock => exact .typeBlock hBlock
  | mark m => exact .mark m
  | word hStart hWord hRest => exact .word hStart hWord fun c hc => hRest c (hHead c hc)

namespace InRow

variable {ls : List Lexeme} {rest rest' : List Char}

/-- What is cut off does not change with what follows it, up to the next character. -/
theorem congr (h : InRow ls rest) (hHead : ∀ c ∈ rest'.head?, c ∈ rest.head?) : InRow ls rest' := by
  induction ls with
  | nil => trivial
  | cons l ls ih =>
      refine ⟨h.1.congr fun c hc => ?_, ih h.2⟩
      cases hText : spelled ls with
      | nil =>
          rw [hText] at hc
          exact hHead c hc
      | cons d text =>
          rw [hText] at hc
          exact hc

theorem lexemes_eq (h : InRow ls rest) :
    Scan.lexemes (spelled ls ++ rest) = (ls ++ (Scan.lexemes rest).1, (Scan.lexemes rest).2) := by
  induction ls with
  | nil => rfl
  | cons l ls ih =>
      rw [spelled_cons_append, Scan.lexemes_of_stands h.1, ih h.2]
      rfl

end InRow

namespace Scan

/-- Up to a fault a text is cut into lexemes. -/
theorem inRow_of_lexemes {cs : List Char} {ls : List Lexeme} {fault : LexicalFault}
    (h : lexemes cs = (ls, some fault)) :
    ∃ c rest, cs = spelled ls ++ c :: rest ∧ InRow ls (c :: rest) ∧
      lexeme c rest = .error fault := by
  fun_induction lexemes cs generalizing ls with
  | case1 => cases h
  | case2 c cs fault' hLexeme =>
      cases h
      exact ⟨c, cs, rfl, trivial, hLexeme⟩
  | case3 c cs l rest hLexeme _ ls' fault' hRest ih =>
      cases h
      obtain ⟨hText, hStands⟩ := stands_of_lexeme hLexeme
      obtain ⟨d, rest', rfl, hRow, hFault⟩ := ih hRest
      exact ⟨d, rest', hText.trans (spelled_cons_append l ls' _).symm, ⟨hStands, hRow⟩, hFault⟩

theorem lexemes_of_fault {c : Char} {cs : List Char} {fault : LexicalFault}
    (h : lexeme c cs = .error fault) : lexemes (c :: cs) = ([], some fault) := by
  rw [lexemes.eq_def]
  dsimp only
  split
  · rename_i fault' hFault
    rw [h] at hFault
    cases hFault
    rfl
  · rename_i hRead
    rw [h] at hRead
    cases hRead

theorem place_snd (p : Position) (ls : List Lexeme) : (place p ls).2 = p.advance (spelled ls) := by
  induction ls generalizing p with
  | nil => rfl
  | cons l ls ih =>
      rw [spelled, List.flatMap_cons, ← Position.advance_append, ← spelled, ← ih (p.advance l.text)]
      cases hCls : l.cls <;> simp only [place, hCls]

end Scan

/-- A place tells how far a text has been read. -/
theorem eq_nil_of_after {before more : List Char}
    (hLine : lineAfter (before ++ more) = lineAfter before)
    (hColumn : columnAfter (before ++ more) = columnAfter before) : more = [] := by
  have hFeed : '\n' ∉ more := by
    rw [lineAfter, lineAfter, List.count_append] at hLine
    exact List.count_eq_zero.mp (by omega)
  have hMore : ∀ c ∈ more.reverse, (c != '\n') = true := by
    intro c hc
    rw [bne_iff_ne]
    rintro rfl
    exact hFeed (List.mem_reverse.mp hc)
  rw [columnAfter, columnAfter, List.reverse_append, List.takeWhile_append_of_pos hMore,
    List.length_append, List.length_reverse] at hColumn
  exact List.length_eq_zero_iff.mp (by omega)

/-- A diagnostic points behind a text. -/
structure Diagnostic.Behind (d : Diagnostic) (before : List Char) : Prop where
  line : d.line = some (lineAfter before : Int)
  column : d.column = some (columnAfter before : Int)

/-- A diagnostic points behind one part of a text only. -/
theorem Diagnostic.Behind.eq_of_take {d : Diagnostic} {cs : List Char} {p q : Nat}
    (hp : p ≤ cs.length) (hq : q ≤ cs.length) (h : d.Behind (cs.take p))
    (h' : d.Behind (cs.take q)) : p = q := by
  wlog hLe : p ≤ q
  · exact (this hq hp h' h (by omega)).symm
  have hSplit : cs.take q = cs.take p ++ (cs.take q).drop p := by
    rw [← List.take_append_drop p (cs.take q), List.take_take, Nat.min_eq_left hLe,
      List.drop_left' (by rw [List.length_take, Nat.min_eq_left hp])]
  have hLine : lineAfter (cs.take q) = lineAfter (cs.take p) := by
    exact_mod_cast Option.some.inj (h'.line.symm.trans h.line)
  have hColumn : columnAfter (cs.take q) = columnAfter (cs.take p) := by
    exact_mod_cast Option.some.inj (h'.column.symm.trans h.column)
  rw [hSplit] at hLine hColumn
  have hLength := congrArg List.length (eq_nil_of_after hLine hColumn)
  rw [List.length_drop, List.length_take, List.length_nil] at hLength
  omega

/-- A text that agrees with another one up to some characters behind a place goes on alike. -/
theorem exists_append_of_take {before rest cs : List Char} {c : Char} {k : Nat}
    (h : cs.take (before.length + (k + 1)) = (before ++ c :: rest).take (before.length + (k + 1))) :
    ∃ rest', cs = before ++ c :: rest' ∧ rest'.take k = rest.take k := by
  rw [List.take_length_add_append, List.take_succ_cons] at h
  have hSplit : cs = before ++ c :: (rest.take k ++ cs.drop (before.length + (k + 1))) := by
    conv_lhs => rw [← List.take_append_drop (before.length + (k + 1)) cs, h]
    rw [List.append_assoc, List.cons_append]
  refine ⟨_, hSplit, ?_⟩
  rw [hSplit, List.take_length_add_append, List.take_succ_cons] at h
  exact List.cons.inj (List.append_cancel_left h) |>.2

namespace Source

open LexicalFault (lookahead)

variable {filename : Option String} {text : String} {d : Diagnostic}

/-- A text that cannot be read is cut into lexemes up to the place of its diagnostic. -/
theorem inRow_of_read (h : read filename text = .error d) :
    ∃ ls c rest fault, text.toList = spelled ls ++ c :: rest ∧ InRow ls (c :: rest) ∧
      Scan.lexeme c rest = .error fault ∧ d.message = fault.message ∧ d.Behind (spelled ls) := by
  simp only [read] at h
  split at h
  · cases h
  · rename_i fault hFault
    obtain ⟨c, rest, hText, hRow, hLexeme⟩ := Scan.inRow_of_lexemes (Prod.ext rfl hFault)
    have hPlace := (Scan.place_snd .start (Scan.lexemes text.toList).1).trans
      (Position.advance_start _)
    cases h
    exact ⟨_, c, rest, fault, hText, hRow, hLexeme, rfl, by rw [hPlace], by rw [hPlace]⟩

/-- Lexemes in front of a fault are cut off, and the diagnostic points behind them. -/
theorem read_of_inRow {ls : List Lexeme} {c : Char} {rest : List Char} {fault : LexicalFault}
    (hText : text.toList = spelled ls ++ c :: rest) (hRow : InRow ls (c :: rest))
    (hLexeme : Scan.lexeme c rest = .error fault) (filename : Option String) :
    ∃ d, read filename text = .error d ∧ d.message = fault.message ∧ d.Behind (spelled ls) := by
  have hLexemes : Scan.lexemes text.toList = (ls, some fault) := by
    rw [hText, hRow.lexemes_eq, Scan.lexemes_of_fault hLexeme, List.append_nil]
  have hPlace := (Scan.place_snd .start ls).trans (Position.advance_start _)
  simp only [read, hLexemes, hPlace]
  exact ⟨_, rfl, rfl, rfl, rfl⟩

/-- Lexemes alone are read. -/
theorem exists_read_of_inRow {ls : List Lexeme} (hRow : InRow ls []) (filename : Option String) :
    ∃ s, read filename (String.ofList (spelled ls)) = .ok s := by
  have hLexemes : Scan.lexemes (spelled ls) = (ls, none) := by
    have hCut := hRow.lexemes_eq
    rwa [List.append_nil, Scan.lexemes.eq_def [], List.append_nil] at hCut
  simp only [read, String.toList_ofList, hLexemes]
  exact ⟨_, rfl⟩

/-- A text that cannot be read has one place that its diagnostic denotes. The text before it can
be read, no lexeme starts at it for the reason that the message gives, and an unexpected character
is found there in every text that goes on alike as far as the character is decided. -/
theorem blocks_of_read (h : read filename text = .error d) :
    ∃ (p : Nat) (fault : LexicalFault), p < text.toList.length ∧
      (∀ q, q ≤ text.toList.length ∧ d.Behind (text.toList.take q) ↔ q = p) ∧
      (∃ s, read filename (String.ofList (text.toList.take p)) = .ok s) ∧
      d.message = fault.message ∧ fault.Blocks (text.toList.drop p) ∧
      (∀ (l : Lexeme) (rest : List Char), l.Stands rest → text.toList.drop p ≠ l.text ++ rest) ∧
      ∀ c, fault = .unexpected c → ∀ (filename' : Option String) (text' : String),
        text'.toList.take (p + (lookahead c + 1)) = text.toList.take (p + (lookahead c + 1)) →
        ∃ d', read filename' text' = .error d' ∧ d'.message = d.message ∧ d'.line = d.line ∧
          d'.column = d.column := by
  obtain ⟨ls, c, rest, fault, hText, hRow, hLexeme, hMessage, hBehind⟩ := inRow_of_read h
  have hTake : text.toList.take (spelled ls).length = spelled ls := by
    rw [hText, List.take_left]
  have hDrop : text.toList.drop (spelled ls).length = c :: rest := by
    rw [hText, List.drop_left]
  have hInside : (spelled ls).length < text.toList.length := by
    rw [hText, List.length_append, List.length_cons]
    omega
  refine ⟨(spelled ls).length, fault, hInside, ?place, ?before, hMessage, ?blocks, ?lexeme, ?stable⟩
  case place =>
    intro q
    constructor
    · rintro ⟨hq, hBehind'⟩
      exact hBehind'.eq_of_take hq hInside.le (hTake.symm ▸ hBehind)
    · rintro rfl
      exact ⟨hInside.le, hTake.symm ▸ hBehind⟩
  case before =>
    rw [hTake]
    exact exists_read_of_inRow (hRow.congr (by simp)) filename
  case blocks =>
    rw [hDrop]
    exact Scan.blocks_of_lexeme hLexeme
  case lexeme =>
    intro l after hStands hSame
    rw [hDrop] at hSame
    rw [Scan.lexeme_of_stands hStands hSame] at hLexeme
    cases hLexeme
  case stable =>
    rintro c' rfl filename' text' hAlike
    have hBlocks := Scan.blocks_of_lexeme hLexeme
    cases hBlocks.head_unexpected
    rw [hText] at hAlike
    obtain ⟨rest', hText', hRest⟩ := exists_append_of_take hAlike
    have hBlocks' := hBlocks.congr_unexpected hRest
    have hRow' : InRow ls (c :: rest') := hRow.congr fun _ => id
    obtain ⟨d', hRead, hMessage', hBehind'⟩ :=
      read_of_inRow hText' hRow' (Scan.lexeme_of_unexpected hBlocks') filename'
    exact ⟨d', hRead, hMessage'.trans hMessage.symm, hBehind'.line.trans hBehind.line.symm,
      hBehind'.column.trans hBehind.column.symm⟩

/-- A slash that starts no comment, behind a line that is read. -/
private def slashed : String := "package a;\n/ interface"

/-- Whatever stands behind the slash and the blank, the slash is unexpected. -/
theorem blocks_of_read_slashed : ∃ d, read none slashed = .error d ∧
    d.line = some 2 ∧ d.column = some 1 ∧ (∃ s, read none "package a;\n" = .ok s) ∧
    ∀ more, ∃ d', read none (String.ofList ("package a;\n/ ".toList ++ more)) = .error d' ∧
      d'.message = d.message ∧ d'.line = some 2 ∧ d'.column = some 1 := by
  have hPlace : ((read none slashed).map fun _ => ()).mapError (fun d => (d.line, d.column)) =
      .error (some 2, some 1) := by
    decide +kernel
  cases hRead : read none slashed with
  | ok s =>
      rw [hRead] at hPlace
      cases hPlace
  | error d =>
      rw [hRead] at hPlace
      obtain ⟨hLine, hColumn⟩ := Prod.mk.inj (Except.error.inj hPlace)
      obtain ⟨p, fault, -, hp, hBefore, hMessage, hBlocks, -, hStable⟩ := blocks_of_read hRead
      obtain rfl : 11 = p := (hp 11).mp ⟨by decide, hLine, hColumn⟩
      have hFault : fault = .unexpected '/' := by
        cases hBlocks with
        | unexpected => rfl
      refine ⟨d, rfl, hLine, hColumn, hBefore, fun more => ?_⟩
      obtain ⟨d', hRead', hMessage', hLine', hColumn'⟩ := hStable _ hFault none
        (String.ofList ("package a;\n/ ".toList ++ more)) (by rw [String.toList_ofList]; rfl)
      exact ⟨d', hRead', hMessage', hLine'.trans hLine, hColumn'.trans hColumn⟩

end Source

end BinderIdl
