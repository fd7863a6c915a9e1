import BinderIdl.Proofs.Token.Identifier

/-! The lexemes of a text, described without the scanner. A text is read into tokens exactly
if it can be cut into lexemes, each as long as its class lets it be, and the tokens are the
lexemes that are neither blank nor comments, with the places of their first characters. -/
namespace BinderIdl

/-- A text has a property that none of its starts has. -/
def Shortest (P : List Char → Prop) (cs : List Char) : Prop :=
  P cs ∧ ∀ p, p <+: cs → P p → p = cs

theorem Shortest.unique {P : List Char → Prop} {cs cs' rest rest' : List Char} (h : Shortest P cs)
    (h' : Shortest P cs') (hText : cs ++ rest = cs' ++ rest') : cs = cs' ∧ rest = rest' := by
  have hStart : cs <+: cs' ++ rest' := ⟨rest, hText⟩
  have hSame : cs = cs' := by
    rcases List.prefix_or_prefix_of_prefix hStart (List.prefix_append cs' rest') with hShort | hShort
    · exact h'.2 cs hShort h.1
    · exact (h.2 cs' hShort h'.1).symm
  subst hSame
  exact ⟨rfl, List.append_cancel_left hText⟩

/-- A text that ends like a block comment. -/
def EndsComment (cs : List Char) : Prop := ['*', '/'] <:+ cs

/-- A text with as many opening as closing angle brackets. -/
def Balanced (cs : List Char) : Prop := cs ≠ [] ∧ cs.count '<' = cs.count '>'

/-- A lexeme in front of what follows it in a text. -/
inductive Lexeme.Stands : Lexeme → List Char → Prop
  | blank {cs rest : List Char} (hNil : cs ≠ []) (hBlank : ∀ c ∈ cs, Text.isBlank c = true)
      (hRest : ∀ c ∈ rest.head?, Text.isBlank c = false) : Stands ⟨.blank, cs⟩ rest
  | lineComment {body rest : List Char} (hBody : '\n' ∉ body) (hRest : ∀ c ∈ rest.head?, c = '\n') :
      Stands ⟨.lineComment, '/' :: '/' :: body⟩ rest
  /-- A second star is there only if it ends the comment. -/
  | blockComment {body rest : List Char} (hBody : Shortest EndsComment body)
      (hStar : body.head? = some '*' → body = ['*', '/']) :
      Stands ⟨.blockComment, '/' :: '*' :: body⟩ rest
  | javadoc {body rest : List Char} (hBody : Shortest EndsComment ('*' :: body))
      (hMore : body ≠ ['/']) : Stands ⟨.token .javadoc, '/' :: '*' :: '*' :: body⟩ rest
  | typeBlock {body rest : List Char} (hBlock : Shortest Balanced ('<' :: body)) :
      Stands ⟨.token .typeBlock, '<' :: body⟩ rest
  | mark (m : Mark) {rest : List Char} : Stands ⟨.token (.mark m), [m.char]⟩ rest
  | word {c : Char} {cs rest : List Char} (hStart : Scan.startsIdentifier c = true)
      (hWord : ∀ d ∈ cs, Scan.continuesIdentifier d = true)
      (hRest : ∀ d ∈ rest.head?, Scan.continuesIdentifier d = false) :
      Stands ⟨.token (.ofWord (String.ofList (c :: cs))), c :: cs⟩ rest

/-- A text that is cut into lexemes from its start to its end. -/
inductive Segmented : List Char → List Lexeme → Prop
  | nil : Segmented [] []
  | cons {l : Lexeme} {ls : List Lexeme} {rest : List Char} (hLexeme : l.Stands rest)
      (hRest : Segmented rest ls) : Segmented (l.text ++ rest) (l :: ls)

/-- Where no comment ends, an end is further on. -/
theorem EndsComment.of_cons {c : Char} {p cs : List Char} (h : EndsComment (c :: p)) (hp : p <+: cs)
    (hStart : ∀ rest, c = '*' → cs = '/' :: rest → False) : EndsComment p := by
  rcases List.suffix_cons_iff.mp h with hWhole | hTail
  · cases hWhole
    obtain ⟨more, rfl⟩ := hp
    exact absurd rfl (hStart more rfl)
  · exact hTail

theorem not_endsComment_nil : ¬EndsComment [] := fun h => absurd h.length_le (by decide)

namespace Scan

/-- A block comment is cut off behind its first end. -/
theorem shortest_of_throughCommentEnd {cs text rest : List Char}
    (h : throughCommentEnd cs = some (text, rest)) :
    cs = text ++ rest ∧ Shortest EndsComment text := by
  induction cs using throughCommentEnd.induct generalizing text with
  | case1 => cases h
  | case2 cs =>
      cases h
      exact ⟨rfl, List.suffix_refl _, fun p hp hEnds => hp.eq_of_length_le hEnds.length_le⟩
  | case3 c cs hStart ih =>
      rw [throughCommentEnd.eq_3 _ _ hStart] at h
      obtain ⟨⟨text', rest'⟩, hText, hSame⟩ := Option.map_eq_some_iff.mp h
      cases hSame
      obtain ⟨rfl, hEnd, hShort⟩ := ih hText
      refine ⟨rfl, hEnd.trans (List.suffix_cons c text'), fun p hp hEnds => ?_⟩
      cases p with
      | nil => exact absurd hEnds not_endsComment_nil
      | cons d p =>
          obtain ⟨rfl, hTail⟩ := List.cons_prefix_cons.mp hp
          rw [hShort p hTail (hEnds.of_cons (hTail.trans (List.prefix_append _ _)) hStart)]

theorem not_endsComment_of_throughCommentEnd {cs : List Char} (h : throughCommentEnd cs = none)
    (p : List Char) (hp : p <+: cs) : ¬EndsComment p := by
  induction cs using throughCommentEnd.induct generalizing p with
  | case1 =>
      rw [List.prefix_nil.mp hp]
      exact not_endsComment_nil
  | case2 => cases h
  | case3 c cs hStart ih =>
      rw [throughCommentEnd.eq_3 _ _ hStart] at h
      intro hEnds
      cases p with
      | nil => exact not_endsComment_nil hEnds
      | cons d p =>
          obtain ⟨rfl, hTail⟩ := List.cons_prefix_cons.mp hp
          exact ih (Option.map_eq_none_iff.mp h) p hTail (hEnds.of_cons hTail hStart)

theorem throughCommentEnd_append {text : List Char} (h : Shortest EndsComment text)
    (rest : List Char) : throughCommentEnd (text ++ rest) = some (text, rest) := by
  cases hScan : throughCommentEnd (text ++ rest) with
  | none =>
      exact absurd h.1 (not_endsComment_of_throughCommentEnd hScan text (List.prefix_append _ _))
  | some cut =>
      obtain ⟨hText, hShort⟩ := shortest_of_throughCommentEnd hScan
      obtain ⟨hSame, hRest⟩ := h.unique hShort hText
      rw [hSame, hRest]

/-- A text closes more brackets than it opens and than are open in front of it. -/
def Closes (inner : Nat) (cs : List Char) : Prop := cs.count '<' + inner < cs.count '>'

theorem not_closes_nil (inner : Nat) : ¬Closes inner [] := by simp [Closes]

theorem closes_open {inner : Nat} (cs : List Char) :
    Closes inner ('<' :: cs) ↔ Closes (inner + 1) cs := by
  simp only [Closes, List.count_cons_self, List.count_cons_of_ne (by decide : '<' ≠ '>')]
  omega

theorem closes_close {inner : Nat} (cs : List Char) :
    Closes (inner + 1) ('>' :: cs) ↔ Closes inner cs := by
  simp only [Closes, List.count_cons_self, List.count_cons_of_ne (by decide : '>' ≠ '<')]
  omega

theorem closes_other {inner : Nat} {c : Char} (hOpen : c ≠ '<') (hClose : c ≠ '>') (cs : List Char) :
    Closes inner (c :: cs) ↔ Closes inner cs := by
  simp only [Closes, List.count_cons_of_ne hOpen, List.count_cons_of_ne hClose]

/-- A start that closes its brackets does so behind the first character, at another depth. -/
theorem Closes.exists_tail {inner inner' : Nat} {c : Char} {p cs : List Char} (h : Closes inner p)
    (hp : p <+: c :: cs) (hStep : ∀ q, Closes inner (c :: q) ↔ Closes inner' q) :
    ∃ q, p = c :: q ∧ q <+: cs ∧ Closes inner' q := by
  cases p with
  | nil => exact absurd h (not_closes_nil inner)
  | cons d q =>
      obtain ⟨rfl, hTail⟩ := List.cons_prefix_cons.mp hp
      exact ⟨q, rfl, hTail, (hStep q).mp h⟩

theorem shortest_cons {inner inner' : Nat} {c : Char} {cs : List Char}
    (h : Shortest (Closes inner') cs) (hStep : ∀ q, Closes inner (c :: q) ↔ Closes inner' q) :
    Shortest (Closes inner) (c :: cs) := by
  refine ⟨(hStep cs).mpr h.1, fun p hp hCloses => ?_⟩
  obtain ⟨q, rfl, hq, hTail⟩ := hCloses.exists_tail hp hStep
  rw [h.2 q hq hTail]

/-- A block is cut off where it closes one bracket more than are open in it. -/
theorem shortest_of_throughBlockEnd {inner : Nat} {cs text rest : List Char}
    (h : throughBlockEnd inner cs = some (text, rest)) :
    cs = text ++ rest ∧ text.count '>' = text.count '<' + inner + 1 ∧
      Shortest (Closes inner) text := by
  fun_induction throughBlockEnd inner cs generalizing text with
  | case1 => cases h
  | case2 inner cs ih =>
      obtain ⟨⟨text', rest'⟩, hText, hSame⟩ := Option.map_eq_some_iff.mp h
      cases hSame
      obtain ⟨rfl, hCount, hShort⟩ := ih hText
      refine ⟨rfl, ?_, shortest_cons hShort closes_open⟩
      rw [List.count_cons_self, List.count_cons_of_ne (by decide), hCount]
      omega
  | case3 cs hNot =>
      cases h
      refine ⟨rfl, rfl, by simp [Closes], fun p hp hCloses => ?_⟩
      cases p with
      | nil => exact absurd hCloses (not_closes_nil 0)
      | cons d p =>
          obtain ⟨rfl, hTail⟩ := List.cons_prefix_cons.mp hp
          rw [List.prefix_nil.mp hTail]
  | case4 cs inner hNot ih =>
      obtain ⟨⟨text', rest'⟩, hText, hSame⟩ := Option.map_eq_some_iff.mp h
      cases hSame
      obtain ⟨rfl, hCount, hShort⟩ := ih hText
      refine ⟨rfl, ?_, shortest_cons hShort closes_close⟩
      rw [List.count_cons_self, List.count_cons_of_ne (by decide), hCount]
      omega
  | case5 inner c cs hOpen hClose ih =>
      obtain ⟨⟨text', rest'⟩, hText, hSame⟩ := Option.map_eq_some_iff.mp h
      cases hSame
      obtain ⟨rfl, hCount, hShort⟩ := ih hText
      refine ⟨rfl, ?_, shortest_cons hShort (closes_other hOpen hClose)⟩
      rw [List.count_cons_of_ne hOpen, List.count_cons_of_ne hClose, hCount]

theorem not_closes_of_throughBlockEnd {inner : Nat} {cs : List Char}
    (h : throughBlockEnd inner cs = none) (p : List Char) (hp : p <+: cs) : ¬Closes inner p := by
  intro hCloses
  fun_induction throughBlockEnd inner cs generalizing p with
  | case1 =>
      rw [List.prefix_nil.mp hp] at hCloses
      exact not_closes_nil _ hCloses
  | case2 inner cs ih =>
      obtain ⟨q, -, hq, hTail⟩ := hCloses.exists_tail hp closes_open
      exact ih (Option.map_eq_none_iff.mp h) q hq hTail
  | case3 => cases h
  | case4 cs inner hNot ih =>
      obtain ⟨q, -, hq, hTail⟩ := hCloses.exists_tail hp closes_close
      exact ih (Option.map_eq_none_iff.mp h) q hq hTail
  | case5 inner c cs hOpen hClose ih =>
      obtain ⟨q, -, hq, hTail⟩ := hCloses.exists_tail hp (closes_other hOpen hClose)
      exact ih (Option.map_eq_none_iff.mp h) q hq hTail

theorem balanced_open (cs : List Char) : Balanced ('<' :: cs) ↔ cs.count '>' = cs.count '<' + 1 := by
  simp only [Balanced, List.count_cons_self, List.count_cons_of_ne (by decide : '<' ≠ '>')]
  exact ⟨fun h => h.2.symm, fun h => ⟨List.cons_ne_nil _ _, h.symm⟩⟩

theorem closes_of_balanced {cs : List Char} (h : Balanced ('<' :: cs)) : Closes 0 cs := by
  rw [balanced_open] at h
  rw [Closes, h]
  omega

/-- A type block is cut off where its first bracket is closed. -/
theorem balanced_of_throughBlockEnd {cs text rest : List Char}
    (h : throughBlockEnd 0 cs = some (text, rest)) :
    cs = text ++ rest ∧ Shortest Balanced ('<' :: text) := by
  obtain ⟨hText, hCount, hShort⟩ := shortest_of_throughBlockEnd h
  refine ⟨hText, (balanced_open text).mpr hCount, fun p hp hBalanced => ?_⟩
  cases p with
  | nil => exact absurd rfl hBalanced.1
  | cons d p =>
      obtain ⟨rfl, hTail⟩ := List.cons_prefix_cons.mp hp
      rw [hShort.2 p hTail (closes_of_balanced hBalanced)]

theorem throughBlockEnd_append {text : List Char} (h : Shortest Balanced ('<' :: text))
    (rest : List Char) : throughBlockEnd 0 (text ++ rest) = some (text, rest) := by
  cases hScan : throughBlockEnd 0 (text ++ rest) with
  | none =>
      have hOpen := not_closes_of_throughBlockEnd hScan text (List.prefix_append _ _)
      exact absurd (closes_of_balanced h.1) hOpen
  | some cut =>
      obtain ⟨hText, hShort⟩ := balanced_of_throughBlockEnd hScan
      obtain ⟨hSame, hRest⟩ := h.unique hShort (congrArg (List.cons '<') hText)
      rw [List.tail_eq_of_cons_eq hSame, hRest]

/-- A run of characters is cut off before the first character that does not belong to it. -/
theorem run_append {P : Char → Bool} {run rest : List Char} (hRun : ∀ c ∈ run, P c = true)
    (hRest : ∀ c ∈ rest.head?, P c = false) :
    (run ++ rest).takeWhile P = run ∧ (run ++ rest).dropWhile P = rest := by
  rw [List.takeWhile_append_of_pos hRun, List.dropWhile_append_of_pos hRun]
  cases rest with
  | nil => simp
  | cons c rest => simp [hRest c rfl]

theorem run_of_takeWhile (P : Char → Bool) (cs : List Char) :
    cs = cs.takeWhile P ++ cs.dropWhile P ∧ (∀ c ∈ cs.takeWhile P, P c = true) ∧
      ∀ c ∈ (cs.dropWhile P).head?, P c = false := by
  refine ⟨List.takeWhile_append_dropWhile.symm, List.all_eq_true.mp List.all_takeWhile, ?_⟩
  intro c hc
  have hNot := List.head?_dropWhile_not P cs
  rwa [Option.mem_def.mp hc] at hNot

theorem comment_eq_ok_iff {cls : LexemeClass} {fault : LexicalFault} {cs rest : List Char} {l : Lexeme} :
    comment cls fault ('/' :: '*' :: cs) = .ok (l, rest) ↔
      ∃ body, l = ⟨cls, '/' :: '*' :: body⟩ ∧ cs = body ++ rest ∧ Shortest EndsComment body := by
  rw [comment, List.drop_succ_cons, List.drop_succ_cons, List.drop_zero]
  constructor
  · intro h
    split at h
    · rename_i body rest' hScan
      cases h
      exact ⟨body, rfl, shortest_of_throughCommentEnd hScan⟩
    · cases h
  · rintro ⟨body, rfl, rfl, hBody⟩
    rw [throughCommentEnd_append hBody]

/-- The end of a comment has two characters. -/
theorem exists_of_endsComment {body : List Char} (h : EndsComment body) :
    ∃ c d more, body = c :: d :: more := by
  have hLength : 2 ≤ body.length := h.length_le
  obtain ⟨c, rest, rfl⟩ := List.exists_cons_of_length_pos (by omega : 0 < body.length)
  rw [List.length_cons] at hLength
  obtain ⟨d, more, rfl⟩ := List.exists_cons_of_length_pos (by omega : 0 < rest.length)
  exact ⟨c, d, more, rfl⟩

theorem mark_of_ofChar? {c : Char} {m : Mark} (h : Mark.ofChar? c = some m) : m.char = c := by
  simpa using List.find?_some h

/-- What starts an identifier starts nothing else. -/
theorem of_startsIdentifier {c : Char} (h : startsIdentifier c = true) :
    Text.isBlank c = false ∧ c ≠ '/' ∧ c ≠ '<' ∧ Mark.ofChar? c = none := by
  have hMark : ∀ m : Mark, startsIdentifier m.char = false := by
    intro m
    cases m <;> rfl
  refine ⟨?_, ?_, ?_, ?_⟩
  · rw [Bool.eq_false_iff]
    intro hBlank
    simp only [startsIdentifier, Text.isAsciiLetter, Bool.or_eq_true, Bool.and_eq_true,
      decide_eq_true_eq, beq_iff_eq, Char.le_def, UInt32.le_iff_toNat_le] at h
    simp only [Text.isBlank, Bool.or_eq_true, Bool.and_eq_true, decide_eq_true_eq, beq_iff_eq,
      Char.toNat] at hBlank
    rcases h with (hLetter | rfl) | rfl
    · have hSmall : 'a'.val.toNat = 97 ∧ 'z'.val.toNat = 122 := ⟨rfl, rfl⟩
      have hLarge : 'A'.val.toNat = 65 ∧ 'Z'.val.toNat = 90 := ⟨rfl, rfl⟩
      omega
    · revert hBlank
      decide
    · revert hBlank
      decide
  · rintro rfl
    cases h
  · rintro rfl
    cases h
  · cases hChar : Mark.ofChar? c with
    | none => rfl
    | some m =>
        rw [← mark_of_ofChar? hChar, hMark m] at h
        cases h

/-- A lexeme that was read is what it should be, in front of the rest. -/
theorem stands_of_lexeme {c : Char} {cs rest : List Char} {l : Lexeme}
    (h : lexeme c cs = .ok (l, rest)) : c :: cs = l.text ++ rest ∧ l.Stands rest := by
  rw [lexeme] at h
  split at h
  · rename_i hBlank
    cases h
    obtain ⟨hText, hRun, hRest⟩ := run_of_takeWhile Text.isBlank cs
    refine ⟨congrArg (List.cons c) hText, .blank (List.cons_ne_nil _ _) ?_ hRest⟩
    exact List.forall_mem_cons.mpr ⟨hBlank, hRun⟩
  split at h
  · rename_i hSlashes
    obtain ⟨more, hMore⟩ := List.isPrefixOf_iff_prefix.mp hSlashes
    cases hMore
    cases h
    obtain ⟨hText, hRun, hRest⟩ := run_of_takeWhile (· != '\n') more
    refine ⟨congrArg (List.cons _ ∘ List.cons _) hText, .lineComment ?_ ?_⟩
    · exact fun hMem => absurd (hRun _ hMem) (by decide)
    · exact fun d hd => by simpa using hRest d hd
  split at h
  · rename_i hStars
    rw [Bool.and_eq_true, Bool.not_eq_true'] at hStars
    obtain ⟨more, hMore⟩ := List.isPrefixOf_iff_prefix.mp hStars.1
    cases hMore
    obtain ⟨body, rfl, hText, hBody⟩ := comment_eq_ok_iff.mp h
    obtain ⟨d, e, body', rfl⟩ := exists_of_endsComment hBody.1
    cases hText
    refine ⟨rfl, .javadoc hBody ?_⟩
    intro hEnd
    cases hEnd
    exact absurd hStars.2 (by simp)
  split at h
  · rename_i hStars hStar
    obtain ⟨more, hMore⟩ := List.isPrefixOf_iff_prefix.mp hStar
    cases hMore
    obtain ⟨body, rfl, rfl, hBody⟩ := comment_eq_ok_iff.mp h
    refine ⟨rfl, .blockComment hBody fun hHead => ?_⟩
    obtain ⟨d, e, body', rfl⟩ := exists_of_endsComment hBody.1
    cases hHead
    have hSlash : e = '/' := by
      by_contra hOther
      exact hStars (by simp [List.isPrefixOf, Ne.symm hOther])
    rw [hSlash] at hBody ⊢
    exact (hBody.2 ['*', '/'] ⟨body', rfl⟩ (List.suffix_refl _)).symm
  split at h
  · rename_i hOpen
    subst hOpen
    split at h
    · rename_i text rest' hBlock
      cases h
      obtain ⟨hText, hShort⟩ := balanced_of_throughBlockEnd hBlock
      exact ⟨congrArg (List.cons _) hText, .typeBlock hShort⟩
    · cases h
  split at h
  · rename_i m hMark
    cases h
    cases mark_of_ofChar? hMark
    exact ⟨rfl, .mark m⟩
  split at h
  · rename_i hStart
    cases h
    obtain ⟨hText, hRun, hRest⟩ := run_of_takeWhile continuesIdentifier cs
    exact ⟨congrArg (List.cons c) hText, .word hStart hRun hRest⟩
  · cases h

/-- What should be a lexeme is read as one. -/
theorem lexeme_of_stands {c : Char} {cs rest : List Char} {l : Lexeme} (h : l.Stands rest)
    (hText : c :: cs = l.text ++ rest) : lexeme c cs = .ok (l, rest) := by
  cases h with
  | blank hNil hBlank hRest =>
      obtain ⟨d, run, rfl⟩ := List.exists_cons_of_ne_nil hNil
      cases hText
      rw [List.forall_mem_cons] at hBlank
      obtain ⟨hTake, hDrop⟩ := run_append hBlank.2 hRest
      rw [lexeme, if_pos hBlank.1]
      simp only [List.append_eq, hTake, hDrop]
  | @lineComment body _ hBody hRest =>
      cases hText
      have hRun : ∀ d ∈ body, (d != '\n') = true := by
        intro d hd
        rw [bne_iff_ne]
        rintro rfl
        exact hBody hd
      have hStop : ∀ d ∈ rest.head?, (d != '\n') = false := fun d hd => by simp [hRest d hd]
      obtain ⟨hTake, hDrop⟩ := run_append hRun hStop
      have hLexeme : lexeme '/' ('/' :: (body ++ rest)) = .ok
          (⟨.lineComment, '/' :: '/' :: (body ++ rest).takeWhile (· != '\n')⟩,
            (body ++ rest).dropWhile (· != '\n')) := rfl
      rwa [hTake, hDrop] at hLexeme
  | @blockComment body _ hBody hStar =>
      cases hText
      have hLexeme : lexeme '/' ('*' :: (body ++ rest)) =
          comment .blockComment .openComment ('/' :: '*' :: (body ++ rest)) := by
        obtain ⟨d, e, more, rfl⟩ := exists_of_endsComment hBody.1
        by_cases hd : d = '*'
        · cases hStar (by rw [hd, List.head?_cons])
          rfl
        · rw [lexeme, if_neg (by decide), if_neg (by simp [List.isPrefixOf]), if_neg, if_pos]
          · rfl
          · simp [List.isPrefixOf, Ne.symm hd]
      exact hLexeme.trans (comment_eq_ok_iff.mpr ⟨body, rfl, rfl, hBody⟩)
  | @javadoc body _ hBody hMore =>
      cases hText
      have hLexeme : lexeme '/' ('*' :: '*' :: (body ++ rest)) =
          comment (.token .javadoc) .openJavadoc ('/' :: '*' :: '*' :: (body ++ rest)) := by
        obtain ⟨d, e, more, hStart⟩ := exists_of_endsComment hBody.1
        cases hStart
        have hSlash : e ≠ '/' := by
          rintro rfl
          cases hBody.2 ['*', '/'] ⟨more, rfl⟩ (List.suffix_refl _)
          exact hMore rfl
        rw [lexeme, if_neg (by decide), if_neg (by simp [List.isPrefixOf]), if_pos]
        simp [List.isPrefixOf, Ne.symm hSlash]
      exact hLexeme.trans (comment_eq_ok_iff.mpr ⟨'*' :: body, rfl, rfl, hBody⟩)
  | @typeBlock body _ hBlock =>
      cases hText
      rw [lexeme, if_neg (by decide), if_neg (by simp [List.isPrefixOf]),
        if_neg (by simp [List.isPrefixOf]), if_neg (by simp [List.isPrefixOf]), if_pos rfl,
        List.append_eq, throughBlockEnd_append hBlock]
  | mark m =>
      cases hText
      cases m <;> rfl
  | @word d run _ hStart hWord hRest =>
      cases hText
      obtain ⟨hBlank, hSlash, hOpen, hMark⟩ := of_startsIdentifier hStart
      obtain ⟨hTake, hDrop⟩ := run_append hWord hRest
      have hNot : ∀ more : List Char, ('/' :: more).isPrefixOf (c :: (run ++ rest)) = false := by
        intro more
        simp [List.isPrefixOf, Ne.symm hSlash]
      rw [lexeme, if_neg (by rw [hBlank]; decide), if_neg (by rw [List.append_eq, hNot]; decide),
        if_neg (by rw [List.append_eq, hNot, hNot]; decide),
        if_neg (by rw [List.append_eq, hNot]; decide), if_neg hOpen, hMark]
      simp only [List.append_eq, hStart, hTake, hDrop, if_true]

theorem segmented_of_lexemes {cs : List Char} {ls : List Lexeme} (h : lexemes cs = (ls, none)) :
    Segmented cs ls := by
  fun_induction lexemes cs generalizing ls with
  | case1 =>
      cases h
      exact .nil
  | case2 => cases h
  | case3 c cs l rest hLexeme _ ls' fault hRest ih =>
      cases h
      obtain ⟨hText, hStands⟩ := stands_of_lexeme hLexeme
      rw [hText]
      exact .cons hStands (ih hRest)

/-- A lexeme is cut off in front of what follows it, and the rest is cut on its own. -/
theorem lexemes_of_stands {l : Lexeme} {rest : List Char} (h : l.Stands rest) :
    lexemes (l.text ++ rest) = (l :: (lexemes rest).1, (lexemes rest).2) := by
  obtain ⟨c, cs, hText⟩ : ∃ c cs, l.text ++ rest = c :: cs := by
    cases h with
    | blank hNil =>
        obtain ⟨c, cs, rfl⟩ := List.exists_cons_of_ne_nil hNil
        exact ⟨c, _, rfl⟩
    | lineComment | blockComment | javadoc | typeBlock | mark | word => exact ⟨_, _, rfl⟩
  rw [hText, lexemes.eq_def]
  dsimp only
  split
  · rename_i fault hFault
    rw [lexeme_of_stands h hText.symm] at hFault
    cases hFault
  · rename_i l' rest' hRead
    rw [lexeme_of_stands h hText.symm] at hRead
    cases hRead
    rfl

theorem lexemes_of_segmented {cs : List Char} {ls : List Lexeme} (h : Segmented cs ls) :
    lexemes cs = (ls, none) := by
  induction h with
  | nil => rw [lexemes.eq_def]
  | cons hLexeme _ ih => rw [lexemes_of_stands hLexeme, ih]

end Scan

/-- The line of what follows a text, counted from one. -/
def lineAfter (before : List Char) : Nat := 1 + before.count '\n'

/-- The column of what follows a text, counted from one. -/
def columnAfter (before : List Char) : Nat := 1 + (before.reverse.takeWhile (· != '\n')).length

/-- The tokens of lexemes that follow a text: one for each lexeme that is neither blank nor a
comment, with its class, its text and its place. -/
inductive TokensOf : List Char → List Lexeme → List Token → Prop
  | nil {before : List Char} : TokensOf before [] []
  | skip {before : List Char} {l : Lexeme} {ls : List Lexeme} {ts : List Token}
      (hCls : l.cls = .blank ∨ l.cls = .lineComment ∨ l.cls = .blockComment)
      (hRest : TokensOf (before ++ l.text) ls ts) : TokensOf before (l :: ls) ts
  | token {before : List Char} {l : Lexeme} {ls : List Lexeme} {ts : List Token} {cls : TokenClass}
      (hCls : l.cls = .token cls) (hRest : TokensOf (before ++ l.text) ls ts) :
      TokensOf before (l :: ls)
        (⟨cls, String.ofList l.text, lineAfter before, columnAfter before⟩ :: ts)

theorem Position.advance_start (before : List Char) :
    start.advance before = ⟨lineAfter before, columnAfter before⟩ := by
  induction before using List.reverseRecOn with
  | nil => rfl
  | append_singleton before c ih =>
      rw [advance, List.foldl_append, List.foldl_cons, List.foldl_nil]
      rw [advance] at ih
      rw [ih, next]
      split
      · rename_i hFeed
        subst hFeed
        simp [lineAfter, columnAfter, Nat.add_assoc]
      · rename_i hFeed
        simp [lineAfter, columnAfter, List.count_append, hFeed, Nat.add_assoc]

theorem Position.advance_append (p : Position) (cs cs' : List Char) :
    (p.advance cs).advance cs' = p.advance (cs ++ cs') := List.foldl_append.symm

namespace Scan

theorem place_token {l : Lexeme} {cls : TokenClass} (h : l.cls = .token cls) (p : Position)
    (ls : List Lexeme) : (place p (l :: ls)).1 =
      ⟨cls, String.ofList l.text, p.line, p.column⟩ :: (place (p.advance l.text) ls).1 := by
  simp only [place, h]

theorem place_skip {l : Lexeme} (h : l.cls = .blank ∨ l.cls = .lineComment ∨ l.cls = .blockComment)
    (p : Position) (ls : List Lexeme) :
    (place p (l :: ls)).1 = (place (p.advance l.text) ls).1 := by
  rcases h with h | h | h <;> simp only [place, h]

/-- The tokens that are placed behind a text are those of the lexemes. -/
theorem place_eq_iff {before : List Char} {ls : List Lexeme} {ts : List Token} :
    (place (Position.start.advance before) ls).1 = ts ↔ TokensOf before ls ts := by
  constructor
  · rintro rfl
    induction ls generalizing before with
    | nil => exact .nil
    | cons l ls ih =>
        have hRest := @ih (before ++ l.text)
        rw [← Position.advance_append] at hRest
        cases hCls : l.cls with
        | token cls =>
            rw [place_token hCls, Position.advance_start before]
            rw [Position.advance_start before] at hRest
            exact .token hCls hRest
        | blank | lineComment | blockComment =>
            rw [place_skip (by simp [hCls])]
            exact .skip (by simp [hCls]) hRest
  · intro h
    induction h with
    | nil => rfl
    | skip hCls _ ih => rw [place_skip hCls, Position.advance_append, ih]
    | token hCls _ ih =>
        rw [place_token hCls, Position.advance_append, ih, Position.advance_start]

end Scan

namespace Source

/-- What was read is a cut of the text into lexemes, under the name that was given. -/
theorem segmented_of_read {filename : Option String} {text : String} {s : Source}
    (h : read filename text = .ok s) : s.filename = filename ∧ s.text = text ∧
      ∃ ls, Segmented text.toList ls ∧ TokensOf [] ls s.tokens := by
  simp only [read] at h
  split at h
  · rename_i hFault
    cases h
    exact ⟨rfl, rfl, _, Scan.segmented_of_lexemes (Prod.ext rfl hFault), Scan.place_eq_iff.mp rfl⟩
  · cases h

/-- A cut of a text into lexemes is read. -/
theorem read_of_segmented {text : String} {ls : List Lexeme} {ts : List Token}
    (h : Segmented text.toList ls) (hTokens : TokensOf [] ls ts) (filename : Option String) :
    read filename text = .ok ⟨filename, text, ts⟩ := by
  have hPlaced : (Scan.place .start ls).1 = ts := Scan.place_eq_iff.mpr hTokens
  simp only [read, Scan.lexemes_of_segmented h, hPlaced]

end Source

/-- A text is read into tokens exactly if it can be cut into lexemes, and then the tokens are
those of the lexemes, and the shape of the text has one character for each of them. -/
theorem read_eq_ok_iff_segmented (filename : Option String) (text : String) (s : Source) :
    Source.read filename text = .ok s ↔ s.filename = filename ∧ s.text = text ∧
      (∃ ls, Segmented text.toList ls ∧ TokensOf [] ls s.tokens) ∧
      s.shape.toList = s.tokens.map (fun t => t.cls.letter) := by
  constructor
  · intro h
    obtain ⟨hName, hText, hCut⟩ := Source.segmented_of_read h
    exact ⟨hName, hText, hCut, String.toList_ofList⟩
  · rintro ⟨rfl, rfl, ⟨ls, hSegments, hTokens⟩, -⟩
    exact Source.read_of_segmented hSegments hTokens s.filename

end BinderIdl
