import BinderIdl.Proofs.Java.Bare

/-! Texts made of code, comments and string literals, and what is left of them. Block comments
are removed first, then line comments, and literals are emptied last. So exactly the code is
left if no earlier removal finds a start in a later piece: no comment seems to start in a
literal, and no block comment in a line comment. Otherwise code may be lost. -/
namespace BinderIdl.Java

/-- A piece of a text. Comments and literals are given by what stands between their marks. -/
inductive Piece where
  | code (cs : List Char)
  | blockComment (body : List Char)
  | lineComment (body : List Char)
  | literal (body : List Char)

/-- The content of a literal on one line. A backslash takes the character behind it along. -/
inductive LiteralBody : List Char → Prop
  | nil : LiteralBody []
  | char {c : Char} {cs : List Char} (hQuote : c ≠ '\x22') (hBackslash : c ≠ '\x5c')
      (hLine : c ≠ '\n') (h : LiteralBody cs) : LiteralBody (c :: cs)
  | escape {c : Char} {cs : List Char} (hLine : c ≠ '\n') (h : LiteralBody cs) :
      LiteralBody ('\x5c' :: c :: cs)

/-- A comment starts in a text, perhaps with the first character of what follows it. -/
def CommentStartsIn (cs rest : List Char) : Prop :=
  ∃ front back, cs = front ++ '/' :: back ∧
    ((back ++ rest).head? = some '/' ∨ (back ++ rest).head? = some '*')

namespace Piece

def text : Piece → List Char
  | code cs => cs
  | blockComment body => '/' :: '*' :: (body ++ ['*', '/'])
  | lineComment body => '/' :: '/' :: (body ++ ['\n'])
  | literal body => '\x22' :: (body ++ ['\x22'])

/-- The code of a piece. -/
def codePart : Piece → List Char
  | code cs => cs
  | blockComment _ | lineComment _ | literal _ => []

/-- What stands for a piece when comments are gone and literals are empty. -/
def bare : Piece → List Char
  | code cs => cs
  | blockComment _ => []
  | lineComment _ => ['\n']
  | literal _ => ['\x22', '\x22']

/-- A piece is what it is called, in front of a text. -/
def Fits : Piece → List Char → Prop
  | code cs, rest => '\x22' ∉ cs ∧ ¬CommentStartsIn cs rest
  | blockComment body, _ => ¬['*', '/'] <:+: body
  | lineComment body, _ => '\n' ∉ body
  | literal body, _ => LiteralBody body

/-- Nothing in a piece looks like the start of a comment that is removed before the piece. -/
def Clear : Piece → Prop
  | code _ | blockComment _ => True
  | lineComment body => ¬['/', '*'] <:+: '/' :: body
  | literal body => ¬['/', '/'] <:+: body ∧ ¬['/', '*'] <:+: body

/-- Every piece fits in front of those that follow it. -/
def Sequence : List Piece → Prop
  | [] => True
  | p :: ps => p.Fits (ps.flatMap text) ∧ Sequence ps

end Piece

variable {c : Char} {cs rest : List Char}

theorem commentStartsIn_cons :
    CommentStartsIn (c :: cs) rest ↔
      (c = '/' ∧ ((cs ++ rest).head? = some '/' ∨ (cs ++ rest).head? = some '*')) ∨
        CommentStartsIn cs rest := by
  constructor
  · rintro ⟨front, back, hText, hNext⟩
    cases front with
    | nil =>
        obtain ⟨rfl, rfl⟩ := List.cons.inj hText
        exact .inl ⟨rfl, hNext⟩
    | cons d front =>
        obtain ⟨rfl, rfl⟩ := List.cons.inj hText
        exact .inr ⟨front, back, rfl, hNext⟩
  · rintro (⟨rfl, hNext⟩ | ⟨front, back, rfl, hNext⟩)
    · exact ⟨[], cs, rfl, hNext⟩
    · exact ⟨c :: front, back, rfl, hNext⟩

theorem not_commentStartsIn_nil (rest : List Char) : ¬CommentStartsIn [] rest := by
  rintro ⟨front, back, hText, -⟩
  cases front <;> cases hText

instance decidableCommentStartsIn : (cs rest : List Char) → Decidable (CommentStartsIn cs rest)
  | [], rest => .isFalse (not_commentStartsIn_nil rest)
  | _ :: cs, rest =>
      have := decidableCommentStartsIn cs rest
      decidable_of_iff' _ commentStartsIn_cons

/-- What is left of a text starts as the text does, if that is no slash. -/
theorem head?_withoutBlockComments (hSlash : cs.head? ≠ some '/') :
    (withoutBlockComments cs).head? = cs.head? := by
  cases cs with
  | nil => rw [withoutBlockComments]
  | cons c cs =>
      have hFirst : c ≠ '/' := fun h => hSlash (congrArg some h)
      rw [withoutBlockComments_cons hFirst]
      rfl

theorem withoutBlockComments_slash_cons (hStar : cs.head? ≠ some '*') :
    withoutBlockComments ('/' :: cs) = '/' :: withoutBlockComments cs := by
  rw [withoutBlockComments]
  rintro rest - rfl
  exact hStar rfl

theorem withoutLineComments_slash_cons (hSlash : cs.head? ≠ some '/') :
    withoutLineComments ('/' :: cs) = '/' :: withoutLineComments cs := by
  rw [withoutLineComments, withoutLineCommentsFrom, withoutLineComments]
  rintro rest - rfl
  exact hSlash rfl

/-- A slash that starts no comment is code. -/
theorem bareCode_slash_cons (hSlash : cs.head? ≠ some '/') (hStar : cs.head? ≠ some '*') :
    bareCode ('/' :: cs) = '/' :: bareCode cs := by
  have hNext : (withoutBlockComments cs).head? ≠ some '/' := by
    rwa [head?_withoutBlockComments hSlash]
  rw [bareCode, withoutBlockComments_slash_cons hStar, withoutLineComments_slash_cons hNext,
    withEmptyLiterals_cons (by decide), ← bareCode]

/-- Code stays as it is. -/
theorem bareCode_code_append (hQuote : '\x22' ∉ cs) (hStart : ¬CommentStartsIn cs rest) :
    bareCode (cs ++ rest) = cs ++ bareCode rest := by
  induction cs with
  | nil => rfl
  | cons c cs ih =>
      rw [List.mem_cons, not_or] at hQuote
      rw [commentStartsIn_cons, not_or, not_and, not_or] at hStart
      have hRest := ih hQuote.2 hStart.2
      by_cases hSlash : c = '/'
      · subst hSlash
        obtain ⟨hNotSlash, hNotStar⟩ := hStart.1 rfl
        rw [List.cons_append, bareCode_slash_cons hNotSlash hNotStar, hRest, List.cons_append]
      · have hChar := Leaves.char hSlash (Ne.symm hQuote.1) (cs ++ rest)
        rw [List.singleton_append, List.singleton_append, hRest] at hChar
        exact hChar

/-- A removal that starts with a slash and a mark keeps a text in which these never meet. -/
theorem removal_append {removal : List Char → List Char} {mark : Char}
    (hChar : ∀ {c : Char}, c ≠ '/' → ∀ cs, removal (c :: cs) = c :: removal cs)
    (hSlash : ∀ {cs : List Char}, cs.head? ≠ some mark →
      removal ('/' :: cs) = '/' :: removal cs)
    (hStart : ¬['/', mark] <:+: cs) (hLast : cs.getLast? ≠ some '/') :
    removal (cs ++ rest) = cs ++ removal rest := by
  induction cs with
  | nil => rfl
  | cons c cs ih =>
      cases cs with
      | nil => exact hChar (fun h => hLast (congrArg some h)) rest
      | cons d ds =>
          rw [List.getLast?_cons_cons] at hLast
          have hRest := ih (fun h => hStart (h.trans (List.suffix_cons c _).isInfix)) hLast
          by_cases hFirst : c = '/'
          · subst hFirst
            have hNext : ((d :: ds) ++ rest).head? ≠ some mark := by
              intro h
              obtain rfl : d = mark := Option.some.inj h
              exact hStart (List.prefix_append ['/', d] ds).isInfix
            exact (hSlash hNext).trans (congrArg (List.cons _) hRest)
          · exact (hChar hFirst _).trans (congrArg (List.cons c) hRest)

theorem not_infix_concat {a b z : Char} (hLast : b ≠ z) (h : ¬[a, b] <:+: cs) :
    ¬[a, b] <:+: cs ++ [z] := by
  rw [List.infix_concat_iff, not_or]
  refine ⟨?_, h⟩
  rintro ⟨front, hFront⟩
  have hSame := congrArg List.getLast? hFront
  rw [List.getLast?_concat, List.getLast?_append] at hSame
  exact hLast (Option.some.inj hSame)

theorem not_infix_quoted {a b : Char} (hFirst : a ≠ '\x22') (hLast : b ≠ '\x22')
    (h : ¬[a, b] <:+: cs) : ¬[a, b] <:+: '\x22' :: (cs ++ ['\x22']) := by
  rw [List.infix_cons_iff, not_or]
  exact ⟨fun hPrefix => hFirst (List.cons_prefix_cons.mp hPrefix).1, not_infix_concat hLast h⟩

theorem withoutLineCommentsFrom_append (hLine : '\n' ∉ cs) (rest : List Char) :
    withoutLineCommentsFrom true (cs ++ '\n' :: rest) = '\n' :: withoutLineComments rest := by
  induction cs with
  | nil => rw [List.nil_append, withoutLineCommentsFrom, if_pos rfl, withoutLineComments]
  | cons c cs ih =>
      rw [List.mem_cons, not_or] at hLine
      rw [List.cons_append, withoutLineCommentsFrom, if_neg (Ne.symm hLine.1), ih hLine.2]

theorem LiteralBody.of_not_mem (hQuote : '\x22' ∉ cs) (hBackslash : '\x5c' ∉ cs)
    (hLine : '\n' ∉ cs) : LiteralBody cs := by
  induction cs with
  | nil => exact nil
  | cons c cs ih =>
      rw [List.mem_cons, not_or] at hQuote hBackslash hLine
      exact char (Ne.symm hQuote.1) (Ne.symm hBackslash.1) (Ne.symm hLine.1)
        (ih hQuote.2 hBackslash.2 hLine.2)

/-- The end of a literal is the first quote that no backslash takes along. -/
theorem LiteralBody.afterLiteral?_append (h : LiteralBody cs) (rest : List Char) :
    afterLiteral? (cs ++ '\x22' :: rest) = some rest := by
  induction h with
  | nil => rw [List.nil_append, afterLiteral?]
  | char hQuote hBackslash _ _ ih =>
      rw [List.cons_append, afterLiteral?, ih]
      · exact hQuote
      · exact fun _ _ h => absurd h hBackslash
      · exact fun h => absurd h hBackslash
  | escape hLine _ ih => rw [List.cons_append, List.cons_append, afterLiteral?, if_neg hLine, ih]

namespace Leaves

theorem blockComment (hEnd : ¬['*', '/'] <:+: cs) :
    Leaves ('/' :: '*' :: (cs ++ ['*', '/'])) [] := by
  refine comment (.of_afterComment? ?_)
  rw [afterComment?_append hEnd (fun _ => by decide)]
  rfl

/-- A line comment leaves its line feed, if no block comment starts in it. -/
theorem lineComment (hLine : '\n' ∉ cs) (hStart : ¬['/', '*'] <:+: '/' :: cs) :
    Leaves ('/' :: '/' :: (cs ++ ['\n'])) ['\n'] := by
  intro rest
  have hWhole : ¬['/', '*'] <:+: '/' :: '/' :: (cs ++ ['\n']) := by
    rw [List.infix_cons_iff, not_or, ← List.cons_append]
    refine ⟨fun hPrefix => ?_, not_infix_concat (by decide) hStart⟩
    have hSecond := List.cons_prefix_cons.mp (List.cons_prefix_cons.mp hPrefix).2
    exact absurd hSecond.1 (by decide)
  have hBlock : withoutBlockComments ('/' :: '/' :: (cs ++ ['\n']) ++ rest) =
      '/' :: '/' :: (cs ++ '\n' :: withoutBlockComments rest) := by
    rw [removal_append withoutBlockComments_cons withoutBlockComments_slash_cons hWhole
      (by simp [List.getLast?_cons])]
    simp
  rw [bareCode, hBlock, withoutLineComments, withoutLineCommentsFrom,
    withoutLineCommentsFrom_append hLine, withEmptyLiterals_cons (by decide)]
  rfl

/-- A literal leaves its quotes, if no comment starts in it. -/
theorem literalBody (hBody : LiteralBody cs) (hLine : ¬['/', '/'] <:+: cs)
    (hBlock : ¬['/', '*'] <:+: cs) : Leaves ('\x22' :: (cs ++ ['\x22'])) ['\x22', '\x22'] := by
  intro rest
  have hLast : ('\x22' :: (cs ++ ['\x22'])).getLast? ≠ some '/' := by simp [List.getLast?_cons]
  have hAfter := hBody.afterLiteral?_append (withoutLineComments (withoutBlockComments rest))
  rw [bareCode, removal_append withoutBlockComments_cons withoutBlockComments_slash_cons
      (not_infix_quoted (by decide) (by decide) hBlock) hLast,
    removal_append withoutLineComments_cons withoutLineComments_slash_cons
      (not_infix_quoted (by decide) (by decide) hLine) hLast,
    List.cons_append, List.append_assoc, List.singleton_append, withEmptyLiterals]
  split
  · rename_i after hSome
    obtain rfl := Option.some.inj (hAfter.symm.trans hSome)
    rfl
  · rename_i hNone
    rw [hAfter] at hNone
    cases hNone

end Leaves

namespace Piece

/-- One piece is removed as it should be, in front of what it fits. -/
theorem bareCode_text_append {p : Piece} (hFits : p.Fits rest) (hClear : p.Clear) :
    bareCode (p.text ++ rest) = p.bare ++ bareCode rest := by
  cases p with
  | code cs => exact bareCode_code_append hFits.1 hFits.2
  | blockComment body => exact Leaves.blockComment hFits rest
  | lineComment body => exact Leaves.lineComment hFits hClear rest
  | literal body => exact Leaves.literalBody hFits hClear.1 hClear.2 rest

theorem bareCode_flatMap_text {ps : List Piece} (hSequence : Sequence ps)
    (hClear : ∀ p ∈ ps, p.Clear) : bareCode (ps.flatMap text) = ps.flatMap bare := by
  induction ps with
  | nil => exact Leaves.nil.eq
  | cons p ps ih =>
      rw [List.forall_mem_cons] at hClear
      rw [List.flatMap_cons, List.flatMap_cons, bareCode_text_append hSequence.1 hClear.1,
        ih hSequence.2 hClear.2]

/-- What stands for comments and literals is neither an opening nor a closing brace. -/
theorem count_bare {brace : Char} (hBrace : brace = '\x7b' ∨ brace = '\x7d') (p : Piece) :
    p.bare.count brace = p.codePart.count brace := by
  cases p with
  | code cs => rfl
  | blockComment body => rfl
  | lineComment body => rcases hBrace with rfl | rfl <;> rfl
  | literal body => rcases hBrace with rfl | rfl <;> rfl

/-- In a sequence of clear pieces, comments and literals are removed and nothing else: the
braces that count are those of the code. -/
theorem count_bareCode_of_sequence {ps : List Piece} (hSequence : Sequence ps)
    (hClear : ∀ p ∈ ps, p.Clear) :
    bareCode (ps.flatMap text) = ps.flatMap bare ∧
      (bareCode (ps.flatMap text)).count '\x7b' = (ps.flatMap codePart).count '\x7b' ∧
      (bareCode (ps.flatMap text)).count '\x7d' = (ps.flatMap codePart).count '\x7d' := by
  have hBare := bareCode_flatMap_text hSequence hClear
  have hCount : ∀ brace, brace = '\x7b' ∨ brace = '\x7d' →
      (ps.flatMap bare).count brace = (ps.flatMap codePart).count brace := by
    intro brace hBrace
    rw [List.count_flatMap, List.count_flatMap]
    exact congrArg List.sum (List.map_congr_left fun p _ => count_bare hBrace p)
  rw [hBare]
  exact ⟨rfl, hCount _ (.inl rfl), hCount _ (.inr rfl)⟩

/-- A method with a brace, an escaped quote and the end of a comment in a literal, with a quote
and a brace in both kinds of comments, and with a division. -/
private def halves : List Piece :=
  [code "void f() \x7b x = y / 2; s = ".toList, literal "\x7b\x5c\x22*/".toList,
    code "; ".toList, lineComment " \x7d \x22".toList, blockComment "* \x7b \x22 // ".toList,
    code " \x7d".toList]

private theorem sequence_halves : Sequence halves := by
  have hEscape : LiteralBody "\x7b\x5c\x22*/".toList :=
    .char (by decide) (by decide) (by decide) (.escape (by decide)
      (.of_not_mem (by decide) (by decide) (by decide)))
  have hLine : '\n' ∉ " \x7d \x22".toList := by decide
  have hEnd : ¬['*', '/'] <:+: "* \x7b \x22 // ".toList := by decide +kernel
  exact ⟨⟨by decide +kernel, by decide +kernel⟩, hEscape, ⟨by decide +kernel, by decide +kernel⟩,
    hLine, hEnd, ⟨by decide +kernel, by decide +kernel⟩, trivial⟩

private theorem clear_halves : ∀ p ∈ halves, p.Clear := by
  have hLine : ¬['/', '*'] <:+: '/' :: " \x7d \x22".toList := by decide +kernel
  simp only [halves, List.forall_mem_cons]
  exact ⟨trivial, ⟨by decide +kernel, by decide +kernel⟩, trivial, hLine, trivial, trivial,
    by simp⟩

theorem count_bareCode_of_sequence_halves :
    (Sequence halves ∧ ∀ p ∈ halves, p.Clear) ∧
      bareCode (halves.flatMap text) =
        "void f() \x7b x = y / 2; s = \x22\x22; \n \x7d".toList ∧
      (bareCode (halves.flatMap text)).count '\x7b' = 1 ∧
      (bareCode (halves.flatMap text)).count '\x7d' = 1 := by
  obtain ⟨hBare, hOpen, hClose⟩ := count_bareCode_of_sequence sequence_halves clear_halves
  refine ⟨⟨sequence_halves, clear_halves⟩, hBare.trans ?_, hOpen.trans ?_, hClose.trans ?_⟩ <;>
    decide +kernel

/-- A literal with an address in it: two slashes that are no comment. -/
private def address : List Piece :=
  [code "\x7b s = ".toList, literal "http://a".toList, code "; \x7d".toList]

/-- The slashes in the literal are taken for a comment, and the brace behind it is lost. -/
theorem brace_lost_behind_address :
    Sequence address ∧ (address.flatMap codePart).count '\x7d' = 1 ∧
      (bareCode (address.flatMap text)).count '\x7d' = 0 := by
  have hBody : LiteralBody "http://a".toList :=
    .of_not_mem (by decide) (by decide) (by decide)
  refine ⟨⟨⟨by decide +kernel, by decide +kernel⟩, hBody,
    ⟨by decide +kernel, by decide +kernel⟩, trivial⟩, ?_, ?_⟩ <;> decide +kernel

end Piece

end BinderIdl.Java
