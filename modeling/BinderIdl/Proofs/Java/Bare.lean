import BinderIdl.Java.Check

/-! What is left of a text when its comments and the content of its literals are removed.
Code stays, a comment leaves nothing and a literal leaves its quotes, whatever follows
them. So what is left of a file is found piece by piece. -/
namespace BinderIdl.Java

variable {c : Char} {cs cs' bare bare' : List Char}

theorem withoutBlockComments_cons (hSlash : c ≠ '/') (cs : List Char) :
    withoutBlockComments (c :: cs) = c :: withoutBlockComments cs := by
  rw [withoutBlockComments]
  intro rest hStart
  exact absurd hStart hSlash

theorem withoutLineComments_cons (hSlash : c ≠ '/') (cs : List Char) :
    withoutLineComments (c :: cs) = c :: withoutLineComments cs := by
  rw [withoutLineComments, withoutLineCommentsFrom, withoutLineComments]
  intro rest hStart
  exact absurd hStart hSlash

theorem withEmptyLiterals_cons (hQuote : c ≠ '\x22') (cs : List Char) :
    withEmptyLiterals (c :: cs) = c :: withEmptyLiterals cs := by
  rw [withEmptyLiterals]
  intro hStart
  exact absurd hStart hQuote

/-- A slash that a blank follows starts no comment. -/
theorem withoutBlockComments_slash (cs : List Char) :
    withoutBlockComments ('/' :: ' ' :: cs) = '/' :: ' ' :: withoutBlockComments cs := by
  rw [withoutBlockComments, withoutBlockComments_cons (by decide)]
  intro rest _ hStar
  exact absurd (List.cons.inj hStar).1 (by decide)

theorem withoutLineComments_slash (cs : List Char) :
    withoutLineComments ('/' :: ' ' :: cs) = '/' :: ' ' :: withoutLineComments cs := by
  rw [← withoutLineComments_cons (by decide), withoutLineComments, withoutLineCommentsFrom,
    withoutLineComments]
  intro rest _ hSlash
  exact absurd (List.cons.inj hSlash).1 (by decide)

theorem withoutBlockComments_append (hSlash : '/' ∉ cs) (rest : List Char) :
    withoutBlockComments (cs ++ rest) = cs ++ withoutBlockComments rest := by
  induction cs with
  | nil => rfl
  | cons c cs ih =>
      rw [List.mem_cons, not_or] at hSlash
      rw [List.cons_append, withoutBlockComments_cons (Ne.symm hSlash.1), ih hSlash.2,
        List.cons_append]

theorem withoutLineComments_append (hSlash : '/' ∉ cs) (rest : List Char) :
    withoutLineComments (cs ++ rest) = cs ++ withoutLineComments rest := by
  induction cs with
  | nil => rfl
  | cons c cs ih =>
      rw [List.mem_cons, not_or] at hSlash
      rw [List.cons_append, withoutLineComments_cons (Ne.symm hSlash.1), ih hSlash.2,
        List.cons_append]

/-- Wherever a text stands, another text is left of it, and what follows it is not
touched. -/
def Leaves (cs bare : List Char) : Prop := ∀ rest, bareCode (cs ++ rest) = bare ++ bareCode rest

/-- Code without literals in which every slash divides. -/
inductive Calm : List Char → Prop
  | nil : Calm []
  | slash {cs : List Char} (h : Calm cs) : Calm ('/' :: ' ' :: cs)
  | cons {c : Char} {cs : List Char} (hSlash : c ≠ '/') (hQuote : c ≠ '\x22') (h : Calm cs) :
      Calm (c :: cs)

namespace Calm

theorem of_not_mem (hSlash : '/' ∉ cs) (hQuote : '\x22' ∉ cs) : Calm cs := by
  induction cs with
  | nil => exact nil
  | cons c cs ih =>
      rw [List.mem_cons, not_or] at hSlash hQuote
      exact cons (Ne.symm hSlash.1) (Ne.symm hQuote.1) (ih hSlash.2 hQuote.2)

theorem append (h : Calm cs) (h' : Calm cs') : Calm (cs ++ cs') := by
  induction h with
  | nil => exact h'
  | slash _ ih => exact slash ih
  | cons hSlash hQuote _ ih => exact cons hSlash hQuote ih

theorem flatMap {α : Type} {f : α → List Char} {xs : List α} (h : ∀ x ∈ xs, Calm (f x)) :
    Calm (xs.flatMap f) := by
  induction xs with
  | nil => exact nil
  | cons x xs ih =>
      rw [List.forall_mem_cons] at h
      exact h.1.append (ih h.2)

end Calm

theorem afterComment?_suffix {rest : List Char} (h : afterComment? cs = some rest) : rest <:+ cs := by
  fun_induction afterComment? cs with
  | case1 => cases h
  | case2 =>
      cases h
      exact List.suffix_append ['*', '/'] rest
  | case3 c cs _ ih => exact (ih h).trans (List.suffix_cons c cs)

theorem afterLiteral?_suffix {rest : List Char} (h : afterLiteral? cs = some rest) : rest <:+ cs := by
  fun_induction afterLiteral? cs with
  | case1 => cases h
  | case2 =>
      cases h
      exact List.suffix_cons _ rest
  | case3 => cases h
  | case4 c cs _ ih => exact (ih h).trans (List.suffix_append ['\x5c', c] cs)
  | case5 => cases h
  | case6 c cs _ _ _ ih => exact (ih h).trans (List.suffix_cons c cs)

theorem withoutBlockComments_subset (cs : List Char) : withoutBlockComments cs ⊆ cs := by
  fun_induction withoutBlockComments cs with
  | case1 => exact List.Subset.refl _
  | case2 rest after hAfter _ ih =>
      have hSuffix := (afterComment?_suffix hAfter).trans (List.suffix_append ['/', '*'] rest)
      exact List.Subset.trans ih hSuffix.subset
  | case3 rest _ ih => exact List.cons_subset_cons _ ih
  | case4 c rest _ ih => exact List.cons_subset_cons c ih

theorem withoutLineCommentsFrom_subset (inside : Bool) (cs : List Char) :
    withoutLineCommentsFrom inside cs ⊆ cs := by
  fun_induction withoutLineCommentsFrom inside cs with
  | case1 => exact List.Subset.refl _
  | case2 cs ih => exact List.cons_subset_cons _ ih
  | case3 c cs _ ih => exact List.subset_cons_of_subset c ih
  | case4 cs ih => exact List.subset_cons_of_subset _ (List.subset_cons_of_subset _ ih)
  | case5 c cs _ ih => exact List.cons_subset_cons c ih

theorem withEmptyLiterals_subset (cs : List Char) : withEmptyLiterals cs ⊆ cs := by
  fun_induction withEmptyLiterals cs with
  | case1 => exact List.Subset.refl _
  | case2 rest after hAfter _ ih =>
      have hRest : withEmptyLiterals after ⊆ rest :=
        List.Subset.trans ih (afterLiteral?_suffix hAfter).subset
      refine List.cons_subset.mpr ⟨List.mem_cons_self, List.cons_subset.mpr ⟨List.mem_cons_self, ?_⟩⟩
      exact List.subset_cons_of_subset _ hRest
  | case3 rest _ ih => exact List.cons_subset_cons _ ih
  | case4 c rest _ ih => exact List.cons_subset_cons c ih

/-- Every character of the code of a text is one of the text. -/
theorem bareCode_subset (cs : List Char) : bareCode cs ⊆ cs :=
  List.Subset.trans (withEmptyLiterals_subset _)
    (List.Subset.trans (withoutLineCommentsFrom_subset false _) (withoutBlockComments_subset cs))

/-- A block comment. It ends at its own end, whatever follows it. -/
def IsComment (cs : List Char) : Prop :=
  ∃ body, cs = '/' :: '*' :: body ∧ ∀ rest, afterComment? (body ++ rest) = some rest

/-- A text in which no comment ends, not even with what follows it, is passed over. -/
theorem afterComment?_append {rest : List Char} (hEnd : ¬['*', '/'] <:+: cs)
    (hNext : cs.getLast? = some '*' → rest.head? ≠ some '/') :
    afterComment? (cs ++ rest) = afterComment? rest := by
  induction cs with
  | nil => rfl
  | cons c cs ih =>
      have hRest : afterComment? (cs ++ rest) = afterComment? rest := by
        refine ih (fun hInfix => hEnd (hInfix.trans (List.suffix_cons c cs).isInfix)) ?_
        cases cs with
        | nil => simp
        | cons d ds => rwa [List.getLast?_cons_cons] at hNext
      rw [List.cons_append, afterComment?, hRest]
      intro after hStar hSlash
      subst hStar
      cases cs with
      | nil => exact hNext rfl (by rw [← List.nil_append rest, hSlash]; rfl)
      | cons d ds =>
          obtain ⟨rfl, -⟩ := List.cons.inj hSlash
          exact hEnd (List.prefix_append ['*', '/'] ds).isInfix

/-- What ends a text as a comment also ends it when something follows. -/
theorem afterComment?_append_of_some {rest : List Char} (h : afterComment? cs = some rest)
    (more : List Char) : afterComment? (cs ++ more) = some (rest ++ more) := by
  fun_induction afterComment? cs with
  | case1 => cases h
  | case2 cs =>
      cases h
      rfl
  | case3 c cs hStart ih =>
      rw [List.cons_append, afterComment?]
      · exact ih h
      · intro after hStar hSlash
        subst hStar
        cases cs with
        | nil => cases h
        | cons d ds =>
            obtain ⟨rfl, -⟩ := List.cons.inj hSlash
            exact hStart ds rfl rfl

theorem IsComment.of_afterComment? (h : afterComment? cs = some []) :
    IsComment ('/' :: '*' :: cs) :=
  ⟨cs, rfl, afterComment?_append_of_some h⟩

/-- A text that can stand inside a comment, in front of anything. -/
def Inside (cs : List Char) : Prop := ∀ rest, afterComment? (cs ++ rest) = afterComment? rest

namespace Inside

theorem append (h : Inside cs) (h' : Inside cs') : Inside (cs ++ cs') := by
  intro rest
  rw [List.append_assoc, h, h']

/-- A line stands inside a comment if no comment ends in it. -/
theorem line (hEnd : ¬['*', '/'] <:+: cs) : Inside (cs ++ ['\n']) := by
  intro rest
  rw [List.append_assoc, afterComment?_append hEnd (by simp), List.singleton_append, afterComment?]
  intro _ hStar
  cases hStar

theorem of_not_mem (hSlash : '/' ∉ cs) (hLast : cs.getLast? ≠ some '*') : Inside cs := by
  intro rest
  refine afterComment?_append (fun hInfix => hSlash ?_) fun hStar => absurd hStar hLast
  exact hInfix.subset (by simp)

theorem flatMap {α : Type} {f : α → List Char} {xs : List α} (h : ∀ x ∈ xs, Inside (f x)) :
    Inside (xs.flatMap f) := by
  induction xs with
  | nil => exact fun _ => rfl
  | cons x xs ih =>
      rw [List.forall_mem_cons] at h
      exact h.1.append (ih h.2)

theorem isComment (h : Inside cs) : IsComment ('/' :: '*' :: (cs ++ ['*', '/'])) := by
  refine .of_afterComment? ?_
  rw [h]
  rfl

end Inside

/-- The end of a literal without quotes and backslashes in it. -/
theorem afterLiteral?_append (hQuote : '\x22' ∉ cs) (hBackslash : '\x5c' ∉ cs)
    (rest : List Char) : afterLiteral? (cs ++ '\x22' :: rest) = some rest := by
  induction cs with
  | nil => rw [List.nil_append, afterLiteral?]
  | cons c cs ih =>
      rw [List.mem_cons, not_or] at hQuote hBackslash
      rw [List.cons_append, afterLiteral?, ih hQuote.2 hBackslash.2]
      · exact fun h => hQuote.1 h.symm
      · exact fun _ _ h => absurd h.symm hBackslash.1
      · exact fun h => absurd h.symm hBackslash.1

namespace Leaves

theorem nil : Leaves [] [] := fun _ => rfl

theorem append (h : Leaves cs bare) (h' : Leaves cs' bare') :
    Leaves (cs ++ cs') (bare ++ bare') := by
  intro rest
  rw [List.append_assoc, h, h', List.append_assoc]

/-- A whole text is what is left of it. -/
theorem eq (h : Leaves cs bare) : bareCode cs = bare := by
  have hNil : bareCode [] = [] := by
    rw [bareCode, withoutBlockComments, withoutLineComments, withoutLineCommentsFrom,
      withEmptyLiterals]
  rw [← List.append_nil cs, h, hNil, List.append_nil]

theorem char (hSlash : c ≠ '/') (hQuote : c ≠ '\x22') : Leaves [c] [c] := by
  intro rest
  rw [bareCode, List.singleton_append, withoutBlockComments_cons hSlash,
    withoutLineComments_cons hSlash, withEmptyLiterals_cons hQuote]
  rfl

theorem slash : Leaves ['/', ' '] ['/', ' '] := by
  intro rest
  rw [bareCode, List.cons_append, List.singleton_append, withoutBlockComments_slash,
    withoutLineComments_slash, withEmptyLiterals_cons (by decide),
    withEmptyLiterals_cons (by decide)]
  rfl

theorem of_calm (h : Calm cs) : Leaves cs cs := by
  induction h with
  | nil => exact nil
  | slash _ ih => exact slash.append ih
  | cons hSlash hQuote _ ih => exact (char hSlash hQuote).append ih

theorem comment (h : IsComment cs) : Leaves cs [] := by
  obtain ⟨body, rfl, hEnd⟩ := h
  intro rest
  have hBlock : withoutBlockComments ('/' :: '*' :: (body ++ rest)) = withoutBlockComments rest := by
    rw [withoutBlockComments]
    split
    · rename_i after hAfter
      obtain rfl := Option.some.inj ((hEnd rest).symm.trans hAfter)
      rfl
    · rename_i hAfter
      rw [hEnd] at hAfter
      cases hAfter
  rw [bareCode, List.cons_append, List.cons_append, hBlock]
  rfl

theorem literal (hQuote : '\x22' ∉ cs) (hBackslash : '\x5c' ∉ cs) (hSlash : '/' ∉ cs) :
    Leaves ('\x22' :: (cs ++ ['\x22'])) ['\x22', '\x22'] := by
  intro rest
  have hWhole : '/' ∉ '\x22' :: (cs ++ ['\x22']) := by simp [hSlash]
  rw [bareCode, withoutBlockComments_append hWhole, withoutLineComments_append hWhole,
    List.cons_append, List.append_assoc, List.singleton_append, withEmptyLiterals]
  have hAfter := afterLiteral?_append hQuote hBackslash
    (withoutLineComments (withoutBlockComments rest))
  split
  · rename_i after hSome
    obtain rfl := Option.some.inj (hAfter.symm.trans hSome)
    rfl
  · rename_i hNone
    rw [hAfter] at hNone
    cases hNone

end Leaves

end BinderIdl.Java
