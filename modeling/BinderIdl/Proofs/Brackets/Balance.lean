import Mathlib.Data.List.Infix
import BinderIdl.Proofs.Brackets.Parts

/-! The depth of a text in terms of the brackets in it: how many more are opened than closed.
A text with matched brackets ends at the depth where it starts, and a character is outside of
them where as many were closed as opened. -/
namespace BinderIdl.Brackets

/-- How many more brackets a text opens than it closes. -/
def balance (cs : List Char) : Int := cs.count '<' - cs.count '>'

@[simp] theorem balance_nil : balance [] = 0 := rfl

theorem balance_cons (c : Char) (cs : List Char) : balance (c :: cs) = weight c + balance cs := by
  rw [balance, balance, weight]
  by_cases hOpen : c = '<'
  · subst hOpen
    rw [List.count_cons_self, List.count_cons_of_ne (by decide), if_pos rfl]
    omega
  · by_cases hClose : c = '>'
    · subst hClose
      rw [List.count_cons_self, List.count_cons_of_ne (by decide), if_neg (by decide), if_pos rfl]
      omega
    · rw [List.count_cons_of_ne hOpen, List.count_cons_of_ne hClose, if_neg hOpen, if_neg hClose]
      omega

theorem weight_eq_zero {c : Char} (hOpen : c ≠ '<') (hClose : c ≠ '>') : weight c = 0 := by
  rw [weight, if_neg hOpen, if_neg hClose]

variable {separator : Char} {depth depth' : Int} {cs ds : List Char}

/-- A separator does not change the depth that it is compared at. -/
theorem separator_at_zero_iff (c : Char) (depth : Int) (hWeight : weight separator = 0) :
    c = separator ∧ depth + weight c = 0 ↔ c = separator ∧ depth = 0 := by
  refine and_congr_right fun hSame => ?_
  rw [hSame, hWeight, Int.add_zero]

/-- No separator is outside of brackets, and the text ends at the depth that its brackets say. -/
theorem depthAfter?_eq_some_iff (hWeight : weight separator = 0) :
    depthAfter? separator depth cs = some depth' ↔
      depth' = depth + balance cs ∧
        ∀ front, front ++ [separator] <+: cs → depth + balance front ≠ 0 := by
  induction cs generalizing depth with
  | nil =>
      rw [depthAfter?, balance_nil, Int.add_zero, Option.some.injEq, eq_comm (a := depth)]
      refine ⟨fun h => ⟨h, fun front hFront => ?_⟩, And.left⟩
      exact absurd (List.prefix_nil.mp hFront) (by simp)
  | cons c cs ih =>
      have hCut := separator_at_zero_iff c depth hWeight
      rw [depthAfter?, balance_cons]
      split
      · rename_i hHere
        obtain ⟨rfl, rfl⟩ := hCut.mp hHere
        refine ⟨fun h => (by cases h), fun h => ?_⟩
        exact absurd rfl (h.2 [] (by simp))
      · rename_i hNot
        rw [ih, Int.add_assoc]
        refine and_congr_right fun _ => ⟨fun h front hFront => ?_, fun h front hFront => ?_⟩
        · cases front with
          | nil =>
              rw [List.nil_append, List.cons_prefix_cons] at hFront
              rw [balance_nil, Int.add_zero]
              intro hZero
              exact hNot (hCut.mpr ⟨hFront.1.symm, hZero⟩)
          | cons d front =>
              rw [List.cons_append, List.cons_prefix_cons] at hFront
              have hRest := h front hFront.2
              rwa [hFront.1, balance_cons, ← Int.add_assoc]
        · have hHere : (c :: front) ++ [separator] <+: c :: cs :=
            List.cons_prefix_cons.mpr ⟨rfl, hFront⟩
          have hRest := h (c :: front) hHere
          rwa [balance_cons, ← Int.add_assoc] at hRest

/-- As many brackets are closed as opened, and none is closed that was not opened. -/
structure Matched (cs : List Char) : Prop where
  sound : ∀ front, front <+: cs → front.count '>' ≤ front.count '<'
  even : cs.count '>' = cs.count '<'

/-- A character stands nowhere outside brackets. -/
def Encloses (cs : List Char) (c : Char) : Prop :=
  ∀ front, front ++ [c] <+: cs → front.count '>' < front.count '<'

instance : DecidablePred Matched := fun cs =>
  decidable_of_iff ((∀ front ∈ cs.inits, front.count '>' ≤ front.count '<') ∧
      cs.count '>' = cs.count '<')
    ⟨fun h => ⟨fun front hFront => h.1 front ((List.mem_inits front cs).mpr hFront), h.2⟩,
      fun h => ⟨fun front hFront => h.sound front ((List.mem_inits front cs).mp hFront), h.even⟩⟩

instance (cs : List Char) : DecidablePred (Encloses cs) := fun c =>
  decidable_of_iff
    (∀ front ∈ cs.inits, front ++ [c] <+: cs → front.count '>' < front.count '<')
    ⟨fun h front hFront =>
        have hInit := (List.prefix_append front [c]).trans hFront
        h front ((List.mem_inits front cs).mpr hInit) hFront,
      fun h front _ => h front⟩

/-- A text that leaves the depth as it is, and is not cut at a separator. -/
def Even (separator : Char) (cs : List Char) : Prop := depthAfter? separator 0 cs = some 0

theorem Matched.even_of_encloses (h : Matched cs) (hInside : Encloses cs separator)
    (hWeight : weight separator = 0) : Even separator cs := by
  refine (depthAfter?_eq_some_iff hWeight).mpr ⟨?_, fun front hFront => ?_⟩
  · rw [balance, h.even]
    omega
  · have hMore := hInside front hFront
    rw [balance]
    omega

namespace Even

theorem append (h : Even separator cs) (h' : Even separator ds) : Even separator (cs ++ ds) :=
  (depthAfter?_append_of h).trans h'

theorem of_forall (h : ∀ c ∈ cs, c ≠ separator ∧ c ≠ '<' ∧ c ≠ '>') : Even separator cs :=
  depthAfter?_of_forall h

/-- Even texts with even ones between them. -/
theorem intercalate {parts : List (List Char)} (hSeparator : Even separator ds)
    (h : ∀ part ∈ parts, Even separator part) : Even separator (List.intercalate ds parts) := by
  induction parts with
  | nil => exact .of_forall (by simp [List.intercalate_nil])
  | cons part parts ih =>
      rw [List.forall_mem_cons] at h
      cases parts with
      | nil =>
          rw [List.intercalate_singleton]
          exact h.1
      | cons next parts =>
          rw [List.intercalate_cons_cons]
          exact (h.1.append hSeparator).append (ih h.2)

end Even

/-- Even texts are the parts of what they form. -/
theorem split_intercalate {parts : List (List Char)} (hWeight : weight separator = 0)
    (hNil : parts ≠ []) (h : ∀ part ∈ parts, Even separator part) :
    split separator (List.intercalate [separator] parts) = parts :=
  (sideBySide_of_forall hNil h).splitAtDepth_intercalate hWeight

end BinderIdl.Brackets
