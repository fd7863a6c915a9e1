import BinderIdl.Proofs.Brackets.Balance

/-! Where a text is cut. A separator is outside of brackets if as many brackets were opened
before it as closed, also where more of them were closed than opened in between. A text is cut
at these separators and at no other, and the positions of the cuts fix the parts. -/
namespace BinderIdl.Brackets

/-- A separator stands at a position, and before it as many brackets are opened as closed. -/
def IsCut (separator : Char) (cs : List Char) (position : Nat) : Prop :=
  cs[position]? = some separator ∧ (cs.take position).count '<' = (cs.take position).count '>'

instance (separator : Char) (cs : List Char) : DecidablePred (IsCut separator cs) := fun _ =>
  inferInstanceAs (Decidable (_ ∧ _))

/-- The positions of the separators outside of brackets, in order. -/
def cuts (separator : Char) (cs : List Char) : List Nat :=
  (List.range cs.length).filter (IsCut separator cs)

/-- The positions between parts in the text that they form, in order: behind each part but the
last there is one character, and then the next part starts. -/
def boundaries : List (List Char) → List Nat
  | [] | [_] => []
  | part :: parts => part.length :: (boundaries parts).map (part.length + 1 + ·)

variable {separator : Char} {parts parts' : List (List Char)}

theorem boundaries_cons_cons (part next : List Char) (parts : List (List Char)) :
    boundaries (part :: next :: parts) =
      part.length :: (boundaries (next :: parts)).map (part.length + 1 + ·) := rfl

/-- One more character in front of the first part moves all boundaries by one. -/
theorem boundaries_cons_char (c : Char) (part : List Char) (parts : List (List Char)) :
    boundaries ((c :: part) :: parts) = (boundaries (part :: parts)).map (· + 1) := by
  cases parts with
  | nil => rfl
  | cons next parts =>
      rw [boundaries_cons_cons, boundaries_cons_cons part, List.map_cons, List.map_map,
        List.length_cons]
      congr 1
      apply List.map_congr_left
      intro position _
      simp only [Function.comp_apply]
      omega

theorem length_eq_length_boundaries (hNil : parts ≠ []) :
    parts.length = (boundaries parts).length + 1 := by
  induction parts with
  | nil => exact absurd rfl hNil
  | cons part parts ih =>
      cases parts with
      | nil => rfl
      | cons next parts =>
          rw [boundaries_cons_cons, List.length_cons, ih (by simp), List.length_cons,
            List.length_map]

/-- A text and the boundaries in it fix the parts. -/
theorem eq_of_boundaries_eq (hNil : parts ≠ []) (hNil' : parts' ≠ [])
    (hText : List.intercalate [separator] parts = List.intercalate [separator] parts')
    (hBoundaries : boundaries parts = boundaries parts') : parts = parts' := by
  induction parts generalizing parts' with
  | nil => exact absurd rfl hNil
  | cons part parts ih =>
      have hCount : (part :: parts).length = parts'.length := by
        rw [length_eq_length_boundaries hNil, hBoundaries, ← length_eq_length_boundaries hNil']
      obtain ⟨part', parts', rfl⟩ := List.exists_cons_of_ne_nil hNil'
      rw [List.length_cons, List.length_cons, Nat.succ.injEq] at hCount
      cases parts with
      | nil =>
          obtain rfl : parts' = [] := List.length_eq_zero_iff.mp hCount.symm
          rw [List.intercalate_singleton, List.intercalate_singleton] at hText
          rw [hText]
      | cons next parts =>
          obtain ⟨next', parts', rfl⟩ :=
            List.exists_cons_of_length_eq_add_one (hCount.symm.trans List.length_cons)
          rw [boundaries_cons_cons, boundaries_cons_cons, List.cons.injEq] at hBoundaries
          obtain ⟨hLength, hLater⟩ := hBoundaries
          rw [List.intercalate_cons_cons, List.intercalate_cons_cons, List.append_assoc,
            List.append_assoc] at hText
          obtain ⟨rfl, hRest⟩ := List.append_inj hText hLength
          have hShift : Function.Injective (part.length + 1 + ·) := fun _ _ h =>
            Nat.add_left_cancel h
          rw [ih (by simp) (by simp) (List.append_cancel_left hRest) (hShift.list_map hLater)]

/-- The positions of the separators outside of brackets in a text that stands at a depth. -/
def cutsAtDepth (separator : Char) (depth : Int) (cs : List Char) : List Nat :=
  (List.range cs.length).filter fun position =>
    cs[position]? = some separator ∧ depth + balance (cs.take position) = 0

theorem cuts_eq_cutsAtDepth (separator : Char) (cs : List Char) :
    cuts separator cs = cutsAtDepth separator 0 cs := by
  apply List.filter_congr
  intro position _
  have hEven : (cs.take position).count '<' = (cs.take position).count '>' ↔
      0 + balance (cs.take position) = 0 := by
    rw [balance]
    omega
  simp only [IsCut, hEven]

theorem cutsAtDepth_cons (separator : Char) (depth : Int) (c : Char) (cs : List Char) :
    cutsAtDepth separator depth (c :: cs) =
      (if c = separator ∧ depth = 0 then [0] else []) ++
        (cutsAtDepth separator (depth + weight c) cs).map (· + 1) := by
  have hLater : (List.map Nat.succ (List.range cs.length)).filter (fun position =>
      (c :: cs)[position]? = some separator ∧ depth + balance ((c :: cs).take position) = 0) =
      (cutsAtDepth separator (depth + weight c) cs).map (· + 1) := by
    rw [List.filter_map, cutsAtDepth]
    congr 1
    apply List.filter_congr
    intro position _
    simp only [Function.comp_apply, Nat.succ_eq_add_one, List.getElem?_cons_succ,
      List.take_succ_cons, balance_cons, Int.add_assoc]
  rw [cutsAtDepth, List.length_cons, List.range_succ_eq_map, List.filter_cons, hLater]
  simp only [List.getElem?_cons_zero, Option.some.injEq, List.take_zero, balance_nil, Int.add_zero,
    decide_eq_true_eq]
  split <;> rfl

/-- The boundaries between the parts of a text are the separators outside of brackets. -/
theorem boundaries_splitAtDepth (hWeight : weight separator = 0) (depth : Int) (cs : List Char) :
    boundaries (splitAtDepth separator depth cs) = cutsAtDepth separator depth cs := by
  induction cs generalizing depth with
  | nil => rfl
  | cons c cs ih =>
      have hRest := ih (depth + weight c)
      have hNil := splitAtDepth_ne_nil separator (depth + weight c) cs
      rw [cutsAtDepth_cons, ← hRest]
      simp only [splitAtDepth, separator_at_zero_iff c depth hWeight]
      obtain ⟨part, parts, hParts⟩ := List.exists_cons_of_ne_nil hNil
      rw [hParts]
      split
      · rw [boundaries_cons_cons, List.length_nil, Nat.zero_add]
        simp only [Nat.add_comm 1, List.singleton_append]
      · exact boundaries_cons_char c part parts

/-- The parts of a string, as lists of characters. -/
theorem map_toList_splitOn (separator : Char) (text : String) :
    (splitOn (String.singleton separator) text).map String.toList =
      splitAtDepth separator 0 text.toList := by
  rw [splitOn, String.toList_singleton]
  simp [split]

/-- A string is cut at the separators outside of brackets. Its parts with separators between them
are the string, the boundaries between them are exactly those separators, so there is one part
more than there are of these, and nothing else divides the string there. -/
theorem splitOn_unique_at_cuts (separator : Char) (text : String) (hOpen : separator ≠ '<')
    (hClose : separator ≠ '>') :
    let parts := splitOn (String.singleton separator) text
    (String.singleton separator).intercalate parts = text ∧
      boundaries (parts.map String.toList) = cuts separator text.toList ∧
      parts.length = (cuts separator text.toList).length + 1 ∧
      ∀ others : List String, others ≠ [] →
        (String.singleton separator).intercalate others = text →
        boundaries (others.map String.toList) = cuts separator text.toList → others = parts := by
  intro parts
  have hParts : parts.map String.toList = splitAtDepth separator 0 text.toList :=
    map_toList_splitOn separator text
  have hNil : parts.map String.toList ≠ [] := by
    rw [hParts]
    exact splitAtDepth_ne_nil separator 0 text.toList
  have hJoin : (String.singleton separator).intercalate parts = text := by
    rw [← String.toList_inj, String.toList_intercalate, String.toList_singleton, hParts,
      intercalate_splitAtDepth]
  have hBoundaries : boundaries (parts.map String.toList) = cuts separator text.toList := by
    rw [hParts, cuts_eq_cutsAtDepth, boundaries_splitAtDepth (weight_eq_zero hOpen hClose)]
  refine ⟨hJoin, hBoundaries, ?_, fun others hOthers hSame hCuts => ?_⟩
  · rw [← hBoundaries, ← length_eq_length_boundaries hNil, List.length_map]
  · have hText := congrArg String.toList (hSame.trans hJoin.symm)
    rw [String.toList_intercalate, String.toList_intercalate, String.toList_singleton] at hText
    have hEqual : others.map String.toList = parts.map String.toList :=
      eq_of_boundaries_eq (by simpa using hOthers) hNil hText (hCuts.trans hBoundaries.symm)
    exact List.map_injective_iff.mpr (fun _ _ => String.toList_inj.mp) hEqual

/-- The first comma stands behind a bracket that closes nothing, and the last one in a bracket
that is not closed. -/
theorem splitOn_unique_at_cuts_unbalanced :
    cuts ',' "a>,b<,c,<d,e".toList = [5, 7] ∧
      splitOn "," "a>,b<,c,<d,e" = ["a>,b<", "c", "<d,e"] := by
  have hCuts : cuts ',' "a>,b<,c,<d,e".toList = [5, 7] := by decide
  obtain ⟨-, -, -, hUnique⟩ :=
    splitOn_unique_at_cuts ',' "a>,b<,c,<d,e" (by decide) (by decide)
  refine ⟨hCuts, (hUnique ["a>,b<", "c", "<d,e"] (by simp) (by decide) ?_).symm⟩
  rw [hCuts]
  decide

end BinderIdl.Brackets
