import BinderIdl.Proofs.Token.Layout

/-! Places in a text. A place counts line feeds, and what stands there is found again in the line
with that number. In a text without other line breaks the shown lines are the lines between the
line feeds, so a token is shown in its own line at its own column. -/
namespace BinderIdl

namespace Text

/-- The only line breaks of a text are line feeds. -/
def FeedsOnly (cs : List Char) : Prop := ∀ c ∈ cs, isLineBreak c = true → c = '\n'

theorem splitOn_cons (c : Char) (cs : List Char) :
    (c :: cs).splitOn '\n' =
      if c = '\n' then [] :: cs.splitOn '\n' else (cs.splitOn '\n').modifyHead (c :: ·) := by
  rw [List.splitOn, List.splitOnP_cons_eq_if_modifyHead]
  simp only [beq_iff_eq, List.splitOn]

theorem lines_feed (cs : List Char) : lines ('\n' :: cs) = [] :: lines cs := by
  rw [lines]
  · rw [if_pos (by decide)]
  · exact fun _ h _ => absurd h (by decide)

theorem lines_cons {c : Char} (h : isLineBreak c = false) (cs : List Char) :
    lines (c :: cs) = (c :: (lines cs).headD []) :: (lines cs).tail := by
  rw [lines]
  · rw [if_neg (by simp [h])]
    cases lines cs <;> rfl
  · rintro cs' rfl
    cases h

/-- The shown lines are those between the line feeds, without an empty one at the end. -/
theorem splitOn_eq_lines {cs : List Char} (h : FeedsOnly cs) :
    cs.splitOn '\n' = lines cs ∨ cs.splitOn '\n' = lines cs ++ [[]] := by
  induction cs with
  | nil => exact .inr rfl
  | cons c cs ih =>
      obtain ⟨hHead, hTail⟩ := List.forall_mem_cons.mp h
      rw [splitOn_cons]
      split
      · rename_i hFeed
        subst hFeed
        rw [lines_feed]
        exact (ih hTail).imp (congrArg ([] :: ·)) (congrArg ([] :: ·))
      · rename_i hFeed
        have hBreak : isLineBreak c = false := by
          rw [Bool.eq_false_iff]
          exact fun hc => hFeed (hHead hc)
        rw [lines_cons hBreak]
        cases hLines : lines cs with
        | nil =>
            rcases ih hTail with hSplit | hSplit
            · exact absurd (hSplit.trans hLines) (List.splitOn_ne_nil _ _)
            · rw [hSplit, hLines]
              exact .inl rfl
        | cons l ls =>
            rw [hLines] at ih
            rcases ih hTail with hSplit | hSplit
            · exact .inl (by rw [hSplit]; rfl)
            · exact .inr (by rw [hSplit]; rfl)

/-- A line that is not empty is shown under its number. -/
theorem lines_getElem? {cs l : List Char} {k : Nat} (h : FeedsOnly cs) (hLine : l ≠ [])
    (hSplit : (cs.splitOn '\n')[k]? = some l) : (lines cs)[k]? = some l := by
  rcases splitOn_eq_lines h with hLines | hLines
  · rwa [← hLines]
  · rw [hLines, List.getElem?_append] at hSplit
    split at hSplit
    · exact hSplit
    · exact absurd (List.mem_singleton.mp (List.mem_of_getElem? hSplit)) hLine

theorem lineAfter_concat (before : List Char) (c : Char) :
    lineAfter (before ++ [c]) = if c = '\n' then lineAfter before + 1 else lineAfter before := by
  rw [lineAfter, List.count_append, List.count_singleton]
  by_cases h : c = '\n' <;> simp [h, lineAfter, Nat.add_assoc]

theorem columnAfter_concat (before : List Char) (c : Char) :
    columnAfter (before ++ [c]) = if c = '\n' then 1 else columnAfter before + 1 := by
  rw [columnAfter, List.reverse_concat, List.takeWhile_cons]
  by_cases h : c = '\n' <;> simp [h, columnAfter, Nat.add_assoc]

/-- A text is some whole lines and the beginning of another one, as many and as long as the place
behind it says. -/
theorem exists_begun_line (before : List Char) : ∃ (whole : List (List Char)) (begun : List Char),
    whole.length + 1 = lineAfter before ∧ begun.length + 1 = columnAfter before ∧
      ∀ rest, (before ++ rest).splitOn '\n' =
        whole ++ (rest.splitOn '\n').modifyHead (begun ++ ·) := by
  induction before using List.reverseRecOn with
  | nil =>
      refine ⟨[], [], rfl, rfl, fun rest => ?_⟩
      rw [List.nil_append]
      cases rest.splitOn '\n' <;> rfl
  | append_singleton before c ih =>
      obtain ⟨whole, begun, hLine, hColumn, hSplit⟩ := ih
      rw [lineAfter_concat, columnAfter_concat]
      by_cases hFeed : c = '\n'
      · refine ⟨whole ++ [begun], [], ?_, by rw [if_pos hFeed]; rfl, fun rest => ?_⟩
        · rw [if_pos hFeed, List.length_append, List.length_singleton, hLine]
        · rw [List.append_assoc, List.singleton_append, hSplit, splitOn_cons, if_pos hFeed,
            List.modifyHead_cons, List.append_nil, List.append_assoc]
          cases rest.splitOn '\n' <;> rfl
      · refine ⟨whole, begun ++ [c], ?_, ?_, fun rest => ?_⟩
        · rw [if_neg hFeed, hLine]
        · rw [if_neg hFeed, List.length_append, List.length_singleton, hColumn]
        · rw [List.append_assoc, List.singleton_append, hSplit, splitOn_cons, if_neg hFeed]
          cases rest.splitOn '\n' <;> simp

/-- What stands behind a text is in the line and at the column of that place. -/
theorem exists_line (before : List Char) {c : Char} (hFeed : c ≠ '\n') (after : List Char) :
    ∃ l, ((before ++ c :: after).splitOn '\n')[lineAfter before - 1]? = some l ∧
      l[columnAfter before - 1]? = some c := by
  obtain ⟨whole, begun, hLine, hColumn, hSplit⟩ := exists_begun_line before
  obtain ⟨l, ls, hRest⟩ := List.exists_cons_of_ne_nil (List.splitOn_ne_nil '\n' after)
  refine ⟨begun ++ c :: l, ?_, ?_⟩
  · rw [hSplit, splitOn_cons, if_neg hFeed, hRest, ← hLine]
    simp
  · rw [← hColumn]
    simp

end Text

/-- A token stands in a text at its own place. -/
def Token.StandsIn (t : Token) (cs : List Char) : Prop :=
  ∃ before c value after, cs = before ++ c :: (value ++ after) ∧ t.value.toList = c :: value ∧
    Text.isBlank c = false ∧ t.line = lineAfter before ∧ t.column = columnAfter before

/-- Each token of lexemes stands at its place in their text. -/
theorem TokensOf.standsIn {before : List Char} {ls : List Lexeme} {ts : List Token}
    (h : TokensOf before ls ts) {cs : List Char} (hSegments : Segmented cs ls) :
    ∀ t ∈ ts, t.StandsIn (before ++ cs) := by
  induction h generalizing cs with
  | nil => simp
  | skip _ _ ih =>
      cases hSegments with
      | cons _ hRest =>
          rw [← List.append_assoc]
          exact ih hRest
  | token hCls _ ih =>
      cases hSegments with
      | @cons _ _ rest hStands hRest =>
          obtain ⟨c, value, hText, hBlank⟩ := hStands.head_token hCls
          rw [List.forall_mem_cons]
          constructor
          · refine ⟨_, c, value, rest, ?_, ?_, hBlank, rfl, rfl⟩
            · rw [hText, List.cons_append]
            · rw [String.toList_ofList, hText]
          · rw [← List.append_assoc]
            exact ih hRest

namespace Source

variable {filename : Option String} {text : String} {s : Source}

/-- The line with the number of a token is shown, and the token starts at its column. -/
theorem exists_line_of_read (h : read filename text = .ok s) (hFeeds : Text.FeedsOnly text.toList)
    {t : Token} (ht : t ∈ s.tokens) :
    ∃ l c, (text.toList.splitOn '\n')[t.line - 1]? = some l ∧
      s.line? t.line = some (String.ofList l) ∧ l[t.column - 1]? = some c ∧
      t.value.toList.head? = some c := by
  obtain ⟨-, hRead, ls, hSegments, hTokens⟩ := segmented_of_read h
  obtain ⟨before, c, value, after, hText, hValue, hBlank, hLine, hColumn⟩ :=
    hTokens.standsIn hSegments t ht
  rw [List.nil_append] at hText
  have hFeed : c ≠ '\n' := by
    rintro rfl
    cases hBlank
  obtain ⟨l, hSplit, hAt⟩ := Text.exists_line before hFeed (value ++ after)
  rw [← hText, ← hLine] at hSplit
  rw [← hColumn] at hAt
  refine ⟨l, c, hSplit, ?_, hAt, by rw [hValue]; rfl⟩
  have hNonempty : l ≠ [] := List.ne_nil_of_mem (List.mem_of_getElem? hAt)
  have hShown := Text.lines_getElem? hFeeds hNonempty hSplit
  have hOne : 1 ≤ t.line := by
    rw [hLine, lineAfter]
    omega
  rw [line?, hRead, Text.lineAt?, if_pos (by omega)]
  rw [show ((t.line : Int) - 1).toNat = t.line - 1 by omega, hShown]
  rfl

/-- A position behind the last token points at the last one. -/
theorem tokenAt?_natCast (s : Source) (n : Nat) :
    s.tokenAt? n = s.tokens[min n (s.tokens.length - 1)]? := by
  rw [tokenAt?]
  cases hTokens : s.tokens with
  | nil => simp
  | cons t ts =>
      have hIndex : min (n : Int) ((t :: ts).length - 1) =
          (min n ((t :: ts).length - 1) : Nat) := by
        rw [List.length_cons]
        omega
      simp only [hIndex]
      rw [if_neg (by omega), if_neg (by omega), Int.toNat_natCast]

/-- The diagnostic of a complaint at a token. -/
def diagnosticAt (s : Source) (t : Token) (complaint : Complaint) (message : String) :
    Diagnostic :=
  { complaint, message, filename := s.filename, line := some t.line, column := some t.column,
    sourceLine := s.line? t.line }

end Source

theorem Diagnostic.at?_of_getElem? {s : Source} {n : Nat} {t : Token}
    (h : s.tokens[min n (s.tokens.length - 1)]? = some t) (complaint : Complaint)
    (message : String) :
    Diagnostic.at? complaint message (some s) (some n) =
      some (s.diagnosticAt t complaint message) := by
  have hTokens : s.tokens.isEmpty = false := by
    rw [List.isEmpty_eq_false_iff]
    exact List.ne_nil_of_mem (List.mem_of_getElem? h)
  rw [← Source.tokenAt?_natCast] at h
  simp only [at?, hTokens, h, Bool.false_eq_true, if_false, Option.map_some]
  rfl

end BinderIdl
