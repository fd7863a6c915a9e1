import BinderIdl.Proofs.TypeName.Respacing

/-! How a type name is taken apart: from the right, where the array suffixes
are, then at its first opening bracket, then at the commas outside brackets.
Each cut falls between two parts of the name, so blanks there change nothing. -/
namespace BinderIdl

namespace Brackets

/-- The depth behind a text, unless a separator stands at depth zero in it. -/
def depthAfter? (separator : Char) (depth : Int) : List Char → Option Int
  | [] => some depth
  | c :: cs =>
      if c = separator ∧ depth + weight c = 0 then none
      else depthAfter? separator (depth + weight c) cs

variable {separator : Char} {depth depth' : Int} {cs ds : List Char}

theorem depthAfter?_append :
    depthAfter? separator depth (cs ++ ds) =
      (depthAfter? separator depth cs).bind fun after => depthAfter? separator after ds := by
  induction cs generalizing depth with
  | nil => rfl
  | cons c cs ih =>
      simp only [List.cons_append, depthAfter?]
      split
      · rfl
      · exact ih

theorem depthAfter?_append_of (h : depthAfter? separator depth cs = some depth') :
    depthAfter? separator depth (cs ++ ds) = depthAfter? separator depth' ds := by
  rw [depthAfter?_append, h, Option.bind_some]

/-- Characters that are neither brackets nor separators leave the depth alone. -/
theorem depthAfter?_of_forall (h : ∀ c ∈ cs, c ≠ separator ∧ c ≠ '<' ∧ c ≠ '>') :
    depthAfter? separator depth cs = some depth := by
  induction cs with
  | nil => rfl
  | cons c cs ih =>
      rw [List.forall_mem_cons] at h
      obtain ⟨⟨hSeparator, hOpen, hClose⟩, hRest⟩ := h
      rw [depthAfter?, if_neg (fun hSame => hSeparator hSame.1), weight, if_neg hOpen,
        if_neg hClose, Int.add_zero]
      exact ih hRest

/-- A text without separators at depth zero belongs to the first part. -/
theorem splitAtDepth_append (h : depthAfter? separator depth cs = some depth')
    {part : List Char} {parts : List (List Char)}
    (hParts : splitAtDepth separator depth' ds = part :: parts) :
    splitAtDepth separator depth (cs ++ ds) = (cs ++ part) :: parts := by
  induction cs generalizing depth with
  | nil =>
      cases h
      exact hParts
  | cons c cs ih =>
      rw [depthAfter?] at h
      split at h
      · cases h
      · rename_i hNot
        simp only [List.cons_append, splitAtDepth, if_neg hNot, ih h]

end Brackets

namespace TypeName

open Text Brackets

/-- The type name in front of array suffixes. -/
def readCore (text core : List Char) (depth : Nat) : Except TypeFault TypeName :=
  match core with
  | '?' :: bound =>
      let words := cutWord (strip bound)
      if words.1.isEmpty then .ok (mk "?" [] 0 (some .any))
      else
        match boundWord? words.1 with
        | none => .error (.wildcard (String.ofList text))
        | some w =>
            if words.2.isEmpty then .error (.wildcard (String.ofList text))
            else (read words.2).map fun t => mk t.base t.arguments (t.depth + depth) (some w)
  | rest =>
      match rest.dropWhile (· != '<') with
      | [] => (readBase text rest).map fun base => mk base [] depth none
      | _ :: inner =>
          if rest.getLast? != some '>' then .error (.arguments (String.ofList text))
          else do
            let arguments ← (split ',' inner.dropLast).mapM read
            let base ← readBase text (rest.takeWhile (· != '<'))
            return mk base arguments depth none

section Reading

variable {text core : List Char} {depth : Nat}

/-- Reading takes the suffixes off and then reads what is in front of them. -/
theorem read_of_cut (hCut : cutSuffixes 0 (strip text).reverse = some (depth, core.reverse)) :
    read text = readCore text core depth := by
  rw [read]
  split
  · rename_i hNone
    rw [hCut] at hNone
    cases hNone
  · rename_i hSome
    rw [hCut] at hSome
    cases hSome
    split
    · rename_i bound hBound
      rw [List.reverse_reverse] at hBound
      subst hBound
      simp only [readCore]
      cases boundWord? (cutWord (strip bound)).1 with
      | none => rfl
      | some w => cases read (cutWord (strip bound)).2 <;> rfl
    · rename_i hNot
      rw [List.reverse_reverse] at hNot
      rw [readCore.eq_2 _ _ _ hNot]
      simp only [List.reverse_reverse]
      split
      · rename_i hNil
        rw [List.reverse_reverse] at hNil
        simp only [hNil]
        cases readBase text core <;> rfl
      · rename_i hCons
        rw [List.reverse_reverse] at hCons
        simp only [hCons]
        rw [List.mapM_subtype (g := read) fun _ _ => rfl, List.unattach_attach]
        cases (split ',' _).mapM read with
        | error => rfl
        | ok => cases readBase text (core.takeWhile (· != '<')) <;> rfl

theorem ne_bracket_of_not_mem {cs : List Char} (h : '<' ∉ cs) : ∀ c ∈ cs, (c != '<') = true := by
  intro c hc
  rw [bne_iff_ne]
  rintro rfl
  exact h hc

/-- A core without brackets and wildcard is a base. -/
theorem readCore_name {base : String} (hFirst : core.head? ≠ some '?') (hBracket : '<' ∉ core)
    (hBase : readBase text core = .ok base) :
    readCore text core depth = .ok (mk base [] depth none) := by
  have hNot : ∀ bound, core = '?' :: bound → False := by
    rintro bound rfl
    exact hFirst rfl
  have hDrop : (core ++ []).dropWhile (· != '<') = [].dropWhile (· != '<') :=
    List.dropWhile_append_of_pos (ne_bracket_of_not_mem hBracket)
  rw [List.append_nil, List.dropWhile_nil] at hDrop
  rw [readCore.eq_2 _ _ _ hNot, hDrop, hBase]
  rfl

/-- A core with brackets is a base and the texts between the outer commas. -/
theorem readCore_arguments {base : String} {name inner : List Char} {arguments : List TypeName}
    (hCore : core = name ++ '<' :: (inner ++ ['>'])) (hFirst : core.head? ≠ some '?')
    (hBracket : '<' ∉ name) (hArguments : (split ',' inner).mapM read = .ok arguments)
    (hBase : readBase text name = .ok base) :
    readCore text core depth = .ok (mk base arguments depth none) := by
  have hNot : ∀ bound, core = '?' :: bound → False := by
    intro bound hBound
    exact hFirst (by rw [hBound]; rfl)
  have hName := ne_bracket_of_not_mem hBracket
  have hDrop : core.dropWhile (· != '<') = '<' :: (inner ++ ['>']) := by
    rw [hCore, List.dropWhile_append_of_pos hName, List.dropWhile_cons_of_neg (by decide)]
  have hTake : core.takeWhile (· != '<') = name := by
    rw [hCore, List.takeWhile_append_of_pos hName, List.takeWhile_cons_of_neg (by decide),
      List.append_nil]
  have hLast : core.getLast? = some '>' := by
    rw [hCore, List.getLast?_append, List.getLast?_cons, List.getLast?_concat]
    rfl
  simp only [readCore.eq_2 _ _ _ hNot, hDrop, hTake, hLast, bne_self_eq_false, Bool.false_eq_true,
    if_false, List.dropLast_concat, hArguments, hBase]
  rfl

/-- A wildcard with a word and a bound takes the suffixes behind its bound. -/
theorem readCore_bound {bound rest : List Char} {w : Wildcard} {t : TypeName} (hBound : w ≠ .any)
    (hWord : cutWord (strip bound) = (w.word.toList, rest)) (hNil : rest ≠ [])
    (hRead : read rest = .ok t) :
    readCore text ('?' :: bound) depth =
      .ok (mk t.base t.arguments (t.depth + depth) (some w)) := by
  have hSome : w.word.toList.isEmpty = false ∧ boundWord? w.word.toList = some w := by
    cases w with
    | any => exact absurd rfl hBound
    | _ => decide
  have hRest : rest.isEmpty = false := by simpa using hNil
  simp only [readCore, hWord, hSome, hRest, hRead, Bool.false_eq_true, if_false]
  rfl

end Reading

theorem suffixes_succ (depth : Nat) : suffixes (depth + 1) = suffixes depth ++ ['[', ']'] := by
  simp [suffixes, List.replicate_succ']

theorem cutSuffixes_pair (inner : Nat) {cs rest : List Char}
    (h : cs.dropWhile isBlank = '[' :: rest) :
    cutSuffixes inner (']' :: cs) = cutSuffixes (inner + 1) (rest.dropWhile isBlank) := by
  rw [cutSuffixes]
  split
  · rename_i hSome
    rw [h] at hSome
    cases hSome
    rfl
  · rename_i hNone
    exact absurd h (hNone rest)

/-- The suffixes of a text are counted and taken off, with the blanks between them. -/
theorem cutSuffixes_append {depth : Nat} {shown cs : List Char}
    (h : Respaced false (suffixes depth) shown) (hEnd : (cs.dropWhile isBlank).head? ≠ some ']')
    (inner : Nat) : cutSuffixes inner ((shown.reverse ++ cs).dropWhile isBlank) =
      some (inner + depth, cs.dropWhile isBlank) := by
  induction depth generalizing shown inner with
  | zero =>
      rw [h.allBlank.reverse.dropWhile_append, cutSuffixes]
      · rfl
      · rintro rest hRest
        exact hEnd (by rw [hRest]; rfl)
  | succ depth ih =>
      rw [suffixes_succ] at h
      obtain ⟨front, pair, rfl, hFront, hPair⟩ := h.exists_append
      obtain ⟨before, closing, hBefore, rfl, hClosing⟩ := hPair.exists_cons
      obtain ⟨between, behind, hBetween, rfl, hBehind⟩ := hClosing.exists_cons
      have hText : ((front ++ (before ++ '[' :: (between ++ ']' :: behind))).reverse ++ cs) =
          behind.reverse ++ ']' :: (between.reverse ++ '[' ::
            (before.reverse ++ (front.reverse ++ cs))) := by simp
      rw [hText, hBehind.allBlank.reverse.dropWhile_append, dropWhile_isBlank_cons (by decide),
        cutSuffixes_pair inner (hBetween.reverse.dropWhile_append _),
        hBefore.reverse.dropWhile_append, ih hFront, Nat.add_assoc, Nat.add_comm 1]

/-- The same for a whole text, given the last character before the suffixes. -/
theorem cutSuffixes_strip {depth : Nat} (front : List Char) {blanks shown : List Char} {c : Char}
    (h : Respaced false (suffixes depth) shown) (hNot : isBlank c = false) (hc : c ≠ ']')
    (hBlank : AllBlank blanks) :
    cutSuffixes 0 (strip (front ++ c :: blanks ++ shown)).reverse =
      some (depth, (strip (front ++ c :: blanks)).reverse) := by
  have hReverse : ∀ cs, (strip cs).reverse = (stripLeft cs).reverse.dropWhile isBlank := by
    intro cs
    rw [strip, stripRight, List.reverse_reverse]
  have hText : stripLeft (front ++ c :: blanks ++ shown) =
      stripLeft (front ++ c :: blanks) ++ shown := by
    rw [List.append_assoc, List.cons_append, stripLeft_append_cons _ hNot,
      stripLeft_append_cons _ hNot, List.append_assoc, List.cons_append]
  have hEnd : ((stripLeft (front ++ c :: blanks)).reverse.dropWhile isBlank).head? ≠ some ']' := by
    rw [stripLeft_append_cons _ hNot, List.reverse_append, List.reverse_cons, List.append_assoc,
      hBlank.reverse.dropWhile_append, List.cons_append, dropWhile_isBlank_cons hNot]
    simpa using hc
  have hCut := cutSuffixes_append h hEnd 0
  rwa [← List.reverse_append, ← hText, ← hReverse, ← hReverse, Nat.zero_add] at hCut

/-- Blanks do not change the depth. -/
theorem Respaced.depthAfter?_eq {inside : Bool} {cs text : List Char}
    (h : Respaced inside cs text) (depth : Int) :
    depthAfter? ',' depth text = depthAfter? ',' depth cs := by
  induction h generalizing depth with
  | nil => rfl
  | keep _ ih =>
      simp only [depthAfter?]
      split
      · rfl
      · exact ih _
  | @blank _ b _ _ hBlank _ _ ih =>
      have hSign : b ≠ ',' ∧ b ≠ '<' ∧ b ≠ '>' := by
        refine ⟨?_, ?_, ?_⟩ <;> (rintro rfl; revert hBlank; decide)
      rw [depthAfter?, if_neg (fun hSame => hSign.1 hSame.1), weight, if_neg hSign.2.1,
        if_neg hSign.2.2, Int.add_zero]
      exact ih depth

end TypeName

end BinderIdl
