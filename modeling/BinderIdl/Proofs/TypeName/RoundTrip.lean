import BinderIdl.Proofs.Files.Paths
import BinderIdl.Proofs.TypeName.Reading

/-! Reading undoes printing. The trees that can be told from their printed form
have bases without signs of their own. By induction over such a tree, every
respacing of what it prints is read as the tree: its text closes the brackets
that it opens, so the outer commas are those between its own type arguments. -/
namespace BinderIdl

namespace TypeName

open Text Brackets

/-- A base that can be told from the signs around it: names without blanks and
brackets, one before, between and behind the dots. -/
structure IsName (base : List Char) : Prop where
  legal : ∀ c ∈ base, isBlank c = false ∧ c ∉ ['<', '>', ',', '[', ']', '?']
  parts : ∀ part ∈ Path.pieces '.' base, part ≠ []

instance (base : List Char) : Decidable (IsName base) :=
  have := List.decidableBAll (fun c => isBlank c = false ∧ c ∉ ['<', '>', ',', '[', ']', '?']) base
  have := List.decidableBAll (fun part => part ≠ []) (Path.pieces '.' base)
  decidable_of_iff ((∀ c ∈ base, isBlank c = false ∧ c ∉ ['<', '>', ',', '[', ']', '?']) ∧
    ∀ part ∈ Path.pieces '.' base, part ≠ []) ⟨fun h => ⟨h.1, h.2⟩, fun h => ⟨h.legal, h.parts⟩⟩

/-- The type names that are trees of bases. A bare wildcard is one of its own. -/
inductive WellFormed : TypeName → Prop
  | any : WellFormed (mk "?" [] 0 (some .any))
  | named {base : String} {arguments : List TypeName} {depth : Nat} {wildcard : Option Wildcard}
      (hBase : IsName base.toList) (hArguments : ∀ a ∈ arguments, WellFormed a)
      (hBound : wildcard ≠ some .any) : WellFormed (mk base arguments depth wildcard)

/-- The type arguments of a printed name, brackets included. -/
def argumentChars : List TypeName → List Char
  | [] => []
  | a :: as => '<' :: (chars a ++ furtherChars as) ++ ['>']

theorem chars_none (base : String) (arguments : List TypeName) (depth : Nat) :
    chars (mk base arguments depth none) =
      base.toList ++ argumentChars arguments ++ suffixes depth := by
  cases arguments <;> simp only [chars, argumentChars]

theorem chars_some (base : String) (arguments : List TypeName) (depth : Nat) {w : Wildcard}
    (hBound : w ≠ .any) :
    chars (mk base arguments depth (some w)) =
      '?' :: ' ' :: (w.word.toList ++ ' ' :: chars (mk base arguments 0 none)) ++
        suffixes depth := by
  cases w with
  | any => exact absurd rfl hBound
  | _ => cases arguments <;> simp [chars, suffixes]

theorem exists_of_hasEmptyPart {cs : List Char} (h : hasEmptyPart cs = true) :
    ∃ front back, cs = front ++ '.' :: '.' :: back := by
  fun_induction hasEmptyPart cs with
  | case1 back => exact ⟨[], back, rfl⟩
  | case2 c cs _ ih =>
      obtain ⟨front, back, rfl⟩ := ih h
      exact ⟨c :: front, back, rfl⟩
  | case3 => cases h

namespace IsName

variable {base : List Char}

theorem ne_nil (h : IsName base) : base ≠ [] := by
  rintro rfl
  exact h.parts [] (by simp [Path.pieces]) rfl

/-- No dot stands next to another one or at an end. -/
theorem not_dots (h : IsName base) {front back : List Char} (hBase : base = front ++ '.' :: back) :
    front ≠ [] ∧ back ≠ [] ∧ back.head? ≠ some '.' := by
  have hParts := h.parts
  rw [hBase, Path.pieces_append_cons] at hParts
  refine ⟨?_, ?_, ?_⟩
  · rintro rfl
    exact hParts [] (by simp [Path.pieces]) rfl
  · rintro rfl
    exact hParts [] (by simp [Path.pieces]) rfl
  · intro hDot
    obtain ⟨more, rfl⟩ := List.head?_eq_some_iff.mp hDot
    exact hParts [] (by simp [Path.pieces]) rfl

theorem isBase (h : IsName base) : isBase base = true := by
  have hHead : base.head? ≠ some '.' := by
    intro hDot
    obtain ⟨back, rfl⟩ := List.head?_eq_some_iff.mp hDot
    exact (h.not_dots (List.nil_append _).symm).1 rfl
  have hLast : base.getLast? ≠ some '.' := by
    intro hDot
    obtain ⟨front, rfl⟩ := List.getLast?_eq_some_iff.mp hDot
    exact (h.not_dots rfl).2.1 rfl
  have hInner : hasEmptyPart base = false := by
    rw [Bool.eq_false_iff]
    intro hEmpty
    obtain ⟨front, back, hBase⟩ := exists_of_hasEmptyPart hEmpty
    exact (h.not_dots hBase).2.2 rfl
  simp [TypeName.isBase, h.ne_nil, hHead, hLast, hInner]

end IsName

/-- A text closes what it opens, and has no comma outside its own brackets. -/
def Closed (cs : List Char) : Prop :=
  ∀ depth : Int, 0 ≤ depth → depthAfter? ',' depth cs = some depth

theorem Closed.append {cs ds : List Char} (hc : Closed cs) (hd : Closed ds) :
    Closed (cs ++ ds) := by
  intro depth hDepth
  rw [depthAfter?_append_of (hc depth hDepth), hd depth hDepth]

theorem Closed.of_forall {cs : List Char} (h : ∀ c ∈ cs, c ≠ ',' ∧ c ≠ '<' ∧ c ≠ '>') :
    Closed cs := fun _ _ => depthAfter?_of_forall h

theorem Closed.of_all {cs : List Char}
    (h : (cs.all fun c => c != ',' && c != '<' && c != '>') = true) : Closed cs := by
  refine .of_forall fun c hc => ?_
  have hOther := List.all_eq_true.mp h c hc
  simp only [Bool.and_eq_true, bne_iff_ne] at hOther
  exact ⟨hOther.1.1, hOther.1.2, hOther.2⟩

theorem IsName.closed {base : List Char} (h : IsName base) : Closed base := by
  refine .of_forall fun c hc => ?_
  have hLegal := (h.legal c hc).2
  simp only [List.mem_cons, List.not_mem_nil, or_false, not_or] at hLegal
  exact ⟨hLegal.2.2.1, hLegal.1, hLegal.2.1⟩

theorem closed_suffixes (depth : Nat) : Closed (suffixes depth) := by
  induction depth with
  | zero => exact .of_all rfl
  | succ depth ih =>
      rw [suffixes_succ]
      exact ih.append (.of_all rfl)

/-- Inside brackets the commas between type arguments are at no depth zero. -/
theorem depthAfter?_furtherChars {arguments : List TypeName}
    (h : ∀ a ∈ arguments, Closed a.chars) {depth : Int} (hDepth : 0 < depth) :
    depthAfter? ',' depth (furtherChars arguments) = some depth := by
  induction arguments with
  | nil => rfl
  | cons a as ih =>
      rw [List.forall_mem_cons] at h
      have hComma : depthAfter? ',' depth [',', ' '] = some depth := by
        have hWeight : weight ',' = 0 ∧ weight ' ' = 0 := by decide
        have hNot : depth ≠ 0 := by omega
        simp only [depthAfter?, hWeight, Int.add_zero, hNot, and_false, if_false]
      rw [furtherChars, List.append_assoc, depthAfter?_append_of hComma,
        depthAfter?_append_of (h.1 depth (by omega)), ih h.2]

theorem closed_argumentChars {arguments : List TypeName} (h : ∀ a ∈ arguments, Closed a.chars) :
    Closed (argumentChars arguments) := by
  cases arguments with
  | nil => exact fun _ _ => rfl
  | cons a as =>
      rw [List.forall_mem_cons] at h
      intro depth hDepth
      have hInner : depthAfter? ',' (depth + 1) (chars a ++ furtherChars as) =
          some (depth + 1) := by
        rw [depthAfter?_append_of (h.1 (depth + 1) (by omega)),
          depthAfter?_furtherChars h.2 (by omega)]
      have hOpen : depthAfter? ',' depth ['<'] = some (depth + 1) := by
        simp [depthAfter?, weight]
      have hClose : depthAfter? ',' (depth + 1) ['>'] = some depth := by
        have hBack : depth + 1 + weight '>' = depth := Int.add_neg_cancel_right depth 1
        rw [depthAfter?, if_neg (by simp), hBack, depthAfter?]
      have hChars : argumentChars (a :: as) =
          ['<'] ++ ((chars a ++ furtherChars as) ++ ['>']) := rfl
      rw [hChars, depthAfter?_append_of hOpen, depthAfter?_append_of hInner, hClose]

theorem WellFormed.closed {t : TypeName} (h : t.WellFormed) : Closed t.chars := by
  induction h with
  | any => exact .of_all rfl
  | @named base arguments depth wildcard hBase _ hBound ih =>
      have hCore := hBase.closed.append (closed_argumentChars ih)
      cases wildcard with
      | none =>
          rw [chars_none]
          exact hCore.append (closed_suffixes depth)
      | some w =>
          have hOpen : Closed ('?' :: ' ' :: w.word.toList ++ [' ']) :=
            .of_all (by cases w <;> rfl)
          have hText := (hOpen.append hCore).append (closed_suffixes depth)
          rw [chars_some _ _ _ (fun hAny => hBound (congrArg some hAny)), chars_none]
          simpa [suffixes] using hText

/-- A tree is read from every respacing of its printed form, also with blanks around it. -/
def Reads (t : TypeName) : Prop :=
  ∀ text shown, Respaced false t.chars shown → strip text = strip shown → read text = .ok t

theorem readBase_respaced {base : String} (hBase : IsName base.toList) {shown : List Char}
    (h : Respaced false base.toList shown) (text : List Char) : readBase text shown = .ok base := by
  have hSqueeze : squeeze shown = base.toList := by
    rw [h.squeeze_eq, squeeze, List.filter_eq_self]
    intro c hc
    rw [(hBase.legal c hc).1]
    rfl
  rw [readBase]
  simp only [hSqueeze, hBase.isBase, if_true, String.ofList_toList]

/-- The parts between the outer commas are read as the type arguments. -/
theorem mapM_split {a : TypeName} {as : List TypeName}
    (h : ∀ b ∈ a :: as, Closed b.chars ∧ Reads b) {shown : List Char}
    (hShown : Respaced false (chars a ++ furtherChars as) shown) :
    (split ',' shown).mapM read = .ok (a :: as) := by
  induction as generalizing a shown with
  | nil =>
      rw [furtherChars, List.append_nil] at hShown
      obtain ⟨hClosed, hReads⟩ := h a List.mem_cons_self
      have hDepth := hShown.depthAfter?_eq 0
      rw [hClosed 0 (Int.le_refl 0)] at hDepth
      have hSplit := splitAtDepth_append hDepth (rfl : splitAtDepth ',' 0 [] = [[]])
      rw [List.append_nil] at hSplit
      rw [split, hSplit, List.mapM_cons, hReads shown shown hShown rfl, List.mapM_nil]
      rfl
  | cons b bs ih =>
      rw [List.forall_mem_cons] at h
      obtain ⟨⟨hClosed, hReads⟩, hOthers⟩ := h
      -- The first argument and the blanks before its comma are one part.
      obtain ⟨front, back, rfl, hFront, hBack⟩ := hShown.exists_append
      obtain ⟨blanks, further, hBlanks, rfl, hFurther⟩ := hBack.exists_cons
      obtain ⟨gap, rest, hGap, rfl, hRest⟩ := hFurther.exists_cons
      have hPart := hFront.append_blank hBlanks
      have hDepth := hPart.depthAfter?_eq 0
      rw [hClosed 0 (Int.le_refl 0)] at hDepth
      have hComma : splitAtDepth ',' 0 (',' :: (gap ++ ' ' :: rest)) =
          [] :: splitAtDepth ',' 0 (gap ++ ' ' :: rest) := by
        rw [splitAtDepth]
        simp [weight]
      have hSplit := splitAtDepth_append hDepth hComma
      rw [List.append_assoc, List.append_nil] at hSplit
      -- The blanks behind the comma belong to the next one.
      have hNext : Respaced false (chars b ++ furtherChars bs) (gap ++ ' ' :: rest) :=
        .blank_append hGap (.blank (by decide) (fun hFalse => absurd hFalse Bool.false_ne_true)
          hRest.outside)
      have hTail := ih hOthers hNext
      rw [split] at hTail
      rw [split, hSplit, List.mapM_cons, hReads _ _ hPart rfl, hTail]
      rfl

section Core

variable {base : String} {arguments : List TypeName}

theorem IsName.not_mem (h : IsName base.toList) {c : Char}
    (hc : c ∈ ['<', '>', ',', '[', ']', '?']) : c ∉ base.toList :=
  fun hMem => (h.legal c hMem).2 hc

theorem head?_core (hBase : IsName base.toList) (cs : List Char) :
    ∀ c ∈ (base.toList ++ cs).head?, isBlank c = false := by
  obtain ⟨c, rest, hText⟩ := List.exists_cons_of_ne_nil hBase.ne_nil
  intro d hd
  rw [hText, List.cons_append, List.head?_cons, Option.mem_some] at hd
  rw [← hd]
  exact (hBase.legal c (by rw [hText]; exact List.mem_cons_self)).1

/-- What stands before the suffixes does not end in one. -/
theorem exists_last_core (hBase : IsName base.toList) (arguments : List TypeName) :
    ∃ front c, base.toList ++ argumentChars arguments = front ++ [c] ∧ isBlank c = false ∧
      c ≠ ']' := by
  cases arguments with
  | nil =>
      obtain ⟨front, c, hText⟩ := List.eq_nil_or_concat base.toList |>.resolve_left hBase.ne_nil
      have hMem : c ∈ base.toList := by rw [hText]; simp
      refine ⟨front, c, by rw [argumentChars, List.append_nil, hText, List.concat_eq_append],
        (hBase.legal c hMem).1, ?_⟩
      rintro rfl
      exact hBase.not_mem (by decide) hMem
  | cons a as =>
      exact ⟨base.toList ++ '<' :: (chars a ++ furtherChars as), '>', by simp [argumentChars],
        by decide, by decide⟩

/-- A core is read as its base and its type arguments. -/
theorem readCore_respaced (hBase : IsName base.toList)
    (hArguments : ∀ a ∈ arguments, Closed a.chars ∧ Reads a) {shown : List Char}
    (h : Respaced false (base.toList ++ argumentChars arguments) shown) (text : List Char)
    (depth : Nat) :
    readCore text (strip shown) depth = .ok (mk base arguments depth none) := by
  cases arguments with
  | nil =>
      rw [argumentChars, List.append_nil] at h
      have hStrip := h.strip (fun c hc => (hBase.legal c (List.mem_of_head? hc)).1)
        fun c hc => (hBase.legal c (List.mem_of_getLast? hc)).1
      refine readCore_name ?_ ?_ (readBase_respaced hBase hStrip text)
      · intro hHead
        exact hBase.not_mem (by decide) (hStrip.mem_of_mem (List.mem_of_head? hHead) (by decide))
      · intro hMem
        exact hBase.not_mem (by decide) (hStrip.mem_of_mem hMem (by decide))
  | cons a as =>
      have hChars : base.toList ++ argumentChars (a :: as) =
          base.toList ++ '<' :: (chars a ++ furtherChars as) ++ ['>'] := by simp [argumentChars]
      rw [hChars] at h
      obtain ⟨rest, hStrip, hRest⟩ := h.exists_concat_strip (by decide) (head?_core hBase _)
      obtain ⟨front, back, rfl, hFront, hBack⟩ := hRest.exists_append
      obtain ⟨blanks, inner, hBlank, rfl, hInner⟩ := hBack.exists_cons
      have hName := hFront.append_blank hBlank
      have hCore : strip shown = (front ++ blanks) ++ '<' :: (inner ++ ['>']) := by
        rw [hStrip]
        simp
      refine readCore_arguments hCore ?_ ?_ (mapM_split hArguments hInner.outside)
        (readBase_respaced hBase hName text)
      · intro hHead
        rw [hCore, List.head?_append] at hHead
        cases hStart : (front ++ blanks).head? with
        | none =>
            rw [hStart] at hHead
            cases hHead
        | some c =>
            rw [hStart] at hHead
            cases hHead
            exact hBase.not_mem (by decide)
              (hName.mem_of_mem (List.mem_of_head? hStart) (by decide))
      · intro hMem
        exact hBase.not_mem (by decide) (hName.mem_of_mem hMem (by decide))

theorem reads_named (hBase : IsName base.toList)
    (hArguments : ∀ a ∈ arguments, Closed a.chars ∧ Reads a) (depth : Nat) :
    Reads (mk base arguments depth none) := by
  intro text shown hShown hText
  rw [chars_none] at hShown
  obtain ⟨core, tail, rfl, hCore, hTail⟩ := hShown.exists_append
  obtain ⟨front, c, hLast, hNot, hc⟩ := exists_last_core hBase arguments
  have hConcat := hCore
  rw [hLast] at hConcat
  obtain ⟨rest, blanks, hBlank, rfl, -⟩ := hConcat.exists_concat
  have hCut := cutSuffixes_strip rest hTail hNot hc hBlank
  rw [← hText] at hCut
  rw [read_of_cut hCut, readCore_respaced hBase hArguments hCore]

theorem isLetter_of_mem_word {w : Wildcard} (hBound : w ≠ .any) :
    w.word.toList ≠ [] ∧ ∀ c ∈ w.word.toList, isLetter c = true := by
  cases w with
  | any => exact absurd rfl hBound
  | _ => exact ⟨by decide, List.all_eq_true.mp rfl⟩

/-- A wildcard with a bound is read as the bound, with the suffixes behind it. -/
theorem reads_bounded (hBase : IsName base.toList)
    (hArguments : ∀ a ∈ arguments, Closed a.chars ∧ Reads a) (depth : Nat) {w : Wildcard}
    (hBound : w ≠ .any) : Reads (mk base arguments depth (some w)) := by
  intro text shown hShown hText
  rw [chars_some _ _ _ hBound] at hShown
  obtain ⟨front, c, hLast, hNot, hc⟩ := exists_last_core hBase arguments
  have hInner : chars (mk base arguments 0 none) = front ++ [c] := by
    rw [chars_none, hLast, suffixes, List.replicate_zero, List.flatten_nil, List.append_nil]
  obtain ⟨core, tail, rfl, hCore, hTail⟩ := hShown.exists_append
  -- The wildcard, its word and the bound, with the blanks around each of them.
  obtain ⟨start, bound, hStart, rfl, hWords⟩ := hCore.exists_cons
  obtain ⟨before, words, hBefore, rfl, hWords'⟩ := hWords.exists_cons
  obtain ⟨word, back, rfl, hWord, hBack⟩ := hWords'.exists_append
  obtain ⟨gap, name, hGap, rfl, hName⟩ := hBack.exists_cons
  obtain ⟨hNil, hLetters⟩ := isLetter_of_mem_word hBound
  obtain ⟨left, right, hLeft, hRight, rfl⟩ := hWord.exists_word hNil hLetters
  have hConcat := hName
  rw [hInner] at hConcat
  obtain ⟨rest, blanks, hBlank, rfl, -⟩ := hConcat.exists_concat
  have hStop : strip (rest ++ [c]) = strip (rest ++ c :: blanks) := by
    rw [strip_append_cons hNot hBlank, strip_append_cons hNot AllBlank.nil]
  have hRead : read (strip (rest ++ [c])) = .ok (mk base arguments 0 none) := by
    refine reads_named hBase hArguments 0 _ _ hName ?_
    rw [strip_strip hNot AllBlank.nil, hStop]
  have hSome : strip (rest ++ [c]) ≠ [] := by
    rw [strip_append_cons hNot AllBlank.nil]
    simp
  have hFront : AllBlank (before ++ ' ' :: left) :=
    hBefore.append (List.forall_mem_cons.mpr ⟨by decide, hLeft⟩)
  have hBetween : AllBlank (right ++ (gap ++ [' '])) := hRight.append (hGap.append
    (List.forall_mem_singleton.mpr rfl))
  have hCutWord := cutWord_strip hNot AllBlank.nil rest hFront
    (fun d hd => isBlank_of_isLetter (hLetters d hd)) hNil hBetween (by simp)
  -- The text is the wildcard, then its word and bound, then the suffixes.
  obtain ⟨whole, hWhole⟩ : ∃ whole, whole = before ++ ' ' :: left ++
    (w.word.toList ++ (right ++ (gap ++ [' ']) ++ rest)) := ⟨_, rfl⟩
  have hBoundText : whole ++ [c] = before ++ ' ' :: left ++
      (w.word.toList ++ (right ++ (gap ++ [' ']) ++ (rest ++ [c]))) := by simp [hWhole]
  have hCoreText : start ++ '?' :: (before ++ ' ' :: (left ++ w.word.toList ++ right ++
      (gap ++ ' ' :: (rest ++ c :: blanks)))) = start ++ '?' :: whole ++ c :: blanks := by
    simp [hWhole]
  have hStrip : strip (start ++ '?' :: whole ++ c :: blanks) = '?' :: (whole ++ [c]) := by
    rw [List.append_assoc, strip_blank_append hStart, strip_append_cons hNot hBlank]
    rfl
  have hCut := cutSuffixes_strip (start ++ '?' :: whole) hTail hNot hc hBlank
  rw [hStrip, ← hCoreText, ← hText] at hCut
  rw [← hBoundText] at hCutWord
  rw [read_of_cut hCut, readCore_bound hBound hCutWord hSome hRead]
  simp [TypeName.base, TypeName.arguments, TypeName.depth]

end Core

theorem reads_any : Reads (mk "?" [] 0 (some .any)) := by
  intro text shown hShown hText
  obtain ⟨bs, rest, hBlank, rfl, hRest⟩ := hShown.exists_cons
  have hStrip : strip text = ['?'] := by
    rw [hText, strip_blank_append hBlank]
    exact strip_append_cons (by decide) hRest.allBlank []
  have hCut : cutSuffixes 0 (strip text).reverse = some (0, ['?'].reverse) := by
    rw [hStrip, List.reverse_singleton, cutSuffixes]
    simp
  rw [read_of_cut hCut]
  rfl

theorem WellFormed.reads {t : TypeName} (h : t.WellFormed) : Reads t := by
  induction h with
  | any => exact reads_any
  | @named base arguments depth wildcard hBase hArguments hBound ih =>
      have hReads : ∀ a ∈ arguments, Closed a.chars ∧ Reads a :=
        fun a ha => ⟨(hArguments a ha).closed, ih a ha⟩
      cases wildcard with
      | none => exact reads_named hBase hReads depth
      | some w => exact reads_bounded hBase hReads depth fun hAny => hBound (congrArg some hAny)

/-- Reading a printed type name gives the tree back, and so does reading it with blanks put in
between its names, dots, brackets, commas and words. -/
theorem parse_of_respaced_print {t : TypeName} (h : t.WellFormed) :
    parse t.print = .ok t ∧
      ∀ text : String, Respaced false t.print.toList text.toList → parse text = .ok t := by
  have hParse (text : String) (hText : Respaced false t.print.toList text.toList) :
      parse text = .ok t := by
    rw [print, String.toList_ofList] at hText
    exact h.reads _ _ hText rfl
  exact ⟨hParse t.print (.refl false _), hParse⟩

/-- The pairs of something and a supertype. -/
private def openPair : TypeName :=
  mk "Pair" [mk "?" [] 0 (some .any), mk "T" [] 0 (some .super)] 0 none

/-- An array of maps from arrays to pairs, with a wildcard of each kind. -/
private def nestedMap : TypeName :=
  mk "java.util.Map" [mk "K" [] 2 (some .extends), openPair] 1 none

theorem parse_of_respaced_print_map :
    nestedMap.WellFormed ∧
      parse "java.util.Map<? extends K[][], Pair<?, ? super T>>[]" = .ok nestedMap ∧
      parse " java . util.Map\t<?  extends K [ ][] , Pair< ? ,  ? super\n T > >[] " =
        .ok nestedMap := by
  have hKeys : (mk "K" [] 2 (some .extends)).WellFormed :=
    .named (by decide +kernel) (fun _ ha => nomatch ha) (by decide)
  have hBound : (mk "T" [] 0 (some .super)).WellFormed :=
    .named (by decide +kernel) (fun _ ha => nomatch ha) (by decide)
  have hPair : openPair.WellFormed :=
    .named (by decide +kernel) (by simp [WellFormed.any, hBound]) (by decide)
  have hMap : nestedMap.WellFormed :=
    .named (by decide +kernel) (by simp [hKeys, hPair]) (by decide)
  have hPrint : nestedMap.print = "java.util.Map<? extends K[][], Pair<?, ? super T>>[]" := by
    decide +kernel
  obtain ⟨hSame, hRespaced⟩ := parse_of_respaced_print hMap
  rw [hPrint] at hSame hRespaced
  exact ⟨hMap, hSame, hRespaced _ (by decide +kernel)⟩

end TypeName

end BinderIdl
