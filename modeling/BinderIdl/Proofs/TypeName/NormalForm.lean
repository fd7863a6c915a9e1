import BinderIdl.Proofs.Brackets.Parts
import BinderIdl.Proofs.Text.Blanks
import BinderIdl.Proofs.TypeName.Characters

/-! Printed type names as normal forms. Many texts are read that are no type names: brackets
need not be even, and a base may hold commas and closing brackets. Still every tree that is
read is read again from its printed form. Printing drops blanks and moves array suffixes, but
it keeps all angle brackets and commas, so the outer commas stay where they were. -/
namespace BinderIdl

namespace TypeName

open Text Brackets

section Skeleton

variable {cs bs text rest : List Char}

theorem skeleton_of_allBlank (h : AllBlank bs) : skeleton ',' bs = [] := by
  refine skeleton_of_forall fun c hc => ?_
  have hBlank := h c hc
  refine ⟨?_, ?_, ?_⟩ <;> (rintro rfl; revert hBlank; decide)

theorem skeleton_strip (cs : List Char) : skeleton ',' (strip cs) = skeleton ',' cs := by
  obtain ⟨before, behind, hBefore, hBehind, hText⟩ := exists_strip cs
  conv_rhs => rw [hText]
  rw [skeleton_append, skeleton_append, skeleton_of_allBlank hBefore,
    skeleton_of_allBlank hBehind, List.nil_append, List.append_nil]

theorem skeleton_dropWhile (cs : List Char) :
    skeleton ',' (cs.dropWhile isBlank) = skeleton ',' cs := by
  obtain ⟨bs, hBlank, hText⟩ := exists_stripLeft cs
  conv_rhs => rw [hText]
  rw [skeleton_append, skeleton_of_allBlank hBlank, List.nil_append, stripLeft]

theorem skeleton_squeeze (cs : List Char) : skeleton ',' (squeeze cs) = skeleton ',' cs := by
  rw [skeleton, squeeze, List.filter_filter]
  refine List.filter_congr fun c _ => ?_
  cases hBlank : isBlank c with
  | false => simp
  | true =>
      have hNone : skeleton ',' [c] = [] :=
        skeleton_of_allBlank (List.forall_mem_singleton.mpr hBlank)
      rw [skeleton, List.filter_eq_nil_iff, List.forall_mem_singleton] at hNone
      simpa using hNone

theorem skeleton_reverse (cs : List Char) :
    skeleton ',' cs.reverse = (skeleton ',' cs).reverse := List.filter_reverse

theorem skeleton_open (cs : List Char) : skeleton ',' ('<' :: cs) = '<' :: skeleton ',' cs := rfl

theorem skeleton_suffixes (depth : Nat) : skeleton ',' (suffixes depth) = [] := by
  induction depth with
  | zero => rfl
  | succ depth ih =>
      rw [suffixes_succ, skeleton_append, ih]
      rfl

/-- Array suffixes have no angle brackets and no commas. -/
theorem skeleton_cutSuffixes {depth n : Nat} (h : cutSuffixes depth cs = some (n, rest)) :
    skeleton ',' rest = skeleton ',' cs := by
  fun_induction cutSuffixes depth cs with
  | case1 depth cs inner hInner ih =>
      have hOuter := skeleton_dropWhile cs
      rw [hInner] at hOuter
      rw [ih h, skeleton_dropWhile]
      exact hOuter
  | case2 => cases h
  | case3 =>
      cases h
      rfl

theorem skeleton_of_cut {reversed : List Char} {depth : Nat}
    (h : cutSuffixes 0 (strip text).reverse = some (depth, reversed)) :
    skeleton ',' reversed.reverse = skeleton ',' text := by
  rw [skeleton_reverse, skeleton_cutSuffixes h, skeleton_reverse, List.reverse_reverse,
    skeleton_strip]

/-- A word and what follows it have all angle brackets and commas of the text. -/
theorem skeleton_cutWord (cs : List Char) :
    skeleton ',' (cutWord cs).1 ++ skeleton ',' (cutWord cs).2 = skeleton ',' cs := by
  simp only [cutWord, stripLeft]
  rw [skeleton_dropWhile, ← skeleton_append, List.takeWhile_append_dropWhile, skeleton_dropWhile]

end Skeleton

theorem readBase_eq_ok {text name : List Char} {base : String} :
    readBase text name = .ok base ↔
      isBase (squeeze name) = true ∧ base = String.ofList (squeeze name) := by
  rw [readBase]
  split
  · rename_i hBase
    simp [hBase, eq_comm (a := base)]
  · rename_i hBase
    simp [hBase]

/-- A text that can stand in front of array suffixes: no blanks at its ends, and no suffix. -/
structure IsCore (core : List Char) : Prop where
  first : ∀ c ∈ core.head?, isBlank c = false
  last : ∀ c ∈ core.getLast?, isBlank c = false ∧ c ≠ ']'

namespace IsCore

variable {core text : List Char} {depth : Nat}

theorem strip_eq (h : IsCore core) : strip core = core :=
  strip_eq_self h.first fun c hc => (h.last c hc).1

theorem head?_cutSuffixes {cs rest : List Char} {inner : Nat}
    (h : cutSuffixes inner cs = some (depth, rest)) (hFirst : ∀ c ∈ cs.head?, isBlank c = false) :
    ∀ c ∈ rest.head?, isBlank c = false ∧ c ≠ ']' := by
  fun_induction cutSuffixes inner cs with
  | case1 _ _ inner _ ih => exact ih h (head?_dropWhile_isBlank inner)
  | case2 => cases h
  | case3 _ cs hNot =>
      cases h
      intro c hc
      refine ⟨hFirst c hc, ?_⟩
      rintro rfl
      obtain ⟨more, rfl⟩ := List.head?_eq_some_iff.mp hc
      exact hNot more rfl

theorem suffix_cutSuffixes {cs rest : List Char} {inner : Nat}
    (h : cutSuffixes inner cs = some (depth, rest)) : rest <:+ cs := by
  fun_induction cutSuffixes inner cs with
  | case1 _ cs inner hInner ih =>
      have hOuter : '[' :: inner <:+ cs := hInner ▸ List.dropWhile_suffix isBlank
      have hBehind := (List.suffix_cons '[' inner).trans (hOuter.trans (List.suffix_cons ']' cs))
      exact (ih h).trans ((List.dropWhile_suffix isBlank).trans hBehind)
  | case2 => cases h
  | case3 =>
      cases h
      exact List.suffix_rfl

/-- What is left of a text when its array suffixes are taken off. -/
theorem of_cut {reversed : List Char}
    (h : cutSuffixes 0 (strip text).reverse = some (depth, reversed)) :
    IsCore reversed.reverse := by
  constructor
  · obtain ⟨more, hMore⟩ := suffix_cutSuffixes h
    have hText : strip text = reversed.reverse ++ more.reverse := by
      rw [← List.reverse_append, hMore, List.reverse_reverse]
    intro c hc
    apply head?_strip text
    rw [hText, List.head?_append, Option.mem_def.mp hc]
    rfl
  · rw [List.getLast?_reverse]
    apply head?_cutSuffixes h
    rw [strip, stripRight, List.reverse_reverse]
    exact head?_dropWhile_isBlank _

/-- Behind a core all suffixes are counted. -/
theorem read_append (h : IsCore core) (hNil : core ≠ [])
    (hText : strip text = strip (core ++ suffixes depth)) :
    read text = readCore text core depth := by
  obtain ⟨front, c, hCore⟩ := List.eq_nil_or_concat core |>.resolve_left hNil
  rw [List.concat_eq_append] at hCore
  have hLast : c ∈ core.getLast? := by
    rw [hCore]
    simp
  have hCut := cutSuffixes_strip front (.refl false (suffixes depth)) (h.last c hLast).1
    (h.last c hLast).2 AllBlank.nil
  rw [← hCore, h.strip_eq, ← hText] at hCut
  exact read_of_cut hCut

/-- A bound behind a wildcard and its word takes the suffixes. -/
theorem read_bound (h : IsCore core) (hNil : core ≠ []) {t : TypeName} (hRead : read core = .ok t)
    {w : Wildcard} (hBound : w ≠ .any)
    (hText : strip text = strip ('?' :: ' ' :: (w.word.toList ++ ' ' :: core) ++ suffixes depth)) :
    read text = .ok (TypeName.mk t.base t.arguments (t.depth + depth) (some w)) := by
  obtain ⟨front, c, hCore⟩ := List.eq_nil_or_concat core |>.resolve_left hNil
  rw [List.concat_eq_append] at hCore
  have hLast : c ∈ core.getLast? := by
    rw [hCore]
    simp
  have hWhole : IsCore ('?' :: ' ' :: (w.word.toList ++ ' ' :: core)) := by
    constructor
    · intro d hd
      cases hd
      decide
    · have hShown : '?' :: ' ' :: (w.word.toList ++ ' ' :: core) =
          ('?' :: ' ' :: w.word.toList ++ [' ']) ++ core := by simp
      rw [hShown, List.getLast?_append, Option.mem_def.mp hLast, Option.some_or,
        ← Option.mem_def.mp hLast]
      exact h.last
  obtain ⟨hSome, hLetters⟩ := isLetter_of_mem_word hBound
  have hBlank : AllBlank [' '] := List.forall_mem_singleton.mpr rfl
  have hWord := cutWord_strip (h.last c hLast).1 AllBlank.nil front hBlank
    (fun d hd => isBlank_of_isLetter (hLetters d hd)) hSome hBlank (by simp)
  rw [← hCore, h.strip_eq] at hWord
  rw [hWhole.read_append (by simp) hText]
  exact readCore_bound hBound hWord hNil hRead

end IsCore

/-- The printed type arguments, each with the blank in front of it. -/
def argumentParts : List TypeName → List (List Char)
  | [] => []
  | a :: as => chars a :: as.map fun b => ' ' :: chars b

theorem intercalate_argumentParts (a : TypeName) (as : List TypeName) :
    List.intercalate [','] (argumentParts (a :: as)) = chars a ++ furtherChars as := by
  have hFurther : ∀ (first : List Char) (as : List TypeName),
      List.intercalate [','] (first :: as.map fun b => ' ' :: chars b) =
        first ++ furtherChars as := by
    intro first as
    induction as generalizing first with
    | nil => simp [furtherChars]
    | cons b bs ih =>
        rw [List.map_cons, List.intercalate_cons_cons, ih, furtherChars]
        simp
  exact hFurther (chars a) as

/-- A base in front of type arguments: nothing in it can be taken for a wildcard or for the
start of the arguments, nor for an array suffix if there are no arguments. -/
structure IsStem (base : List Char) (arguments : List TypeName) : Prop where
  isBase : isBase base = true
  chars : ∀ c ∈ base, isBlank c = false ∧ c ≠ '<'
  first : base.head? ≠ some '?'
  last : arguments = [] → base.getLast? ≠ some ']'

/-- The type names that can be read from some text. -/
inductive Normal : TypeName → Prop
  | any : Normal (mk "?" [] 0 (some .any))
  /-- A wildcard that is bounded by the bare wildcard. -/
  | bare {depth : Nat} {w : Wildcard} (hBound : w ≠ .any) : Normal (mk "?" [] depth (some w))
  | named {base : String} {arguments : List TypeName} {depth : Nat} {wildcard : Option Wildcard}
      (hStem : IsStem base.toList arguments) (hArguments : ∀ a ∈ arguments, Normal a)
      (hParts : arguments ≠ [] → SideBySide ',' 0 (argumentParts arguments))
      (hBound : wildcard ≠ some .any) : Normal (mk base arguments depth wildcard)

/-- A tree is read from its printed form, also with blanks around it. -/
def Returns (t : TypeName) : Prop := ∀ text, strip text = strip t.chars → read text = .ok t

theorem mapM_argumentParts {arguments : List TypeName} (h : ∀ a ∈ arguments, Returns a) :
    (argumentParts arguments).mapM read = .ok arguments := by
  rw [mapM_eq_ok_iff]
  cases arguments with
  | nil => exact .nil
  | cons a as =>
      rw [List.forall_mem_cons] at h
      refine .cons (h.1 _ rfl) (List.forall₂_map_left_iff.mpr ?_)
      rw [List.forall₂_same]
      intro b hb
      have hBlank : AllBlank [' '] := List.forall_mem_singleton.mpr rfl
      exact h.2 b hb _ (strip_blank_append hBlank _)

namespace IsStem

variable {base : String} {arguments : List TypeName}

theorem ne_nil {base : List Char} (h : IsStem base arguments) : base ≠ [] := by
  rintro rfl
  exact absurd h.isBase (by decide)

theorem head?_append (h : IsStem base.toList arguments) (cs : List Char) :
    (base.toList ++ cs).head? = base.toList.head? := by
  obtain ⟨first, rest, hBase⟩ := List.exists_cons_of_ne_nil h.ne_nil
  rw [hBase]
  rfl

theorem readBase_eq (h : IsStem base.toList arguments) (text : List Char) :
    readBase text base.toList = .ok base := by
  have hSqueeze : squeeze base.toList = base.toList := by
    rw [squeeze, List.filter_eq_self]
    intro c hc
    rw [(h.chars c hc).1]
    rfl
  rw [readBase_eq_ok, hSqueeze, String.ofList_toList]
  exact ⟨h.isBase, rfl⟩

theorem isCore (h : IsStem base.toList arguments) :
    IsCore (base.toList ++ argumentChars arguments) := by
  constructor
  · intro c hc
    rw [h.head?_append] at hc
    exact (h.chars c (List.mem_of_head? hc)).1
  · cases arguments with
    | nil =>
        rw [argumentChars, List.append_nil]
        intro c hc
        refine ⟨(h.chars c (List.mem_of_getLast? hc)).1, ?_⟩
        rintro rfl
        exact h.last rfl hc
    | cons a as =>
        intro c hc
        rw [argumentChars, ← List.append_assoc, List.getLast?_concat] at hc
        cases hc
        decide

variable (hParts : arguments ≠ [] → SideBySide ',' 0 (argumentParts arguments))
  (hReturns : ∀ a ∈ arguments, Returns a)

include hParts hReturns

/-- The core of a name is read as its base and its type arguments. -/
theorem readCore_eq (h : IsStem base.toList arguments) (text : List Char) (depth : Nat) :
    readCore text (base.toList ++ argumentChars arguments) depth =
      .ok (TypeName.mk base arguments depth none) := by
  have hBracket : '<' ∉ base.toList := fun hMem => (h.chars _ hMem).2 rfl
  cases arguments with
  | nil =>
      rw [argumentChars, List.append_nil]
      exact readCore_name h.first hBracket (h.readBase_eq text)
  | cons a as =>
      have hSplit := (hParts (by simp)).splitAtDepth_intercalate (by decide)
      rw [intercalate_argumentParts] at hSplit
      have hRead : (split ',' (a.chars ++ furtherChars as)).mapM read = .ok (a :: as) := by
        rw [split, hSplit, mapM_argumentParts hReturns]
      have hCore : base.toList ++ argumentChars (a :: as) =
          base.toList ++ '<' :: ((a.chars ++ furtherChars as) ++ ['>']) := by simp [argumentChars]
      refine readCore_arguments hCore ?_ hBracket hRead (h.readBase_eq text)
      rw [h.head?_append]
      exact h.first

theorem returns (h : IsStem base.toList arguments) (depth : Nat) :
    Returns (TypeName.mk base arguments depth none) := by
  intro text hText
  rw [chars_none] at hText
  rw [h.isCore.read_append (by simp [h.ne_nil]) hText]
  exact h.readCore_eq hParts hReturns text depth

end IsStem

theorem Normal.returns {t : TypeName} (h : t.Normal) : Returns t := by
  have hAny : Returns (mk "?" [] 0 (some .any)) :=
    fun text hText => reads_any text _ (.refl _ _) hText
  induction h with
  | any => exact hAny
  | @bare depth w hBound =>
      intro text hText
      rw [chars_some _ _ _ hBound] at hText
      have hCore : IsCore ['?'] :=
        ⟨fun c hc => by cases hc; decide, fun c hc => by cases hc; decide⟩
      have hRead := hCore.read_bound (by simp) (hAny ['?'] rfl) hBound hText
      rwa [TypeName.depth, Nat.zero_add] at hRead
  | @named base arguments depth wildcard hStem _ hParts hBound ih =>
      cases wildcard with
      | none => exact hStem.returns hParts ih depth
      | some w =>
          have hWord : w ≠ .any := fun hAny => hBound (congrArg some hAny)
          have hInner := hStem.returns hParts ih 0
          intro text hText
          rw [chars_some _ _ _ hWord] at hText
          have hChars : chars (mk base arguments 0 none) =
              base.toList ++ argumentChars arguments := by
            rw [chars_none, suffixes, List.replicate_zero, List.flatten_nil, List.append_nil]
          rw [hChars] at hText
          have hRead := hStem.isCore.read_bound (by simp [hStem.ne_nil]) (hInner _ (by rw [hChars]))
            hWord hText
          rwa [TypeName.depth, Nat.zero_add] at hRead

theorem skeleton_chars (base : String) (arguments : List TypeName) (depth : Nat)
    {wildcard : Option Wildcard} (hBound : wildcard ≠ some .any) :
    skeleton ',' (chars (mk base arguments depth wildcard)) =
      skeleton ',' (base.toList ++ argumentChars arguments) := by
  have hNamed : ∀ depth, skeleton ',' (chars (mk base arguments depth none)) =
      skeleton ',' (base.toList ++ argumentChars arguments) := by
    intro depth
    rw [chars_none, skeleton_append, skeleton_suffixes, List.append_nil]
  cases wildcard with
  | none => exact hNamed depth
  | some w =>
      have hOpen : skeleton ',' ('?' :: ' ' :: w.word.toList ++ [' ']) = [] := by
        cases w <;> rfl
      have hShown : '?' :: ' ' :: (w.word.toList ++ ' ' :: chars (mk base arguments 0 none)) =
          ('?' :: ' ' :: w.word.toList ++ [' ']) ++ chars (mk base arguments 0 none) := by simp
      rw [chars_some _ _ _ (fun hAny => hBound (congrArg some hAny)), hShown, skeleton_append,
        skeleton_append, hOpen, hNamed, skeleton_suffixes, List.append_nil, List.nil_append]

theorem boundWord?_eq_some {word : List Char} {w : Wildcard} (h : boundWord? word = some w) :
    word = w.word.toList ∧ w ≠ .any := by
  rw [boundWord?] at h
  split at h
  · rename_i hWord
    cases h
    exact ⟨hWord, by decide⟩
  · split at h
    · rename_i hWord
      cases h
      exact ⟨hWord, by decide⟩
    · cases h

/-- A tree that is read from its printed form, which keeps the angle brackets and commas of a
text. -/
structure Normalizes (text : List Char) (t : TypeName) : Prop where
  normal : t.Normal
  skeleton_eq : skeleton ',' t.chars = skeleton ',' text

theorem forall₂_argumentParts {parts : List (List Char)} {arguments : List TypeName}
    (h : List.Forall₂ Normalizes parts arguments) :
    List.Forall₂ (fun part part' => skeleton ',' part' = skeleton ',' part) parts
      (argumentParts arguments) := by
  cases h with
  | nil => exact .nil
  | cons hFirst hRest =>
      refine .cons hFirst.skeleton_eq (List.forall₂_map_right_iff.mpr ?_)
      exact hRest.imp fun _ _ hPart => hPart.skeleton_eq

theorem normal_of_forall₂ {parts : List (List Char)} {arguments : List TypeName}
    (h : List.Forall₂ Normalizes parts arguments) : ∀ a ∈ arguments, a.Normal := by
  induction h with
  | nil => simp
  | cons hFirst _ ih => exact List.forall_mem_cons.mpr ⟨hFirst.normal, ih⟩

/-- A wildcard takes the place of the one on its bound. -/
theorem Normalizes.bound {text : List Char} {t : TypeName} (h : Normalizes text t) {w : Wildcard}
    (hBound : w ≠ .any) (depth : Nat) :
    Normalizes text (TypeName.mk t.base t.arguments depth (some w)) := by
  obtain ⟨hNormal, hSkeleton⟩ := h
  have hWord : some w ≠ some .any := fun hAny => hBound (Option.some.inj hAny)
  cases hNormal with
  | any => exact ⟨.bare hBound, by rw [← hSkeleton, skeleton_chars _ _ _ hWord]; rfl⟩
  | bare hInner =>
      refine ⟨.bare hBound, ?_⟩
      rw [← hSkeleton, skeleton_chars _ _ _ hWord,
        skeleton_chars _ _ _ fun hAny => hInner (Option.some.inj hAny)]
      rfl
  | named hStem hArguments hParts hInner =>
      refine ⟨.named hStem hArguments hParts hWord, ?_⟩
      rw [← hSkeleton, skeleton_chars _ _ _ hWord, skeleton_chars _ _ _ hInner]
      rfl

section Core

variable {text core : List Char} {depth : Nat} {base : String}

/-- A core without angle brackets is a base. -/
theorem normalizes_name (hCore : IsCore core) (hSkeleton : skeleton ',' core = skeleton ',' text)
    (hFirst : core.head? ≠ some '?') (hBracket : '<' ∉ core)
    (hBase : readBase text core = .ok base) :
    Normalizes text (mk base [] depth none) := by
  obtain ⟨hIsBase, rfl⟩ := readBase_eq_ok.mp hBase
  have hStem : IsStem (String.ofList (squeeze core)).toList [] := by
    rw [String.toList_ofList]
    refine ⟨hIsBase, ?_, ?_, fun _ => ?_⟩
    · intro c hc
      obtain ⟨hMem, hBlank⟩ := mem_squeeze.mp hc
      refine ⟨hBlank, ?_⟩
      rintro rfl
      exact hBracket hMem
    · rwa [head?_squeeze hCore.first]
    · rw [getLast?_squeeze fun c hc => (hCore.last c hc).1]
      exact fun hc => (hCore.last _ hc).2 rfl
  refine ⟨.named hStem (by simp) (fun hNil => absurd rfl hNil) (by simp), ?_⟩
  rw [skeleton_chars _ _ _ (by simp), argumentChars, List.append_nil, String.toList_ofList,
    skeleton_squeeze, hSkeleton]

/-- A core with angle brackets is a base and type arguments, and these stand side by side
when they are printed. -/
theorem normalizes_arguments {name inner : List Char} {arguments : List TypeName}
    (hCore : IsCore core) (hSkeleton : skeleton ',' core = skeleton ',' text)
    (hFirst : core.head? ≠ some '?') (hText : core = name ++ '<' :: (inner ++ ['>']))
    (hBracket : '<' ∉ name) (hArguments : List.Forall₂ Normalizes (split ',' inner) arguments)
    (hBase : readBase text name = .ok base) :
    Normalizes text (mk base arguments depth none) := by
  obtain ⟨hIsBase, rfl⟩ := readBase_eq_ok.mp hBase
  have hSome : arguments ≠ [] := by
    rintro rfl
    exact splitAtDepth_ne_nil _ _ _ (List.forall₂_nil_right_iff.mp hArguments)
  have hName : name ≠ [] := by
    rintro rfl
    exact absurd hIsBase (by decide)
  have hHead : core.head? = name.head? := by
    obtain ⟨c, rest, rfl⟩ := List.exists_cons_of_ne_nil hName
    rw [hText]
    rfl
  have hStem : IsStem (String.ofList (squeeze name)).toList arguments := by
    rw [String.toList_ofList]
    refine ⟨hIsBase, ?_, ?_, fun hNil => absurd hNil hSome⟩
    · intro c hc
      obtain ⟨hMem, hBlank⟩ := mem_squeeze.mp hc
      refine ⟨hBlank, ?_⟩
      rintro rfl
      exact hBracket hMem
    · rw [head?_squeeze (hHead ▸ hCore.first), ← hHead]
      exact hFirst
  have hParts := forall₂_argumentParts hArguments
  refine ⟨.named hStem (normal_of_forall₂ hArguments) (fun _ => ?_) (by simp), ?_⟩
  · exact (sideBySide_splitAtDepth (by decide) 0 inner).congr hParts
  · obtain ⟨a, as, rfl⟩ := List.exists_cons_of_ne_nil hSome
    have hInner := skeleton_intercalate hParts
    rw [split, intercalate_splitAtDepth, intercalate_argumentParts] at hInner
    rw [skeleton_chars _ _ _ (by simp), ← hSkeleton, hText, String.toList_ofList, argumentChars]
    simp only [skeleton_append, skeleton_open, skeleton_squeeze] at hInner ⊢
    rw [hInner, List.cons_append]

end Core

/-- A text with an opening bracket that ends in a closing one. -/
theorem eq_of_brackets {core inner : List Char} {c : Char}
    (hDrop : core.dropWhile (· != '<') = c :: inner) (hLast : core.getLast? = some '>') :
    core = core.takeWhile (· != '<') ++ '<' :: (inner.dropLast ++ ['>']) := by
  have hOpen := List.head?_dropWhile_not (· != '<') core
  rw [hDrop, List.head?_cons] at hOpen
  obtain rfl : c = '<' := by simpa using hOpen
  have hText := List.takeWhile_append_dropWhile (p := (· != '<')) (l := core)
  rw [hDrop] at hText
  rw [← hText, List.getLast?_append, List.getLast?_cons, Option.some_or] at hLast
  have hSome : inner ≠ [] := by
    rintro rfl
    cases hLast
  rw [List.getLast?_eq_some_getLast hSome, Option.getD_some, Option.some.injEq] at hLast
  rw [← hLast, List.dropLast_append_getLast hSome, hText]

theorem not_mem_takeWhile (core : List Char) : '<' ∉ core.takeWhile (· != '<') := by
  intro hMem
  have hAll := List.all_eq_true.mp List.all_takeWhile '<' hMem
  exact absurd hAll (by decide)

theorem not_mem_of_dropWhile {core : List Char} (hDrop : core.dropWhile (· != '<') = []) :
    '<' ∉ core := by
  have hText := List.takeWhile_append_dropWhile (p := (· != '<')) (l := core)
  rw [hDrop, List.append_nil] at hText
  rw [← hText]
  exact not_mem_takeWhile core

theorem head?_ne_of_forall {core : List Char} (h : ∀ bound, core = '?' :: bound → False) :
    core.head? ≠ some '?' := by
  intro hHead
  obtain ⟨bound, hBound⟩ := List.head?_eq_some_iff.mp hHead
  exact h bound hBound

/-- Every tree that is read is normal. -/
theorem normalizes_of_read {text : List Char} {t : TypeName} (h : read text = .ok t) :
    Normalizes text t := by
  fun_induction read text generalizing t with
  | case1 | case3 | case4 | case5 | case7 | case9 | case10 | case11 => cases h
  | case2 text depth reversed hCut bound hRest =>
      rename_i hNil
      cases h
      have hBlank := skeleton_of_allBlank (allBlank_of_cutWord (List.isEmpty_iff.mp hNil))
      refine ⟨.any, ?_⟩
      rw [← skeleton_of_cut hCut, hRest, ← List.singleton_append, skeleton_append,
        ← skeleton_strip bound, hBlank]
      rfl
  | case6 text depth reversed hCut bound hRest words _ w hWord _ _ inner hInner =>
      rename_i ih
      cases h
      obtain ⟨hLetters, hBound⟩ := boundWord?_eq_some hWord
      have hNone : skeleton ',' words.1 = [] := by
        rw [hLetters]
        cases w <;> rfl
      have hSkeleton : skeleton ',' words.2 = skeleton ',' text := by
        rw [← skeleton_of_cut hCut, hRest, ← List.singleton_append, skeleton_append,
          ← skeleton_strip bound, ← skeleton_cutWord (strip bound), hNone]
        rfl
      obtain ⟨hNormal, hKept⟩ := (ih hInner).bound hBound (inner.depth + depth)
      exact ⟨hNormal, hKept.trans hSkeleton⟩
  | case8 text depth reversed hCut base hFirst hDrop hBase =>
      cases h
      exact normalizes_name (.of_cut hCut) (skeleton_of_cut hCut) (head?_ne_of_forall hFirst)
        (not_mem_of_dropWhile hDrop) hBase
  | case12 text depth reversed hCut first inner arguments hArguments base hFirst hDrop hLast _
      hBase ih =>
      cases h
      have hEnd : reversed.reverse.getLast? = some '>' := by simpa using hLast
      rw [mapM_eq_ok_iff] at hArguments
      have hNormal : List.Forall₂ Normalizes (split ',' inner.dropLast) arguments := by
        have hParts := hArguments.imp fun part a hRead => ih part hRead
        rwa [← List.forall₂_map_left_iff (f := Subtype.val), List.attach_map_subtype_val] at hParts
      exact normalizes_arguments (.of_cut hCut) (skeleton_of_cut hCut) (head?_ne_of_forall hFirst)
        (eq_of_brackets hDrop hEnd) (not_mem_takeWhile _) hNormal hBase

/-- What is printed of a tree that was read, from whatever text, is read as the tree. -/
theorem parse_print_of_parse {text : String} {t : TypeName} (h : parse text = .ok t) :
    parse t.print = .ok t := by
  refine (normalizes_of_read h).normal.returns _ ?_
  rw [print, String.toList_ofList]

/-- A wildcard that was bounded by another one, and a base with a bracket and a comma in it. -/
private def stray : TypeName :=
  mk "m" [mk "e" [] 2 (some .extends), mk "?" [] 0 (some .any), mk "a>b,c" [] 0 none] 1 none

theorem parse_print_of_parse_stray :
    parse " m < ? extends ? super e [ ] [ ] , ?[ ] , a > b , c > [ ] " = .ok stray ∧
      parse "m<? extends e[][], ?, a>b,c>[]" = .ok stray := by
  have hRead : parse " m < ? extends ? super e [ ] [ ] , ?[ ] , a > b , c > [ ] " = .ok stray := by
    decide +kernel
  have hPrint : stray.print = "m<? extends e[][], ?, a>b,c>[]" := by decide +kernel
  refine ⟨hRead, ?_⟩
  rw [← hPrint]
  exact parse_print_of_parse hRead

end TypeName

end BinderIdl
