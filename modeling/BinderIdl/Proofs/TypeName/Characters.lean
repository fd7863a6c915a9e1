import BinderIdl.Proofs.TypeName.RoundTrip

/-! Which characters a type name is printed with: those of its names, and the signs between
them. What is read from a text has names without blanks. -/
namespace BinderIdl

namespace Text

/-- All characters of a text have a property. -/
def Over (P : Char → Prop) (s : String) : Prop := ∀ c ∈ s.toList, P c

@[simp] theorem over_append {P : Char → Prop} {s t : String} :
    Over P (s ++ t) ↔ Over P s ∧ Over P t := by
  simp only [Over, String.toList_append, List.forall_mem_append]

theorem over_ofList {P : Char → Prop} {cs : List Char} :
    Over P (String.ofList cs) ↔ ∀ c ∈ cs, P c := by
  rw [Over, String.toList_ofList]

theorem stripLeft_subset (cs : List Char) : stripLeft cs ⊆ cs := (List.dropWhile_sublist _).subset

theorem strip_subset (cs : List Char) : strip cs ⊆ cs := by
  intro c hc
  rw [strip, stripRight, List.mem_reverse] at hc
  have hLeft := (List.dropWhile_sublist _).subset hc
  exact stripLeft_subset cs (List.mem_reverse.mp hLeft)

theorem cutWord_fst_subset (cs : List Char) : (cutWord cs).1 ⊆ cs :=
  List.Subset.trans (List.takeWhile_sublist _).subset (stripLeft_subset cs)

theorem cutWord_snd_subset (cs : List Char) : (cutWord cs).2 ⊆ cs :=
  List.Subset.trans (stripLeft_subset _)
    (List.Subset.trans (List.dropWhile_sublist _).subset (stripLeft_subset cs))

end Text

theorem Brackets.subset_of_mem_splitAtDepth {separator : Char} {depth : Int} {cs part : List Char}
    (h : part ∈ splitAtDepth separator depth cs) : part ⊆ cs := by
  induction cs generalizing depth part with
  | nil =>
      rw [splitAtDepth, List.mem_singleton] at h
      rw [h]
      exact List.Subset.refl []
  | cons c cs ih =>
      rw [splitAtDepth] at h
      split at h
      · rcases List.mem_cons.mp h with rfl | h
        · exact List.nil_subset _
        · exact List.subset_cons_of_subset c (ih h)
      · split at h
        · rw [List.mem_singleton.mp h]
          exact List.cons_subset_cons c (List.nil_subset cs)
        · rename_i first parts hParts
          rcases List.mem_cons.mp h with rfl | h
          · exact List.cons_subset_cons c (ih (hParts ▸ List.mem_cons_self))
          · exact List.subset_cons_of_subset c (ih (hParts ▸ List.mem_cons_of_mem _ h))

/-- What comes out of reading one thing after another was read from one of them. -/
theorem exists_of_mapM {α β ε : Type} {f : α → Except ε β} {xs : List α} {ys : List β}
    (h : xs.mapM f = .ok ys) : ∀ y ∈ ys, ∃ x ∈ xs, f x = .ok y := by
  induction xs generalizing ys with
  | nil =>
      rw [List.mapM_nil] at h
      cases h
      simp
  | cons x xs ih =>
      rw [List.mapM_cons] at h
      cases hFirst : f x with
      | error fault =>
          rw [hFirst] at h
          cases h
      | ok y =>
          cases hRest : xs.mapM f with
          | error fault =>
              rw [hFirst, hRest] at h
              cases h
          | ok zs =>
              rw [hFirst, hRest] at h
              cases h
              rw [List.forall_mem_cons]
              refine ⟨⟨x, List.mem_cons_self, hFirst⟩, fun z hz => ?_⟩
              obtain ⟨x', hx', hz'⟩ := ih hRest z hz
              exact ⟨x', List.mem_cons_of_mem _ hx', hz'⟩

namespace TypeName

open Text

/-- Every name in a type name has a property. -/
inductive Every (P : String → Prop) : TypeName → Prop
  | mk {base : String} {arguments : List TypeName} {depth : Nat} {wildcard : Option Wildcard}
      (hBase : P base) (hArguments : ∀ a ∈ arguments, Every P a) :
      Every P (mk base arguments depth wildcard)

namespace Every

variable {P Q : String → Prop} {t : TypeName}

theorem base (h : t.Every P) : P t.base := by
  cases h with
  | mk hBase _ => exact hBase

theorem mono (h : t.Every P) (hImplies : ∀ s, P s → Q s) : t.Every Q := by
  induction h with
  | mk hBase _ ih => exact .mk (hImplies _ hBase) ih

theorem element {u : TypeName} (h : t.Every P) (hElement : t.element? = some u) : u.Every P := by
  cases h with
  | mk hBase hArguments =>
      rw [element?] at hElement
      split at hElement
      · cases hElement
        exact .mk hBase hArguments
      · cases hElement

theorem content {u : TypeName} (hObject : P object) (h : t.Every P)
    (hContent : t.content? = some u) : u.Every P := by
  cases h with
  | mk hBase hArguments =>
      rw [content?] at hContent
      split at hContent
      · rename_i b as n w hSingle
        simp only [arguments] at hSingle
        subst hSingle
        have hArgument : (TypeName.mk b as n w).Every P := hArguments _ List.mem_cons_self
        split at hContent
        · cases hContent
          exact .mk hObject (by simp)
        · cases hContent
          cases hArgument with
          | mk hBase hArguments => exact .mk hBase hArguments
      · cases hContent

end Every

/-- The signs in a printed type name, and the letters of its wildcards. -/
def signs : List Char := "?<>[], extends super".toList

theorem suffixes_subset (depth : Nat) : suffixes depth ⊆ signs := by
  intro c hc
  rw [suffixes, List.mem_flatten] at hc
  obtain ⟨pair, hPair, hc⟩ := hc
  rw [List.eq_of_mem_replicate hPair] at hc
  simp only [List.mem_cons, List.not_mem_nil, or_false] at hc
  rcases hc with rfl | rfl <;> decide

theorem word_subset (w : Wildcard) : w.word.toList ⊆ signs := by
  cases w <;> decide

section Characters

variable {P : Char → Prop} (hSigns : ∀ c ∈ signs, P c)

include hSigns

theorem forall_furtherChars {ts : List TypeName} (h : ∀ t ∈ ts, ∀ c ∈ t.chars, P c) :
    ∀ c ∈ furtherChars ts, P c := by
  induction ts with
  | nil => simp [furtherChars]
  | cons t ts ih =>
      rw [List.forall_mem_cons] at h
      simp only [furtherChars, List.forall_mem_append, List.forall_mem_cons]
      exact ⟨⟨⟨hSigns _ (by decide), hSigns _ (by decide), by simp⟩, h.1⟩, ih h.2⟩

theorem forall_argumentChars {ts : List TypeName} (h : ∀ t ∈ ts, ∀ c ∈ t.chars, P c) :
    ∀ c ∈ argumentChars ts, P c := by
  cases ts with
  | nil => simp [argumentChars]
  | cons t ts =>
      rw [List.forall_mem_cons] at h
      simp only [argumentChars, List.forall_mem_append, List.forall_mem_cons, List.cons_append]
      exact ⟨hSigns _ (by decide), ⟨h.1, forall_furtherChars hSigns h.2⟩, hSigns _ (by decide),
        by simp⟩

/-- A printed type name has the characters of its names and signs. -/
theorem Every.forall_chars {t : TypeName} (h : t.Every (Over P)) : ∀ c ∈ t.chars, P c := by
  induction h with
  | @mk base arguments depth wildcard hBase _ ih =>
      have hSuffixes : ∀ depth, ∀ c ∈ suffixes depth, P c :=
        fun depth c hc => hSigns c (suffixes_subset depth hc)
      have hNamed : ∀ depth, ∀ c ∈ chars (.mk base arguments depth none), P c := by
        intro depth
        simp only [chars_none, List.forall_mem_append]
        exact ⟨⟨hBase, forall_argumentChars hSigns ih⟩, hSuffixes depth⟩
      cases wildcard with
      | none => exact hNamed depth
      | some w =>
          by_cases hAny : w = .any
          · rw [hAny, chars]
            exact List.forall_mem_cons.mpr ⟨hSigns _ (by decide), hSuffixes depth⟩
          · simp only [chars_some base arguments depth hAny, List.forall_mem_append,
              List.forall_mem_cons, List.cons_append]
            exact ⟨hSigns _ (by decide), hSigns _ (by decide),
              ⟨fun c hc => hSigns c (word_subset w hc), hSigns _ (by decide), hNamed 0⟩,
              hSuffixes depth⟩

end Characters

theorem cutSuffixes_subset {depth n : Nat} {cs rest : List Char}
    (h : cutSuffixes depth cs = some (n, rest)) : rest ⊆ cs := by
  fun_induction cutSuffixes depth cs with
  | case1 depth cs inner hInner ih =>
      have hDrop : '[' :: inner ⊆ cs := hInner ▸ (List.dropWhile_sublist _).subset
      intro c hc
      have hInside := (List.dropWhile_sublist _).subset (ih h hc)
      exact List.mem_cons_of_mem _ (hDrop (List.mem_cons_of_mem _ hInside))
  | case2 => cases h
  | case3 =>
      cases h
      exact List.Subset.refl _

/-- What is in front of the array suffixes. -/
theorem reverse_subset {text reversed : List Char} {depth : Nat}
    (h : cutSuffixes 0 (Text.strip text).reverse = some (depth, reversed)) :
    reversed.reverse ⊆ text := by
  intro c hc
  have hStripped := cutSuffixes_subset h (List.mem_reverse.mp hc)
  exact Text.strip_subset text (List.mem_reverse.mp hStripped)

/-- A name of a text's characters other than blanks, or the name of the bare wildcard. -/
def StandsIn (text : List Char) (name : String) : Prop :=
  name = "?" ∨ ∀ c ∈ name.toList, c ∈ text ∧ isBlank c = false

theorem StandsIn.mono {part text : List Char} {name : String} (h : StandsIn part name)
    (hSubset : part ⊆ text) : StandsIn text name :=
  h.imp id fun hAll c hc => ⟨hSubset (hAll c hc).1, (hAll c hc).2⟩

theorem standsIn_of_readBase {text name : List Char} {base : String}
    (h : readBase text name = .ok base) : StandsIn name base := by
  rw [readBase] at h
  split at h
  · cases h
    refine .inr fun c hc => ?_
    rw [String.toList_ofList, squeeze, List.mem_filter] at hc
    exact ⟨hc.1, by simpa using hc.2⟩
  · cases h

/-- Every name that is read stands in the text. -/
theorem every_read {text : List Char} {t : TypeName} (h : read text = .ok t) :
    t.Every (StandsIn text) := by
  fun_induction read text generalizing t with
  | case1 | case3 | case4 | case5 | case7 | case9 | case10 | case11 => cases h
  | case2 =>
      cases h
      exact .mk (.inl rfl) (by simp)
  | case6 text depth reversed hCut bound hRest words _ w _ _ _ inner hInner =>
      rename_i ih
      have hSubset : words.2 ⊆ text := by
        intro c hc
        apply reverse_subset hCut
        rw [hRest]
        exact List.mem_cons_of_mem _ (strip_subset bound (cutWord_snd_subset _ hc))
      have hBound := (ih hInner).mono fun _ hName => hName.mono hSubset
      cases h
      cases hBound with
      | mk hBase hArguments => exact .mk hBase hArguments
  | case8 text depth reversed hCut base _ _ hBase =>
      cases h
      exact .mk ((standsIn_of_readBase hBase).mono (reverse_subset hCut)) (by simp)
  | case12 text depth reversed hCut first inner arguments hArguments base _ hInner _ _ hBase ih =>
      cases h
      refine .mk ((standsIn_of_readBase hBase).mono ?_) fun argument hMem => ?_
      · exact List.Subset.trans (List.takeWhile_sublist _).subset (reverse_subset hCut)
      · obtain ⟨part, -, hArgument⟩ := exists_of_mapM hArguments argument hMem
        refine (ih part hArgument).mono fun _ hName => hName.mono fun c hc => ?_
        have hInside := (List.dropLast_sublist _).subset
          (Brackets.subset_of_mem_splitAtDepth part.2 hc)
        have hRest : first :: inner ⊆ reversed.reverse := hInner ▸ (List.dropWhile_sublist _).subset
        exact reverse_subset hCut (hRest (List.mem_cons_of_mem _ hInside))

end TypeName

end BinderIdl
