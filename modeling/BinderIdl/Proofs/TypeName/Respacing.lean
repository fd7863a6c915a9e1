import BinderIdl.TypeName.Parse

/-! Type names with other blanks. Blanks may come in wherever two parts of a
type name meet, and nowhere inside a name. `Respaced` says so for one text and
another, character by character: one rule keeps a character, the other puts a
blank in front of it. The lemmas take such a text apart along the text that it
came from. -/
namespace BinderIdl

namespace Text

/-- Nothing but blanks. -/
def AllBlank (cs : List Char) : Prop := ∀ c ∈ cs, isBlank c = true

instance : DecidablePred AllBlank :=
  fun cs => List.decidableBAll (fun c => isBlank c = true) cs

theorem AllBlank.nil : AllBlank [] := fun _ hc => nomatch hc

theorem AllBlank.append {cs ds : List Char} (hc : AllBlank cs) (hd : AllBlank ds) :
    AllBlank (cs ++ ds) := List.forall_mem_append.mpr ⟨hc, hd⟩

theorem AllBlank.reverse {cs : List Char} (h : AllBlank cs) : AllBlank cs.reverse :=
  fun c hc => h c (List.mem_reverse.mp hc)

theorem AllBlank.dropWhile_append {bs : List Char} (h : AllBlank bs) (cs : List Char) :
    (bs ++ cs).dropWhile isBlank = cs.dropWhile isBlank := List.dropWhile_append_of_pos h

theorem dropWhile_isBlank_cons {c : Char} (h : isBlank c = false) (cs : List Char) :
    (c :: cs).dropWhile isBlank = c :: cs := List.dropWhile_cons_of_neg (by rw [h]; decide)

theorem exists_stripLeft (cs : List Char) : ∃ bs, AllBlank bs ∧ cs = bs ++ stripLeft cs :=
  ⟨cs.takeWhile isBlank, List.all_eq_true.mp List.all_takeWhile,
    List.takeWhile_append_dropWhile.symm⟩

theorem exists_stripRight (cs : List Char) : ∃ bs, AllBlank bs ∧ cs = stripRight cs ++ bs := by
  obtain ⟨bs, hBlank, hText⟩ := exists_stripLeft cs.reverse
  refine ⟨bs.reverse, hBlank.reverse, ?_⟩
  rw [stripRight, ← List.reverse_append]
  exact List.reverse_eq_iff.mp hText

theorem stripLeft_blank_append {bs : List Char} (h : AllBlank bs) (cs : List Char) :
    stripLeft (bs ++ cs) = stripLeft cs := h.dropWhile_append cs

theorem stripRight_append_blank {bs : List Char} (h : AllBlank bs) (cs : List Char) :
    stripRight (cs ++ bs) = stripRight cs := by
  rw [stripRight, List.reverse_append, h.reverse.dropWhile_append, stripRight]

theorem strip_blank_append {bs : List Char} (h : AllBlank bs) (cs : List Char) :
    strip (bs ++ cs) = strip cs := by
  rw [strip, stripLeft_blank_append h, strip]

theorem stripLeft_append_cons (cs : List Char) {c : Char} (h : isBlank c = false)
    (ds : List Char) : stripLeft (cs ++ c :: ds) = stripLeft cs ++ c :: ds := by
  induction cs with
  | nil => exact dropWhile_isBlank_cons h ds
  | cons b cs ih =>
      simp only [stripLeft, List.cons_append, List.dropWhile_cons] at ih ⊢
      split
      · exact ih
      · rfl

theorem stripRight_append_cons (cs : List Char) {c : Char} (h : isBlank c = false)
    (ds : List Char) : stripRight (cs ++ c :: ds) = cs ++ c :: stripRight ds := by
  have hLeft := stripLeft_append_cons ds.reverse h cs.reverse
  simp only [stripLeft] at hLeft
  simp only [stripRight, List.reverse_append, List.reverse_cons, List.append_assoc,
    List.cons_append, List.nil_append, hLeft, List.reverse_reverse]

theorem stripLeft_stripLeft (cs : List Char) : stripLeft (stripLeft cs) = stripLeft cs := by
  obtain ⟨bs, hBlank, hText⟩ := exists_stripLeft cs
  calc stripLeft (stripLeft cs) = stripLeft (bs ++ stripLeft cs) :=
        (stripLeft_blank_append hBlank _).symm
    _ = stripLeft cs := by rw [← hText]

section LastCharacter

variable {c : Char} {blanks : List Char} (hNot : isBlank c = false) (hBlank : AllBlank blanks)

include hNot hBlank

theorem stripRight_append_cons_blank (cs : List Char) :
    stripRight (cs ++ c :: blanks) = cs ++ [c] := by
  have hNone := stripRight_append_blank hBlank []
  rw [List.nil_append] at hNone
  rw [stripRight_append_cons cs hNot, hNone]
  rfl

/-- A text with a last character that is not blank loses the blanks around it. -/
theorem strip_append_cons (cs : List Char) : strip (cs ++ c :: blanks) = stripLeft cs ++ [c] := by
  rw [strip, stripLeft_append_cons cs hNot, stripRight_append_cons_blank hNot hBlank]

/-- The first word is cut off from the rest, which keeps its last character. -/
theorem cutWord_strip {before word gap : List Char} (rest : List Char) (hBefore : AllBlank before)
    (hWord : ∀ d ∈ word, isBlank d = false) (hNil : word ≠ []) (hGap : AllBlank gap)
    (hSome : gap ≠ []) :
    cutWord (strip (before ++ (word ++ (gap ++ (rest ++ c :: blanks))))) =
      (word, strip (rest ++ c :: blanks)) := by
  obtain ⟨d, more, rfl⟩ := List.exists_cons_of_ne_nil hNil
  obtain ⟨b, gaps, rfl⟩ := List.exists_cons_of_ne_nil hSome
  have hFirst : isBlank d = false := hWord d List.mem_cons_self
  have hText : strip (before ++ (d :: more ++ (b :: gaps ++ (rest ++ c :: blanks)))) =
      d :: more ++ (b :: (gaps ++ (rest ++ [c]))) := by
    rw [strip_blank_append hBefore, strip, stripLeft, List.cons_append,
      dropWhile_isBlank_cons hFirst]
    have hEnd := stripRight_append_cons_blank hNot hBlank (d :: more ++ (b :: gaps ++ rest))
    simpa using hEnd
  have hRun : ∀ e ∈ d :: more, (!isBlank e) = true := fun e he => by rw [hWord e he]; rfl
  have hStop : isBlank b = true := hGap b List.mem_cons_self
  have hTake : (d :: more ++ b :: (gaps ++ (rest ++ [c]))).takeWhile (fun e => !isBlank e) =
      d :: more := by
    rw [List.takeWhile_append_of_pos hRun]
    simp [hStop]
  have hDrop : (d :: more ++ b :: (gaps ++ (rest ++ [c]))).dropWhile (fun e => !isBlank e) =
      b :: gaps ++ (rest ++ [c]) := by
    rw [List.dropWhile_append_of_pos hRun]
    simp [hStop]
  have hStart : stripLeft (d :: more ++ b :: (gaps ++ (rest ++ [c]))) =
      d :: more ++ b :: (gaps ++ (rest ++ [c])) := dropWhile_isBlank_cons hFirst _
  simp only [cutWord, hText, hStart, hTake, hDrop, stripLeft_blank_append hGap,
    stripLeft_append_cons rest hNot, strip_append_cons hNot hBlank]

theorem strip_strip (cs : List Char) :
    strip (strip (cs ++ c :: blanks)) = strip (cs ++ c :: blanks) := by
  rw [strip_append_cons hNot hBlank, strip_append_cons hNot AllBlank.nil,
    stripLeft_stripLeft]

end LastCharacter

end Text

namespace TypeName

open Text

/-- The characters that stand for themselves in a type name. -/
def isSign (c : Char) : Bool := ['.', '<', '>', ',', '[', ']', '?'].contains c

/-- The characters of names and words. -/
def isLetter (c : Char) : Bool := !isBlank c && !isSign c

theorem isBlank_of_isLetter {c : Char} (h : isLetter c = true) : isBlank c = false := by
  simpa using (Bool.and_eq_true_iff.mp h).1

/-- A text with blanks put in. The flag tells whether a letter stands right in
front of the text: then no blank may come before another one. -/
inductive Respaced : Bool → List Char → List Char → Prop
  | nil {inside : Bool} : Respaced inside [] []
  | keep {inside : Bool} {c : Char} {cs text : List Char} (h : Respaced (isLetter c) cs text) :
      Respaced inside (c :: cs) (c :: text)
  | blank {inside : Bool} {b : Char} {cs text : List Char} (hBlank : isBlank b = true)
      (hBetween : inside = true → ∀ c ∈ cs.head?, isLetter c = false)
      (h : Respaced false cs text) : Respaced inside cs (b :: text)

theorem respaced_cons_iff {inside : Bool} {d : Char} {cs text : List Char} :
    Respaced inside cs (d :: text) ↔
      (cs.head? = some d ∧ Respaced (isLetter d) cs.tail text) ∨
        (isBlank d = true ∧ (inside = true → ∀ c ∈ cs.head?, isLetter c = false) ∧
          Respaced false cs text) := by
  constructor
  · intro h
    cases h with
    | keep h => exact .inl ⟨rfl, h⟩
    | blank hBlank hBetween h => exact .inr ⟨hBlank, hBetween, h⟩
  · rintro (⟨hHead, h⟩ | ⟨hBlank, hBetween, h⟩)
    · obtain ⟨rest, rfl⟩ := List.head?_eq_some_iff.mp hHead
      exact .keep h
    · exact .blank hBlank hBetween h

/-- Whether a text is another one with blanks put in. -/
def decideRespaced : (inside : Bool) → (cs text : List Char) → Decidable (Respaced inside cs text)
  | _, [], [] => .isTrue .nil
  | _, _ :: _, [] => .isFalse nofun
  | _, cs, d :: text =>
      have := decideRespaced (isLetter d) cs.tail text
      have := decideRespaced false cs text
      have : Decidable (∀ c ∈ cs.head?, isLetter c = false) := Option.decidableForallMem cs.head?
      decidable_of_iff _ respaced_cons_iff.symm

instance (inside : Bool) (cs text : List Char) : Decidable (Respaced inside cs text) :=
  decideRespaced inside cs text

namespace Respaced

variable {inside : Bool} {cs ds text bs : List Char} {c : Char}

/-- No blank need be put in. -/
theorem refl (inside : Bool) (cs : List Char) : Respaced inside cs cs := by
  induction cs generalizing inside with
  | nil => exact .nil
  | cons c cs ih => exact .keep (ih _)

theorem outside (h : Respaced inside cs text) : Respaced false cs text := by
  cases h with
  | nil => exact .nil
  | keep h => exact .keep h
  | blank hBlank _ h => exact .blank hBlank (fun hFalse => nomatch hFalse) h

theorem blank_append (hBlank : AllBlank bs) (h : Respaced false cs text) :
    Respaced false cs (bs ++ text) := by
  induction bs with
  | nil => exact h
  | cons b bs ih =>
      rw [AllBlank, List.forall_mem_cons] at hBlank
      exact .blank hBlank.1 (fun hFalse => nomatch hFalse) (ih hBlank.2)

theorem append_blank (h : Respaced inside cs text) (hBlank : AllBlank bs) :
    Respaced inside cs (text ++ bs) := by
  induction h with
  | nil =>
      cases bs with
      | nil => exact .nil
      | cons b bs =>
          rw [AllBlank, List.forall_mem_cons] at hBlank
          have hRest := blank_append hBlank.2 (.nil : Respaced false [] [])
          rw [List.append_nil] at hRest
          exact .blank hBlank.1 (fun _ c hc => nomatch hc) hRest
  | keep _ ih => exact .keep ih
  | blank hFirst hBetween _ ih => exact .blank hFirst hBetween ih

/-- Blanks put into two texts in a row are blanks put into each of them. -/
theorem exists_append (h : Respaced inside (cs ++ ds) text) :
    ∃ front back, text = front ++ back ∧ Respaced inside cs front ∧ Respaced false ds back := by
  generalize hText : cs ++ ds = whole at h
  induction h generalizing cs with
  | nil =>
      obtain ⟨rfl, rfl⟩ := List.append_eq_nil_iff.mp hText
      exact ⟨[], [], rfl, .nil, .nil⟩
  | @keep inside c rest text h ih =>
      cases cs with
      | nil =>
          cases hText
          exact ⟨[], c :: text, rfl, .nil, .keep h⟩
      | cons d cs =>
          cases hText
          obtain ⟨front, back, rfl, hFront, hBack⟩ := ih rfl
          exact ⟨c :: front, back, rfl, .keep hFront, hBack⟩
  | @blank inside b rest text hBlank hBetween h ih =>
      cases cs with
      | nil =>
          cases hText
          exact ⟨[], b :: text, rfl, .nil, .blank hBlank (fun hFalse => nomatch hFalse) h⟩
      | cons d cs =>
          cases hText
          obtain ⟨front, back, rfl, hFront, hBack⟩ := ih rfl
          exact ⟨b :: front, back, rfl, .blank hBlank hBetween hFront, hBack⟩

theorem allBlank (h : Respaced inside [] text) : AllBlank text := by
  generalize hText : ([] : List Char) = cs at h
  induction h with
  | nil => exact AllBlank.nil
  | keep => cases hText
  | blank hBlank _ _ ih => exact List.forall_mem_cons.mpr ⟨hBlank, ih hText⟩

/-- Only blanks come in front of the first character. -/
theorem exists_cons (h : Respaced inside (c :: cs) text) :
    ∃ bs rest, AllBlank bs ∧ text = bs ++ c :: rest ∧ Respaced (isLetter c) cs rest := by
  generalize hText : c :: cs = whole at h
  induction h with
  | nil => cases hText
  | @keep _ _ _ rest h =>
      cases hText
      exact ⟨[], rest, AllBlank.nil, rfl, h⟩
  | @blank _ b _ _ hBlank _ _ ih =>
      obtain ⟨bs, rest, hBlanks, rfl, hRest⟩ := ih hText
      exact ⟨b :: bs, rest, List.forall_mem_cons.mpr ⟨hBlank, hBlanks⟩, rfl, hRest⟩

/-- Only blanks come behind the last character. -/
theorem exists_concat (h : Respaced inside (cs ++ [c]) text) :
    ∃ rest bs, AllBlank bs ∧ text = rest ++ c :: bs ∧ Respaced inside cs rest := by
  obtain ⟨front, back, rfl, hFront, hBack⟩ := h.exists_append
  obtain ⟨bs, last, hBlank, rfl, hLast⟩ := hBack.exists_cons
  exact ⟨front ++ bs, last, hLast.allBlank, by simp, hFront.append_blank hBlank⟩

theorem eq_append_of_inside (h : Respaced true cs text) (hWord : ∀ c ∈ cs, isLetter c = true) :
    ∃ bs, AllBlank bs ∧ text = cs ++ bs := by
  induction cs generalizing text with
  | nil => exact ⟨text, h.allBlank, rfl⟩
  | cons c cs ih =>
      rw [List.forall_mem_cons] at hWord
      cases h with
      | keep h =>
          rw [hWord.1] at h
          obtain ⟨bs, hBlank, rfl⟩ := ih h hWord.2
          exact ⟨bs, hBlank, rfl⟩
      | blank _ hBetween _ =>
          have hLetter := hBetween rfl c rfl
          rw [hWord.1] at hLetter
          cases hLetter

/-- Blanks stand around a word, and not in it. -/
theorem exists_word (h : Respaced inside cs text) (hNil : cs ≠ [])
    (hWord : ∀ c ∈ cs, isLetter c = true) :
    ∃ front back, AllBlank front ∧ AllBlank back ∧ text = front ++ cs ++ back := by
  obtain ⟨c, rest, rfl⟩ := List.exists_cons_of_ne_nil hNil
  rw [List.forall_mem_cons] at hWord
  obtain ⟨front, more, hFront, rfl, hMore⟩ := h.exists_cons
  rw [hWord.1] at hMore
  obtain ⟨back, hBack, rfl⟩ := hMore.eq_append_of_inside hWord.2
  exact ⟨front, back, hFront, hBack, by simp⟩

theorem squeeze_eq (h : Respaced inside cs text) : squeeze text = squeeze cs := by
  induction h with
  | nil => rfl
  | keep _ ih => simp only [squeeze, List.filter_cons] at ih ⊢; rw [ih]
  | blank hBlank _ _ ih =>
      simp only [squeeze, List.filter_cons, hBlank] at ih ⊢
      exact ih

theorem mem_of_mem (h : Respaced inside cs text) (hc : c ∈ text) (hNot : isBlank c = false) :
    c ∈ cs := by
  have hSqueeze : c ∈ squeeze text := List.mem_filter.mpr ⟨hc, by rw [hNot]; rfl⟩
  rw [h.squeeze_eq] at hSqueeze
  exact List.mem_filter.mp hSqueeze |>.1

/-- The blanks in front of a text may be left out again. -/
theorem stripLeft (h : Respaced false cs text) (hFirst : ∀ c ∈ cs.head?, isBlank c = false) :
    Respaced false cs (stripLeft text) := by
  generalize hOutside : false = inside at h
  induction h with
  | nil => exact .nil
  | @keep _ c _ _ h =>
      rw [Text.stripLeft, dropWhile_isBlank_cons (hFirst c rfl)]
      exact .keep h
  | blank hBlank _ h ih =>
      rw [Text.stripLeft, List.dropWhile_cons_of_pos hBlank]
      subst hOutside
      exact ih hFirst rfl

theorem of_append_blank (hBlank : AllBlank bs) (h : Respaced inside cs (text ++ bs))
    (hLast : ∀ c ∈ cs.getLast?, isBlank c = false) : Respaced inside cs text := by
  induction text generalizing inside cs with
  | nil =>
      cases hEnd : cs.getLast? with
      | none =>
          rw [List.getLast?_eq_none_iff.mp hEnd]
          exact .nil
      | some c =>
          -- The last character is not blank, so it stands among the blanks.
          have hNot := hLast c hEnd
          have hMem : c ∈ squeeze cs :=
            List.mem_filter.mpr ⟨List.mem_of_getLast? hEnd, by rw [hNot]; rfl⟩
          rw [← h.squeeze_eq] at hMem
          rw [hBlank c (List.mem_filter.mp hMem).1] at hNot
          cases hNot
  | cons d text ih =>
      cases h with
      | @keep _ _ cs _ h =>
          refine .keep (ih h fun c hc => hLast c ?_)
          rw [Option.mem_def, List.getLast?_cons, Option.mem_def.mp hc, Option.getD_some]
      | blank hFirst hBetween h => exact .blank hFirst hBetween (ih h hLast)

/-- The blanks at both ends of a text may be left out again. -/
theorem strip (h : Respaced false cs text) (hFirst : ∀ c ∈ cs.head?, isBlank c = false)
    (hLast : ∀ c ∈ cs.getLast?, isBlank c = false) : Respaced false cs (strip text) := by
  obtain ⟨bs, hBlank, hText⟩ := exists_stripRight (Text.stripLeft text)
  have hLeft := h.stripLeft hFirst
  rw [hText] at hLeft
  exact of_append_blank hBlank hLeft hLast

theorem exists_concat_strip (h : Respaced false (cs ++ [c]) text) (hLast : isBlank c = false)
    (hFirst : ∀ d ∈ cs.head?, isBlank d = false) :
    ∃ rest, Text.strip text = rest ++ [c] ∧ Respaced false cs rest := by
  obtain ⟨rest, bs, hBlank, rfl, hRest⟩ := h.exists_concat
  exact ⟨Text.stripLeft rest, strip_append_cons hLast hBlank rest, hRest.stripLeft hFirst⟩

end Respaced

end TypeName

end BinderIdl
