import BinderIdl.Proofs.TypeName.Respacing

/-! Blanks at the ends of texts and between words: what is left of a text when they are taken
off, and which words are found when they were put in. -/
namespace BinderIdl.Text

theorem head?_dropWhile_isBlank (cs : List Char) :
    ∀ c ∈ (cs.dropWhile isBlank).head?, isBlank c = false := by
  intro c hc
  have hNot := List.head?_dropWhile_not isBlank cs
  rwa [Option.mem_def.mp hc] at hNot

/-- The blanks around a text may be many or none. -/
theorem exists_strip (cs : List Char) :
    ∃ before behind, AllBlank before ∧ AllBlank behind ∧ cs = before ++ strip cs ++ behind := by
  obtain ⟨before, hBefore, hLeft⟩ := exists_stripLeft cs
  obtain ⟨behind, hBehind, hRight⟩ := exists_stripRight (stripLeft cs)
  refine ⟨before, behind, hBefore, hBehind, ?_⟩
  rw [strip, List.append_assoc, ← hRight, ← hLeft]

theorem head?_strip (cs : List Char) : ∀ c ∈ (strip cs).head?, isBlank c = false := by
  intro c hc
  obtain ⟨bs, -, hRight⟩ := exists_stripRight (stripLeft cs)
  refine head?_dropWhile_isBlank cs c ?_
  rw [← stripLeft, hRight, List.head?_append, ← strip, Option.mem_def.mp hc]
  rfl

/-- A text without a first word is blank. -/
theorem allBlank_of_cutWord {cs : List Char} (h : (cutWord cs).1 = []) : AllBlank cs := by
  obtain ⟨bs, hBlank, hText⟩ := exists_stripLeft cs
  have hNil : stripLeft cs = [] := by
    have hFirst := head?_dropWhile_isBlank cs
    rw [← stripLeft] at hFirst
    simp only [cutWord] at h
    cases hRest : stripLeft cs with
    | nil => rfl
    | cons c rest =>
        rw [hRest] at hFirst h
        rw [List.takeWhile_cons_of_pos (by rw [hFirst c rfl]; rfl)] at h
        cases h
  rw [hText, hNil, List.append_nil]
  exact hBlank

theorem mem_squeeze {cs : List Char} {c : Char} :
    c ∈ squeeze cs ↔ c ∈ cs ∧ isBlank c = false := by
  simp [squeeze]

theorem head?_squeeze {cs : List Char} (h : ∀ c ∈ cs.head?, isBlank c = false) :
    (squeeze cs).head? = cs.head? := by
  cases cs with
  | nil => rfl
  | cons c cs =>
      rw [squeeze, List.filter_cons_of_pos (by rw [h c rfl]; rfl)]
      rfl

theorem getLast?_squeeze {cs : List Char} (h : ∀ c ∈ cs.getLast?, isBlank c = false) :
    (squeeze cs).getLast? = cs.getLast? := by
  have hReverse : (squeeze cs.reverse).head? = cs.reverse.head? :=
    head?_squeeze (by rwa [List.head?_reverse])
  rwa [squeeze, List.filter_reverse, List.head?_reverse, List.head?_reverse] at hReverse

/-- A text without blanks at its ends is stripped. -/
theorem strip_eq_self {cs : List Char} (hFirst : ∀ c ∈ cs.head?, isBlank c = false)
    (hLast : ∀ c ∈ cs.getLast?, isBlank c = false) : strip cs = cs := by
  have hDrop : ∀ {ds : List Char}, (∀ c ∈ ds.head?, isBlank c = false) →
      ds.dropWhile isBlank = ds := by
    intro ds hHead
    cases ds with
    | nil => rfl
    | cons d ds => exact dropWhile_isBlank_cons (hHead d rfl) ds
  rw [strip, stripLeft, hDrop hFirst, stripRight, hDrop (by rwa [List.head?_reverse]),
    List.reverse_reverse]

/-- A text with blanks around it. -/
def Spaced (cs text : List Char) : Prop :=
  ∃ before behind, AllBlank before ∧ AllBlank behind ∧ text = before ++ cs ++ behind

namespace Spaced

variable {cs text : List Char}

theorem refl (cs : List Char) : Spaced cs cs :=
  ⟨[], [], AllBlank.nil, AllBlank.nil, by simp⟩

variable (hStrip : strip cs = cs) (hNil : cs ≠ [])

include hStrip hNil

theorem stripLeft_append (rest : List Char) : stripLeft (cs ++ rest) = cs ++ rest := by
  have hFirst := head?_strip cs
  obtain ⟨c, more, rfl⟩ := List.exists_cons_of_ne_nil hNil
  rw [hStrip] at hFirst
  exact dropWhile_isBlank_cons (hFirst c rfl) _

/-- The blanks around a text are taken off. -/
theorem strip_eq (h : Spaced cs text) : strip text = cs := by
  obtain ⟨before, behind, hBefore, hBehind, rfl⟩ := h
  have hSame := stripLeft_append hStrip hNil []
  rw [List.append_nil] at hSame
  rw [List.append_assoc, strip_blank_append hBefore, strip, stripLeft_append hStrip hNil,
    stripRight_append_blank hBehind, ← hSame, ← strip, hStrip, hSame]

end Spaced

/-- The first word of a text, behind blanks and in front of others. -/
theorem cutWord_append {before word rest : List Char} (hBefore : AllBlank before)
    (hWord : ∀ c ∈ word, isBlank c = false) (hNil : word ≠ [])
    (hRest : ∀ c ∈ rest.head?, isBlank c = true) :
    cutWord (before ++ (word ++ rest)) = (word, stripLeft rest) := by
  have hRun : ∀ c ∈ word, (!isBlank c) = true := fun c hc => by rw [hWord c hc]; rfl
  obtain ⟨c, more, rfl⟩ := List.exists_cons_of_ne_nil hNil
  have hStart : stripLeft (before ++ (c :: more ++ rest)) = c :: more ++ rest := by
    rw [stripLeft_blank_append hBefore]
    exact dropWhile_isBlank_cons (hWord c List.mem_cons_self) _
  have hTake : rest.takeWhile (fun c => !isBlank c) = [] := by
    cases rest with
    | nil => rfl
    | cons d rest => exact List.takeWhile_cons_of_neg (by rw [hRest d rfl]; decide)
  have hDrop : rest.dropWhile (fun c => !isBlank c) = rest := by
    cases rest with
    | nil => rfl
    | cons d rest => exact List.dropWhile_cons_of_neg (by rw [hRest d rfl]; decide)
  simp only [cutWord, hStart, List.takeWhile_append_of_pos hRun, List.dropWhile_append_of_pos hRun,
    hTake, hDrop, List.append_nil]

end BinderIdl.Text
