import BinderIdl.Proofs.Files.Names
import BinderIdl.Text.Lowercase

/-! Texts with their letters made small. A dot comes from a dot and nothing else, and only the
capital I with a dot above takes more room when it is small. So where a text ends in an
extension up to the case of its letters, the text has its last dot there, and as many glyphs
behind the dot as the extension has, unless the extension has combining dots. -/
namespace BinderIdl.Text

/-- The capital I with a dot above. -/
def dottedI : Char := Char.ofNat 0x130

/-- The combining dot, which is part of a small dotted I. -/
def combiningDot : Char := Char.ofNat 0x307

theorem eq_toNat_of_ofNat {n : Nat} {c : Char} (h : Char.ofNat n = c) (hc : c.toNat ≠ 0) :
    n = c.toNat := by
  by_cases hValid : n.isValidChar
  · rw [← h]
    exact (Utf8.val_ofNat hValid).symm
  · rw [← h, Char.ofNat, dif_neg hValid] at hc
    exact absurd rfl hc

/-- No run of capital letters leads to a dot of either kind. -/
theorem ofNat_ne_of_run {r : Nat × Nat × Nat × Int} (hr : r ∈ lowercaseRuns) {n : Nat}
    (hFirst : r.1 ≤ n) (hLast : n ≤ r.2.1) {d : Char} (hd : d = '.' ∨ d = combiningDot) :
    Char.ofNat (n + r.2.2.2).toNat ≠ d := by
  have hRuns : ∀ r ∈ lowercaseRuns, ∀ m ∈ ([46, 775] : List Int),
      r.2.1 + r.2.2.2 < m ∨ m < r.1 + r.2.2.2 := by
    decide +kernel
  intro hSame
  rcases hd with rfl | rfl
  · have hCode : (n + r.2.2.2).toNat = 46 := eq_toNat_of_ofNat hSame (by decide)
    have hRun := hRuns r hr 46 (by decide)
    omega
  · have hCode : (n + r.2.2.2).toNat = 775 := eq_toNat_of_ofNat hSame (by decide)
    have hRun := hRuns r hr 775 (by decide)
    omega

/-- Every other character has one small letter, which is a dot only if the character is. -/
theorem exists_lowercaseChar {c : Char} (hc : c ≠ dottedI) :
    ∃ d, lowercaseChar c = [d] ∧ (d = '.' → c = '.') ∧ (d = combiningDot ↔ c = combiningDot) := by
  by_cases hMark : c = combiningDot
  · subst hMark
    exact ⟨combiningDot, by decide +kernel, by decide, Iff.rfl⟩
  have hCode : c.toNat ≠ 0x130 := fun h => hc (by rw [← Char.ofNat_toNat c, h]; rfl)
  rw [lowercaseChar]
  split
  · rename_i hAscii
    have hAll : ∀ n ∈ List.range 128, ((Char.ofNat n).toLower = '.' → Char.ofNat n = '.') ∧
        (Char.ofNat n).toLower ≠ combiningDot := by
      decide +kernel
    have hThis := hAll c.toNat (List.mem_range.mpr hAscii)
    rw [Char.ofNat_toNat] at hThis
    exact ⟨_, rfl, hThis.1, fun h => absurd h hThis.2, fun h => absurd h hMark⟩
  · rw [if_neg (by simpa using hCode)]
    split
    · rename_i r hFind
      have hRun := List.find?_some hFind
      simp only [Bool.and_eq_true, decide_eq_true_eq] at hRun
      have hMem := List.mem_of_find?_eq_some hFind
      have hNot := fun {d} => @ofNat_ne_of_run r hMem c.toNat hRun.1.1 hRun.1.2 d
      exact ⟨_, rfl, fun h => absurd h (hNot (.inl rfl)), fun h => absurd h (hNot (.inr rfl)),
        fun h => absurd h hMark⟩
    · exact ⟨c, rfl, id, Iff.rfl⟩

/-- What one glyph becomes, wherever it stands. -/
theorem exists_lowercaseBehind_cons (before : Loose) (g : Glyph) (t : Loose) : ∃ small : Loose,
    lowercaseBehind before (g :: t) = small ++ lowercaseBehind (g :: before) t ∧
      small.length = 1 + [g].count (.char dottedI) ∧
      small.count (.char combiningDot) =
        [g].count (.char combiningDot) + [g].count (.char dottedI) ∧
      (.char '.' ∈ small → g = .char '.') := by
  cases g with
  | half n => exact ⟨[.half n], rfl, by simp, by simp, by simp⟩
  | char c =>
      refine ⟨_, rfl, ?_⟩
      by_cases hSigma : c = 'Σ'
      · subst hSigma
        rw [if_pos rfl, lowercaseSigma]
        split <;> exact ⟨by decide, by decide, by decide⟩
      rw [if_neg hSigma]
      by_cases hDotted : c = dottedI
      · subst hDotted
        exact ⟨by decide +kernel, by decide +kernel, by decide +kernel⟩
      · obtain ⟨d, hSmall, hDot, hMark⟩ := exists_lowercaseChar hDotted
        rw [hSmall]
        refine ⟨by simp [hDotted], ?_, by simpa [eq_comm] using hDot⟩
        by_cases hc : c = combiningDot
        · simp [hMark.mpr hc, hc, dottedI, combiningDot]
        · simp [mt hMark.mp hc, hc, hDotted]

theorem length_lowercaseBehind (before t : Loose) :
    (lowercaseBehind before t).length = t.length + t.count (.char dottedI) := by
  induction t generalizing before with
  | nil => rfl
  | cons g t ih =>
      obtain ⟨small, hSmall, hLength, -, -⟩ := exists_lowercaseBehind_cons before g t
      have hCount : (g :: t).count (.char dottedI) =
          [g].count (.char dottedI) + t.count (.char dottedI) := by
        rw [← List.count_append, List.singleton_append]
      rw [hSmall, List.length_append, ih, hLength, hCount, List.length_cons]
      omega

theorem count_lowercaseBehind (before t : Loose) :
    (lowercaseBehind before t).count (.char combiningDot) =
      t.count (.char combiningDot) + t.count (.char dottedI) := by
  induction t generalizing before with
  | nil => rfl
  | cons g t ih =>
      obtain ⟨small, hSmall, -, hMarks, -⟩ := exists_lowercaseBehind_cons before g t
      have hCount : ∀ c, (g :: t).count (.char c) = [g].count (.char c) + t.count (.char c) := by
        intro c
        rw [← List.count_append, List.singleton_append]
      rw [hSmall, List.count_append, ih, hMarks, hCount, hCount]
      omega

theorem dot_mem_of_mem_lowercaseBehind {before t : Loose}
    (h : .char '.' ∈ lowercaseBehind before t) : .char '.' ∈ t := by
  induction t generalizing before with
  | nil => exact h
  | cons g t ih =>
      obtain ⟨small, hSmall, -, -, hDot⟩ := exists_lowercaseBehind_cons before g t
      rw [hSmall, List.mem_append] at h
      rcases h with h | h
      · rw [hDot h]
        exact List.mem_cons_self
      · exact List.mem_cons_of_mem g (ih h)

theorem exists_lowercaseBehind_append (before t u : Loose) : ∃ front,
    lowercaseBehind before (t ++ u) = front ++ lowercaseBehind (t.reverse ++ before) u := by
  induction t generalizing before with
  | nil => exact ⟨[], rfl⟩
  | cons g t ih =>
      obtain ⟨small, hSmall, -⟩ := exists_lowercaseBehind_cons before g (t ++ u)
      obtain ⟨front, hFront⟩ := ih (g :: before)
      refine ⟨small ++ front, ?_⟩
      rw [List.cons_append, hSmall, hFront, List.reverse_cons, List.append_assoc,
        List.append_assoc, List.singleton_append]

/-- What stands behind the last of some glyphs. -/
theorem takeWhile_reverse_append_cons {g : Glyph} {front last : Loose} (h : g ∉ last) :
    (front ++ g :: last).reverse.takeWhile (· != g) = last.reverse := by
  have hAll : ∀ x ∈ last.reverse, (x != g) = true := by
    intro x hx
    rw [bne_iff_ne]
    rintro rfl
    exact h (List.mem_reverse.mp hx)
  rw [List.reverse_append, List.reverse_cons, List.append_assoc,
    List.takeWhile_append_of_pos hAll, List.singleton_append,
    List.takeWhile_cons_of_neg (by simp), List.append_nil]

theorem exists_append_cons_of_mem {g : Glyph} {t : Loose} (h : g ∈ t) :
    ∃ front last, t = front ++ g :: last ∧ g ∉ last := by
  obtain ⟨last, front, hText, hNot⟩ := List.eq_append_cons_of_mem (List.mem_reverse.mpr h)
  refine ⟨front.reverse, last.reverse, ?_, by simpa using hNot⟩
  rw [← List.reverse_reverse t, hText]
  simp

/-- A text that ends in an extension, up to the case of letters, has its last dot where the
extension starts or further in front. -/
theorem exists_of_suffix_lowercase {extension t : Loose} (hDot : .char '.' ∉ extension)
    (hMark : .char combiningDot ∉ extension)
    (h : lowercase (.char '.' :: extension) <:+ lowercase t) :
    ∃ front last, t = front ++ .char '.' :: last ∧ .char '.' ∉ last ∧
      extension.length ≤ last.length := by
  have hSmallDot : ∀ before u, lowercaseBehind before (.char '.' :: u) =
      .char '.' :: lowercaseBehind (.char '.' :: before) u := fun _ _ => rfl
  obtain ⟨other, hOther⟩ := h
  rw [lowercase, hSmallDot] at hOther
  have hMem : .char '.' ∈ t := by
    have hSmall : .char '.' ∈ lowercaseBehind [] t := by
      rw [← lowercase, ← hOther]
      simp
    exact dot_mem_of_mem_lowercaseBehind hSmall
  obtain ⟨front, last, rfl, hLast⟩ := exists_append_cons_of_mem hMem
  refine ⟨front, last, rfl, hLast, ?_⟩
  obtain ⟨lead, hLead⟩ := exists_lowercaseBehind_append [] front (.char '.' :: last)
  rw [lowercase, hLead, hSmallDot] at hOther
  -- Both sides end with what their last dot is followed by.
  have hSame := congrArg (fun u : Loose => u.reverse.takeWhile (· != .char '.')) hOther
  simp only [takeWhile_reverse_append_cons (fun hMem => hDot (dot_mem_of_mem_lowercaseBehind hMem)),
    takeWhile_reverse_append_cons (fun hMem => hLast (dot_mem_of_mem_lowercaseBehind hMem)),
    List.reverse_inj] at hSame
  have hLength := congrArg List.length hSame
  have hCount := congrArg (List.count (.char combiningDot)) hSame
  rw [length_lowercaseBehind, length_lowercaseBehind] at hLength
  rw [count_lowercaseBehind, count_lowercaseBehind, List.count_eq_zero.mpr hMark] at hCount
  omega

end BinderIdl.Text
