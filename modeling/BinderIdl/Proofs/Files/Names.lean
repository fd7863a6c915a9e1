import BinderIdl.FileTree

/-! The bytes of texts that name files. A byte of ASCII stands for its character and
for nothing else, so that slashes, dots and null characters are found alike in a text
and in its bytes; and every name reads as a text that has its bytes. -/
namespace BinderIdl.Text

/-- The byte of a character of ASCII. -/
def byteOf (c : Char) : UInt8 := UInt8.ofNat c.toNat

theorem toNat_byteOf {c : Char} (h : c.toNat < 0x80) : (byteOf c).toNat = c.toNat := by
  rw [byteOf, UInt8.toNat_ofNat']
  omega

theorem utf8EncodeChar_ascii {c : Char} (h : c.toNat < 0x80) :
    String.utf8EncodeChar c = [byteOf c] := by
  have h' : c.val.toNat ≤ 127 := Nat.le_of_lt_succ h
  simp only [String.utf8EncodeChar, if_pos h']
  rfl

/-- Only a character of ASCII has a byte of ASCII, and it has no other byte. -/
theorem toNat_eq_of_mem_utf8EncodeChar {c : Char} {b : UInt8}
    (hMem : b ∈ String.utf8EncodeChar c) (hAscii : b.toNat < 0x80) : c.toNat = b.toNat := by
  show c.val.toNat = b.toNat
  simp only [String.utf8EncodeChar] at hMem
  -- Every byte of a longer encoding is a number to which at least 128 was added.
  split at hMem
  · simp only [List.mem_singleton] at hMem
    rw [hMem, UInt8.toNat_ofNat']
    omega
  · split at hMem
    · simp only [List.mem_cons, List.not_mem_nil, or_false, ← UInt8.toNat_inj,
        UInt8.toNat_ofNat'] at hMem
      omega
    · split at hMem <;>
      · simp only [List.mem_cons, List.not_mem_nil, or_false, ← UInt8.toNat_inj,
          UInt8.toNat_ofNat'] at hMem
        omega

namespace Glyph

theorem bytes?_ne_nil {g : Glyph} {bs : List UInt8} (h : g.bytes? = some bs) : bs ≠ [] := by
  cases g with
  | char c =>
      cases h
      exact String.utf8EncodeChar_ne_nil
  | half n =>
      simp only [bytes?] at h
      split at h
      · cases h
        simp
      · cases h

theorem byteOf_mem_iff {g : Glyph} {bs : List UInt8} (h : g.bytes? = some bs) {c : Char}
    (hc : c.toNat < 0x80) : byteOf c ∈ bs ↔ g = .char c := by
  constructor
  · intro hMem
    have hByte := toNat_byteOf hc
    cases g with
    | char d =>
        cases h
        have hCode : d.toNat = c.toNat := by
          rw [toNat_eq_of_mem_utf8EncodeChar hMem (by omega), hByte]
        rw [← Char.ofNat_toNat d, hCode, Char.ofNat_toNat]
    | half n =>
        simp only [bytes?] at h
        split at h
        · -- The byte of a half is beyond ASCII.
          cases h
          rename_i hRange
          rw [List.mem_singleton, ← UInt8.toNat_inj, hByte, UInt8.toNat_ofNat'] at hMem
          omega
        · cases h
  · rintro rfl
    cases h
    simp [utf8EncodeChar_ascii hc]

theorem bytes?_ofByte {b : UInt8} (h : 0x80 ≤ b.toNat) : (ofByte b).bytes? = some [b] := by
  have hLt := b.toNat_lt
  simp only [ofByte, bytes?]
  rw [if_pos (by omega), Nat.add_sub_cancel_left, UInt8.ofNat_toNat]

end Glyph

namespace Loose

@[simp]
theorem bytes?_nil : bytes? [] = some [] := rfl

theorem bytes?_cons_eq_some {g : Glyph} {t : Loose} {bs : List UInt8} :
    bytes? (g :: t) = some bs ↔
      ∃ a b, g.bytes? = some a ∧ t.bytes? = some b ∧ bs = a ++ b := by
  simp only [bytes?, List.mapM_cons, Option.map_eq_some_iff, Option.bind_eq_bind,
    Option.bind_eq_some_iff, Option.pure_def, Option.some.injEq]
  constructor
  · rintro ⟨_, ⟨a, ha, l, hl, rfl⟩, rfl⟩
    exact ⟨a, l.flatten, ha, ⟨l, hl, rfl⟩, rfl⟩
  · rintro ⟨a, b, ha, ⟨l, hl, rfl⟩, rfl⟩
    exact ⟨a :: l, ⟨a, ha, l, hl, rfl⟩, rfl⟩

theorem bytes?_append_eq_some {s t : Loose} {bs : List UInt8} :
    (s ++ t).bytes? = some bs ↔
      ∃ a b, s.bytes? = some a ∧ t.bytes? = some b ∧ bs = a ++ b := by
  induction s generalizing bs with
  | nil => simp
  | cons g s ih =>
      simp only [List.cons_append, bytes?_cons_eq_some, ih]
      constructor
      · rintro ⟨a, _, ha, ⟨b, c, hb, hc, rfl⟩, rfl⟩
        exact ⟨a ++ b, c, ⟨a, b, ha, hb, rfl⟩, hc, (List.append_assoc ..).symm⟩
      · rintro ⟨_, c, ⟨a, b, ha, hb, rfl⟩, hc, rfl⟩
        exact ⟨a, b ++ c, ha, ⟨b, c, hb, hc, rfl⟩, List.append_assoc ..⟩

/-- A text can be a name if each of its glyphs has bytes. -/
theorem isSome_bytes?_iff {t : Loose} : t.bytes?.isSome ↔ ∀ g ∈ t, g.bytes?.isSome := by
  induction t with
  | nil => simp
  | cons g t ih =>
      rw [List.forall_mem_cons, ← ih]
      simp only [Option.isSome_iff_exists, bytes?_cons_eq_some]
      constructor
      · rintro ⟨_, a, b, ha, hb, _⟩
        exact ⟨⟨a, ha⟩, ⟨b, hb⟩⟩
      · rintro ⟨⟨a, ha⟩, ⟨b, hb⟩⟩
        exact ⟨a ++ b, a, b, ha, hb, rfl⟩

theorem bytes?_eq_nil {t : Loose} (h : t.bytes? = some []) : t = [] := by
  cases t with
  | nil => rfl
  | cons g t =>
      obtain ⟨a, b, ha, _, hNil⟩ := bytes?_cons_eq_some.mp h
      exact absurd (List.append_eq_nil_iff.mp hNil.symm).1 (Glyph.bytes?_ne_nil ha)

/-- A character of ASCII is in a text if its byte is among the bytes. -/
theorem byteOf_mem_iff {t : Loose} {bs : List UInt8} (h : t.bytes? = some bs) {c : Char}
    (hc : c.toNat < 0x80) : byteOf c ∈ bs ↔ .char c ∈ t := by
  induction t generalizing bs with
  | nil =>
      cases h
      simp
  | cons g t ih =>
      obtain ⟨a, b, ha, hb, rfl⟩ := bytes?_cons_eq_some.mp h
      rw [List.mem_append, List.mem_cons, Glyph.byteOf_mem_iff ha hc, ih hb, eq_comm]

/-- The first byte is a character of ASCII if the text starts with it. -/
theorem head?_bytes_iff {t : Loose} {bs : List UInt8} (h : t.bytes? = some bs) {c : Char}
    (hc : c.toNat < 0x80) : bs.head? = some (byteOf c) ↔ t.head? = some (.char c) := by
  cases t with
  | nil =>
      cases h
      simp
  | cons g t =>
      obtain ⟨a, b, ha, _, rfl⟩ := bytes?_cons_eq_some.mp h
      obtain ⟨x, xs, rfl⟩ := List.exists_cons_of_ne_nil (Glyph.bytes?_ne_nil ha)
      simp only [List.cons_append, List.head?_cons, Option.some.injEq]
      constructor
      · rintro rfl
        exact (Glyph.byteOf_mem_iff ha hc).mp List.mem_cons_self
      · rintro rfl
        simp only [Glyph.bytes?, utf8EncodeChar_ascii hc, Option.some.injEq,
          List.cons.injEq] at ha
        exact ha.1.symm

/-- Bytes of ASCII are the bytes of one text only. -/
theorem eq_of_bytes?_ascii {t : Loose} (cs : List Char) (hAscii : ∀ c ∈ cs, c.toNat < 0x80)
    (h : t.bytes? = some (cs.map byteOf)) : t = cs.map .char := by
  induction cs generalizing t with
  | nil => exact bytes?_eq_nil h
  | cons c cs ih =>
      have hc := hAscii c List.mem_cons_self
      cases t with
      | nil => simp at h
      | cons g t =>
          obtain ⟨a, b, ha, hb, hBytes⟩ := bytes?_cons_eq_some.mp h
          obtain ⟨x, xs, rfl⟩ := List.exists_cons_of_ne_nil (Glyph.bytes?_ne_nil ha)
          simp only [List.map_cons, List.cons_append, List.cons.injEq] at hBytes
          obtain ⟨rfl, hRest⟩ := hBytes
          obtain rfl := (Glyph.byteOf_mem_iff ha hc).mp List.mem_cons_self
          simp only [Glyph.bytes?, utf8EncodeChar_ascii hc, Option.some.injEq, List.cons.injEq,
            true_and] at ha
          subst ha
          rw [List.nil_append] at hRest
          subst hRest
          rw [List.map_cons, ih (fun d hd => hAscii d (List.mem_cons_of_mem _ hd)) hb]

end Loose

/-- Texts of characters with the same bytes are the same. -/
theorem eq_of_bytes?_loose {s t : String} (h : (loose s).bytes? = (loose t).bytes?) : s = t := by
  rw [bytes?_loose, bytes?_loose, Option.some.injEq] at h
  rw [← String.toByteArray_inj, ← String.utf8Encode_toList, ← String.utf8Encode_toList,
    List.utf8Encode, List.utf8Encode, h]

namespace Utf8

theorem continuation_succ {low high more bits good n : Nat} {bytes rest : List UInt8}
    (h : continuation low high (more + 1) bits good bytes = .ok (n, rest)) :
    ∃ x xs, bytes = x :: xs ∧ low ≤ x.toNat ∧ x.toNat ≤ high ∧
      continuation 0x80 0xBF more (bits * 64 + (x.toNat - 0x80)) (good + 1) xs = .ok (n, rest) := by
  cases bytes with
  | nil => simp [continuation] at h
  | cons x xs =>
      simp only [continuation] at h
      split at h
      · rename_i hRange
        simp only [Bool.and_eq_true, decide_eq_true_eq] at hRange
        exact ⟨x, xs, rfl, hRange.1, hRange.2, h⟩
      · cases h

/-- What a first byte announces, by the number of bytes that follow. -/
theorem lead?_cases {b : UInt8} {l : Lead} (h : lead? b = some l) :
    (l.more = 0 ∧ b.toNat < 0x80 ∧ l.bits = b.toNat) ∨
    (l.more = 1 ∧ 0xC2 ≤ b.toNat ∧ b.toNat < 0xE0 ∧ l.bits = b.toNat - 0xC0 ∧
      l.low = 0x80 ∧ l.high = 0xBF) ∨
    (l.more = 2 ∧ 0xE0 ≤ b.toNat ∧ b.toNat < 0xF0 ∧ l.bits = b.toNat - 0xE0 ∧
      0x80 ≤ l.low ∧ l.high ≤ 0xBF ∧ (b.toNat ≠ 0xE0 ∨ 0xA0 ≤ l.low) ∧
      (b.toNat ≠ 0xED ∨ l.high ≤ 0x9F)) ∨
    (l.more = 3 ∧ 0xF0 ≤ b.toNat ∧ b.toNat ≤ 0xF4 ∧ l.bits = b.toNat - 0xF0 ∧
      0x80 ≤ l.low ∧ l.high ≤ 0xBF ∧ (b.toNat ≠ 0xF0 ∨ 0x90 ≤ l.low) ∧
      (b.toNat ≠ 0xF4 ∨ l.high ≤ 0x8F)) := by
  simp only [lead?, beq_iff_eq] at h
  repeat' split at h
  all_goals cases h <;> dsimp only <;> omega

theorem val_ofNat {n : Nat} (h : n.isValidChar) : (Char.ofNat n).val.toNat = n := by
  rw [Char.ofNat, dif_pos h]
  rfl

/-- A character that was read from bytes is written with these bytes. -/
theorem utf8EncodeChar_continuation {b : UInt8} {l : Lead} {n good : Nat} {more rest : List UInt8}
    (hLead : lead? b = some l)
    (h : continuation l.low l.high l.more l.bits good more = .ok (n, rest)) :
    String.utf8EncodeChar (Char.ofNat n) ++ rest = b :: more := by
  have hb := b.toNat_lt
  rcases lead?_cases hLead with hOne | hTwo | hThree | hFour
  · simp only [hOne.1, continuation, Except.ok.injEq, Prod.mk.injEq] at h
    obtain ⟨rfl, rfl⟩ := h
    have hVal := val_ofNat (n := l.bits) (.inl (by omega))
    simp only [String.utf8EncodeChar, hVal]
    rw [if_pos (by omega), hOne.2.2, UInt8.ofNat_toNat]
    rfl
  · rw [hTwo.1] at h
    obtain ⟨x, xs, rfl, hxLow, hxHigh, h⟩ := continuation_succ h
    simp only [continuation, Except.ok.injEq, Prod.mk.injEq] at h
    obtain ⟨rfl, rfl⟩ := h
    have hVal := val_ofNat (n := l.bits * 64 + (x.toNat - 0x80)) (.inl (by omega))
    simp only [String.utf8EncodeChar, hVal]
    rw [if_neg (by omega), if_pos (by omega)]
    simp only [List.cons_append, List.nil_append, List.cons.injEq, ← UInt8.toNat_inj,
      UInt8.toNat_ofNat', and_true]
    omega
  · rw [hThree.1] at h
    obtain ⟨x, xs, rfl, hxLow, hxHigh, h⟩ := continuation_succ h
    obtain ⟨y, ys, rfl, hyLow, hyHigh, h⟩ := continuation_succ h
    simp only [continuation, Except.ok.injEq, Prod.mk.injEq] at h
    obtain ⟨rfl, rfl⟩ := h
    have hVal := val_ofNat
      (n := (l.bits * 64 + (x.toNat - 0x80)) * 64 + (y.toNat - 0x80))
      (show _ ∨ _ by omega)
    simp only [String.utf8EncodeChar, hVal]
    rw [if_neg (by omega), if_neg (by omega), if_pos (by omega)]
    simp only [List.cons_append, List.nil_append, List.cons.injEq, ← UInt8.toNat_inj,
      UInt8.toNat_ofNat', and_true]
    omega
  · rw [hFour.1] at h
    obtain ⟨x, xs, rfl, hxLow, hxHigh, h⟩ := continuation_succ h
    obtain ⟨y, ys, rfl, hyLow, hyHigh, h⟩ := continuation_succ h
    obtain ⟨z, zs, rfl, hzLow, hzHigh, h⟩ := continuation_succ h
    simp only [continuation, Except.ok.injEq, Prod.mk.injEq] at h
    obtain ⟨rfl, rfl⟩ := h
    have hVal := val_ofNat
      (n := ((l.bits * 64 + (x.toNat - 0x80)) * 64 + (y.toNat - 0x80)) * 64 + (z.toNat - 0x80))
      (show _ ∨ _ by omega)
    simp only [String.utf8EncodeChar, hVal]
    rw [if_neg (by omega), if_neg (by omega), if_neg (by omega)]
    simp only [List.cons_append, List.nil_append, List.cons.injEq, ← UInt8.toNat_inj,
      UInt8.toNat_ofNat', and_true]
    omega

end Utf8

/-- The bytes of a name are found again in the text that it reads as. -/
theorem Loose.bytes?_ofBytes (bytes : List UInt8) : (ofBytes bytes).bytes? = some bytes := by
  have hHigh : ∀ {b : UInt8}, Utf8.lead? b = none → 0x80 ≤ b.toNat := by
    intro b h
    simp only [Utf8.lead?] at h
    split at h
    · cases h
    · omega
  fun_induction ofBytes bytes with
  | case1 => rfl
  | case2 b more hLead ih =>
      exact bytes?_cons_eq_some.mpr ⟨[b], more, Glyph.bytes?_ofByte (hHigh hLead), ih, rfl⟩
  | case3 b more l hLead fault hFault ih =>
      have hByte : 0x80 ≤ b.toNat := by
        rcases Utf8.lead?_cases hLead with hOne | hMore | hMore | hMore
        · simp [hOne.1, Utf8.continuation] at hFault
        all_goals omega
      exact bytes?_cons_eq_some.mpr ⟨[b], more, Glyph.bytes?_ofByte hByte, ih, rfl⟩
  | case4 b more l hLead n rest hRest _ ih =>
      exact bytes?_cons_eq_some.mpr
        ⟨_, rest, rfl, ih, (Utf8.utf8EncodeChar_continuation hLead hRest).symm⟩

end BinderIdl.Text
