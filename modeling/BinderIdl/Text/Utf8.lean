/-! Decoding UTF-8, with the place and the cause of the first fault. Encodings
longer than needed, surrogates and code points beyond the last one are refused
at their second byte, where they first become impossible. -/
namespace BinderIdl.Text.Utf8

/-- Why a byte cannot be read. -/
inductive Cause where
  /-- No character starts with this byte. -/
  | badStart
  /-- The character that started here does not go on. -/
  | badContinuation
  /-- The bytes end inside a character. -/
  | truncated
  deriving DecidableEq, Repr

/-- A fault: the offset of its first byte, the bytes it covers, the first of
them, and the cause. -/
structure Fault where
  start : Nat
  size : Nat
  byte : UInt8
  cause : Cause
  deriving DecidableEq, Repr

/-- The words for a cause. -/
def Cause.reason : Cause → String
  | .badStart => "invalid start byte"
  | .badContinuation => "invalid continuation byte"
  | .truncated => "unexpected end of data"

/-- What can stand after a first byte: how many more bytes there are, the bits
that the first byte gives, and the range of the second byte. -/
structure Lead where
  more : Nat
  bits : Nat
  low : Nat
  high : Nat

/-- The shape that a first byte announces, if it can start a character. -/
def lead? (b : UInt8) : Option Lead :=
  let n := b.toNat
  if n < 0x80 then some ⟨0, n, 0, 0⟩
  else if n < 0xC2 then none
  else if n < 0xE0 then some ⟨1, n - 0xC0, 0x80, 0xBF⟩
  else if n == 0xE0 then some ⟨2, 0, 0xA0, 0xBF⟩
  else if n == 0xED then some ⟨2, 13, 0x80, 0x9F⟩
  else if n < 0xF0 then some ⟨2, n - 0xE0, 0x80, 0xBF⟩
  else if n == 0xF0 then some ⟨3, 0, 0x90, 0xBF⟩
  else if n < 0xF4 then some ⟨3, n - 0xF0, 0x80, 0xBF⟩
  else if n == 0xF4 then some ⟨3, 4, 0x80, 0x8F⟩
  else none

/-- Read the remaining bytes of a character. A failure tells how many bytes
were good, and whether the bytes ended there. -/
def continuation (low high : Nat) : Nat → Nat → Nat → List UInt8 → Except (Nat × Cause) (Nat × List UInt8)
  | 0, bits, _, rest => .ok (bits, rest)
  | _ + 1, _, good, [] => .error (good, .truncated)
  | more + 1, bits, good, b :: rest =>
      if low ≤ b.toNat && b.toNat ≤ high then
        continuation 0x80 0xBF more (bits * 64 + (b.toNat - 0x80)) (good + 1) rest
      else .error (good, .badContinuation)

theorem continuation_length {low high more bits good : Nat} {bytes rest : List UInt8} {n : Nat}
    (h : continuation low high more bits good bytes = .ok (n, rest)) :
    rest.length ≤ bytes.length := by
  induction more generalizing low high bits good bytes with
  | zero =>
      simp only [continuation, Except.ok.injEq, Prod.mk.injEq] at h
      exact Nat.le_of_eq (congrArg List.length h.2.symm)
  | succ more ih =>
      cases bytes with
      | nil => simp [continuation] at h
      | cons b bytes =>
          simp only [continuation] at h
          split at h
          · exact Nat.le_succ_of_le (ih h)
          · cases h

/-- Decode bytes that stand at an offset. The characters before the first fault
come with it, and so do the bytes from the fault on. -/
def decodeFrom (offset : Nat) (bytes : List UInt8) : List Char × Option Fault :=
  match bytes with
  | [] => ([], none)
  | b :: more =>
      match lead? b with
      | none => ([], some ⟨offset, 1, b, .badStart⟩)
      | some l =>
          match h : continuation l.low l.high l.more l.bits 1 more with
          | .error (good, cause) => ([], some ⟨offset, good, b, cause⟩)
          | .ok (n, rest) =>
              have := continuation_length h
              let (cs, fault) := decodeFrom (offset + 1 + l.more) rest
              (Char.ofNat n :: cs, fault)
termination_by bytes.length

/-- The text of the bytes, or their first fault. -/
def decode (bytes : ByteArray) : Except Fault (List Char) :=
  match decodeFrom 0 bytes.toList with
  | (cs, none) => .ok cs
  | (_, some fault) => .error fault

/-- Decode a stream that arrives in blocks of `size + 1` bytes, of which the
bytes of an unfinished character are kept for the next block. Offsets in a fault
count from the first byte that was not yet decoded when its block arrived, and
the end of the stream is a block of its own. -/
def decodeBlocks (size : Nat) (kept bytes : List UInt8) : Except Fault (List Char) :=
  match bytes with
  | [] =>
      match decodeFrom 0 kept with
      | (cs, none) => .ok cs
      | (_, some fault) => .error fault
  | b :: more =>
      let block := kept ++ b :: more.take size
      match decodeFrom 0 block with
      | (cs, none) => (cs ++ ·) <$> decodeBlocks size [] (more.drop size)
      | (cs, some fault) =>
          if fault.cause = .truncated then
            (cs ++ ·) <$> decodeBlocks size (block.drop fault.start) (more.drop size)
          else .error fault
termination_by bytes.length

/-- The message of a fault. A fault of one byte names the byte, a longer one the
offsets of its first and last byte. -/
def Fault.message (f : Fault) : String :=
  let byteText := String.ofList (['0', 'x'] ++
    (if f.byte.toNat < 16 then ['0'] else []) ++ Nat.toDigits 16 f.byte.toNat)
  if f.size ≤ 1 then
    "'utf-8' codec can't decode byte " ++ byteText ++ " in position " ++ toString f.start ++ ": " ++
      f.cause.reason
  else
    "'utf-8' codec can't decode bytes in position " ++ toString f.start ++ "-" ++
      toString (f.start + f.size - 1) ++ ": " ++ f.cause.reason

end BinderIdl.Text.Utf8
