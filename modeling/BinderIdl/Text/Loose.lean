import BinderIdl.Text.Printable
import BinderIdl.Text.Utf8

/-! Loose texts: characters, and halves of surrogate pairs that stand alone.
Settings are written in a notation that can name one half of a pair without the
other, and the names of files are bytes that need not be UTF-8; a byte that belongs
to no character reads as the half of a pair that ends in the byte. Messages show a
loose text between quotes, where what does not show is written by its digits. -/
namespace BinderIdl.Text

/-- Digits behind as many zeros as the width asks for. -/
def zeros (width : Nat) (digits : List Char) : List Char :=
  List.replicate (width - digits.length) '0' ++ digits

/-- The lower-case hexadecimal digits of a number. -/
def hex (width n : Nat) : List Char := zeros width (Nat.toDigits 16 n)

/-- The decimal digits of a number. -/
def padded (width n : Nat) : String := String.ofList (zeros width (Nat.toDigits 10 n))

/-- What a loose text is made of. -/
inductive Glyph where
  | char (c : Char)
  /-- A half of a surrogate pair, counted from the first one. -/
  | half (n : Fin 2048)
  deriving DecidableEq, Repr

namespace Glyph

/-- The code point of a glyph. -/
def code : Glyph → Nat
  | char c => c.toNat
  | half n => 0xD800 + n

/-- The character that a glyph is. -/
def char? : Glyph → Option Char
  | char c => some c
  | half _ => none

/-- Whether a glyph is a character with a property. -/
def satisfies (p : Char → Bool) : Glyph → Bool
  | char c => p c
  | half _ => false

/-- The half that stands for a byte. -/
def ofByte (b : UInt8) : Glyph := half ⟨0x400 + b.toNat, by have := b.toNat_lt; omega⟩

/-- The bytes of a glyph in the name of a file. Of the halves, only those that
stand for the bytes beyond ASCII have one. -/
def bytes? : Glyph → Option (List UInt8)
  | char c => some (String.utf8EncodeChar c)
  | half n => if 0x480 ≤ n.val ∧ n.val < 0x500 then some [UInt8.ofNat (n - 0x400)] else none

end Glyph

/-- A text that can hold halves of pairs. -/
abbrev Loose := List Glyph

/-- A text of characters as a loose one. -/
def loose (text : String) : Loose := text.toList.map .char

instance : Coe String Loose := ⟨loose⟩

theorem loose_append (s t : String) : loose (s ++ t) = loose s ++ loose t := by
  simp [loose]

/-- The notation for a code point by its four digits. -/
def escaped (n : Nat) : List Char := '\x5c' :: 'u' :: hex 4 n

namespace Loose

/-- The text of characters that a loose one is. -/
def plain? (t : Loose) : Option String := (t.mapM Glyph.char?).map String.ofList

/-- The text with its halves written by their digits. -/
def shown (t : Loose) : String :=
  String.ofList (t.flatMap fun g =>
    match g with
    | .char c => [c]
    | .half _ => escaped g.code)

/-- The bytes of a text in the name of a file. -/
def bytes? (t : Loose) : Option (List UInt8) := (t.mapM Glyph.bytes?).map List.flatten

/-- The text that the bytes of a name read as. -/
def ofBytes (bytes : List UInt8) : Loose :=
  match bytes with
  | [] => []
  | b :: more =>
      match Utf8.lead? b with
      | none => .ofByte b :: ofBytes more
      | some l =>
          match h : Utf8.continuation l.low l.high l.more l.bits 1 more with
          | .error _ => .ofByte b :: ofBytes more
          | .ok (n, rest) =>
              have := Utf8.continuation_length h
              .char (Char.ofNat n) :: ofBytes rest
termination_by bytes.length

/-- Whether a text comes before another or is the same, by code points. -/
def atMost : Loose → Loose → Bool
  | [], _ => true
  | _ :: _, [] => false
  | g :: t, h :: u => g.code < h.code || (g.code == h.code && atMost t u)

end Loose

theorem mapM_char?_map_char (cs : List Char) : (cs.map Glyph.char).mapM Glyph.char? = some cs := by
  induction cs with
  | nil => rfl
  | cons c cs ih => simp [Glyph.char?, ih]

/-- A text of characters is found again in the loose one. -/
theorem plain?_loose (s : String) : (loose s).plain? = some s := by
  simp only [loose, Loose.plain?, mapM_char?_map_char, Option.map_some, String.ofList_toList]

theorem mapM_bytes?_map_char (cs : List Char) :
    (cs.map Glyph.char).mapM Glyph.bytes? = some (cs.map String.utf8EncodeChar) := by
  induction cs with
  | nil => rfl
  | cons c cs ih => simp [Glyph.bytes?, ih]

/-- Every text of characters can be a name, with its UTF-8 bytes. -/
theorem bytes?_loose (s : String) :
    (loose s).bytes? = some (s.toList.flatMap String.utf8EncodeChar) := by
  simp only [loose, Loose.bytes?, mapM_bytes?_map_char, Option.map_some, List.flatMap_def]

/-- One character between quotes: the quote and the backslash get a backslash,
tab, line feed and carriage return their letters, and every other character
that does not show is written by its code point in two, four or eight digits. -/
def quotedChar (quote c : Char) : List Char :=
  let n := c.toNat
  if c = quote || c = '\x5c' then ['\x5c', c]
  else if c = '\n' then ['\x5c', 'n']
  else if c = '\r' then ['\x5c', 'r']
  else if c = '\t' then ['\x5c', 't']
  else if isPrintable c then [c]
  else if n < 0x100 then '\x5c' :: 'x' :: hex 2 n
  else if n < 0x10000 then escaped n
  else '\x5c' :: 'U' :: hex 8 n

/-- A glyph between quotes. A half of a pair does not show. -/
def quotedGlyph (quote : Char) : Glyph → List Char
  | .char c => quotedChar quote c
  | .half n => escaped (Glyph.half n).code

/-- The text between quotes. The quote is the apostrophe, unless the text has an
apostrophe and no double quote. -/
def quoted (text : Loose) : String :=
  let quote := if text.contains (.char '\x27') && !text.contains (.char '\x22') then '\x22' else '\x27'
  String.ofList (quote :: text.flatMap (quotedGlyph quote) ++ [quote])

end BinderIdl.Text
