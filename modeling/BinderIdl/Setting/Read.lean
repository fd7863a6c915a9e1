import BinderIdl.Setting

/-! The reader of settings in the notation of JSON. Numbers may also be one of
the words for infinity and for no number; a field that comes twice keeps its
first place and its last value. The text is read from its start, and the first
thing that cannot be read ends it. -/
namespace BinderIdl.Setting

/-- Why a text cannot be read. -/
inductive ReadFault where
  /-- It is not in the notation. -/
  | malformed
  /-- A whole number has too many digits. -/
  | longNumber
  /-- Lists and objects are nested too deeply. -/
  | deep
  deriving DecidableEq, Repr

/-- The message of a fault. -/
def ReadFault.message : ReadFault → String
  | malformed => "The configuration is not valid JSON"
  | longNumber => "Exceeds the limit (4300 digits) for integer string conversion"
  | deep => "maximum recursion depth exceeded while decoding the configuration"

/-- The greatest number of digits in a whole number. -/
def digitLimit : Nat := 4300

/-- How deeply lists and objects can be nested. -/
def nestingLimit : Nat := 982

/-- Skip blanks. -/
def skipBlank (cs : List Char) : List Char :=
  cs.dropWhile fun c => c == ' ' || c == '\t' || c == '\n' || c == '\r'

/-- The value of a hexadecimal digit. -/
def hexValue? (c : Char) : Option Nat :=
  if c.isDigit then some (c.toNat - '0'.toNat)
  else if 'a' ≤ c ∧ c ≤ 'f' then some (c.toNat - 'a'.toNat + 10)
  else if 'A' ≤ c ∧ c ≤ 'F' then some (c.toNat - 'A'.toNat + 10)
  else none

/-- The number that four hexadecimal digits stand for, and what follows. -/
def unit? : List Char → Option (Nat × List Char)
  | a :: b :: c :: d :: cs => do
      let a ← hexValue? a
      let b ← hexValue? b
      let c ← hexValue? c
      let d ← hexValue? d
      return (a * 4096 + b * 256 + c * 16 + d, cs)
  | _ => none

/-- What a single character behind a backslash stands for. -/
def escape? : Char → Option Char
  | '\x22' => some '\x22'
  | '\x5c' => some '\x5c'
  | '/' => some '/'
  | 'b' => some '\x08'
  | 'f' => some '\x0c'
  | 'n' => some '\n'
  | 'r' => some '\r'
  | 't' => some '\t'
  | _ => none

/-- What a unit stands for by itself. -/
def single (unit : Nat) : Text.Glyph :=
  if h : 0xD800 ≤ unit ∧ unit < 0xE000 then .half ⟨unit - 0xD800, by omega⟩
  else .char (Char.ofNat unit)

/-- What a unit stands for in a text, where it is joined with a second unit behind
it if the two are a pair; and what follows. A half of a pair that is alone stays
one. -/
def joined (high : Nat) (cs : List Char) : Text.Glyph × List Char :=
  if 0xD800 ≤ high ∧ high < 0xDC00 then
    match cs with
    | '\x5c' :: 'u' :: rest =>
        match unit? rest with
        | some (low, rest) =>
            if 0xDC00 ≤ low ∧ low < 0xE000 then
              (.char (Char.ofNat (0x10000 + (high - 0xD800) * 1024 + (low - 0xDC00))), rest)
            else (single high, cs)
        | none => (single high, cs)
    | _ => (single high, cs)
  else (single high, cs)

/-- The rest of a text up to its closing quote, and what follows. -/
def readText : Nat → List Char → Option (Text.Loose × List Char)
  | 0, _ => none
  | fuel + 1, cs =>
      match cs with
      | [] => none
      | '\x22' :: rest => some ([], rest)
      | '\x5c' :: 'u' :: rest =>
          match unit? rest with
          | none => none
          | some (high, rest) =>
              let (meant, rest) := joined high rest
              (readText fuel rest).map fun (found, rest) => (meant :: found, rest)
      | '\x5c' :: e :: rest =>
          match escape? e with
          | none => none
          | some c => (readText fuel rest).map fun (found, rest) => (.char c :: found, rest)
      | c :: rest =>
          if c.toNat < 32 ∨ c = '\x5c' then none
          else (readText fuel rest).map fun (found, rest) => (.char c :: found, rest)

/-- The digits at the start, and what follows. -/
def digits (cs : List Char) : List Char × List Char := cs.span Char.isDigit

/-- The whole part of a number: zero, or digits that do not start with zero. -/
def wholePart? : List Char → Option (List Char × List Char)
  | '0' :: cs => some (['0'], cs)
  | cs =>
      match digits cs with
      | ([], _) => none
      | found => some found

/-- A fraction, if there is one. -/
def fraction : List Char → List Char × List Char
  | '.' :: cs =>
      match digits cs with
      | ([], _) => ([], '.' :: cs)
      | (ds, rest) => ('.' :: ds, rest)
  | cs => ([], cs)

/-- An exponent, if there is one. -/
def exponent (cs : List Char) : List Char × List Char :=
  match cs with
  | e :: rest =>
      if e = 'e' ∨ e = 'E' then
        let (sign, rest) :=
          match rest with
          | '+' :: rest => (['+'], rest)
          | '-' :: rest => (['-'], rest)
          | _ => ([], rest)
        match digits rest with
        | ([], _) => ([], cs)
        | (ds, rest) => (e :: sign ++ ds, rest)
      else ([], cs)
  | [] => ([], [])

/-- The number that decimal digits stand for. -/
def ofDigits (ds : List Char) : Nat := ds.foldl (fun n d => 10 * n + (d.toNat - '0'.toNat)) 0

/-- The power of ten in an exponent. -/
def powerOf (power : List Char) : Int :=
  match power.drop 1 with
  | '-' :: ds => -ofDigits ds
  | '+' :: ds => ofDigits ds
  | ds => ofDigits ds

/-- The value of a number with a fraction and an exponent. -/
def decimalOf (whole part power : List Char) : Decimal :=
  ⟨ofDigits (whole ++ part.drop 1), powerOf power - (part.drop 1).length⟩

/-- A number, and what follows. -/
def readNumber (cs : List Char) : Except ReadFault (Setting × List Char) :=
  let (negative, cs) :=
    match cs with
    | '-' :: cs => (true, cs)
    | _ => (false, cs)
  match wholePart? cs with
  | none => .error .malformed
  | some (whole, cs) =>
      let (part, cs) := fraction cs
      let (power, cs) := exponent cs
      if part.isEmpty && power.isEmpty then
        if digitLimit < whole.length then .error .longNumber
        else
          let n : Int := ofDigits whole
          .ok (.int (if negative then -n else n), cs)
      else
        let sign := if negative then ['-'] else []
        .ok (.real (String.ofList (sign ++ whole ++ part ++ power)) (some (decimalOf whole part power)),
          cs)

/-- The words that are values. -/
def words : List (String × Setting) := [
  ("null", .null),
  ("true", .bool true),
  ("false", .bool false),
  ("NaN", .real "nan" none),
  ("Infinity", .real "inf" none),
  ("-Infinity", .real "-inf" none)]

/-- A word that is a value, and what follows. -/
def readWord (cs : List Char) : Option (Setting × List Char) :=
  words.findSome? fun (word, v) =>
    if word.toList.isPrefixOf cs then some (v, cs.drop word.toList.length) else none

/-- Set a field, which keeps its place if it was set before. -/
def putField (fields : List (Text.Loose × Setting)) (key : Text.Loose) (v : Setting) :
    List (Text.Loose × Setting) :=
  if fields.any fun (k, _) => k == key then
    fields.map fun (k, w) => if k == key then (k, v) else (k, w)
  else fields ++ [(key, v)]

/-- A text behind its first quote, and what follows. -/
def readQuoted (cs : List Char) : Except ReadFault (Text.Loose × List Char) :=
  match readText (cs.length + 1) cs with
  | some (found, rest) => .ok (found, rest)
  | none => .error .malformed

mutual

/-- A value, and what follows. The depth is the number of lists and objects that
can still be opened inside each other. -/
def readValue : Nat → Nat → List Char → Except ReadFault (Setting × List Char)
  | 0, _, _ => .error .malformed
  | fuel + 1, depth, cs =>
      match cs, depth with
      | '\x22' :: rest, _ => do
          let (found, rest) ← readQuoted rest
          return (.text found, rest)
      | '[' :: _, 0 => .error .deep
      | '\x7b' :: _, 0 => .error .deep
      | '[' :: rest, depth + 1 =>
          match skipBlank rest with
          | ']' :: rest => .ok (.list [], rest)
          | rest => do
              let (vs, rest) ← readElements fuel depth rest
              return (.list vs, rest)
      | '\x7b' :: rest, depth + 1 =>
          match skipBlank rest with
          | '\x7d' :: rest => .ok (.object [], rest)
          | rest => do
              let (fs, rest) ← readFields fuel depth [] rest
              return (.object fs, rest)
      | _, _ =>
          match readWord cs with
          | some found => .ok found
          | none => readNumber cs

/-- The elements of a list up to its end, and what follows. -/
def readElements : Nat → Nat → List Char → Except ReadFault (List Setting × List Char)
  | 0, _, _ => .error .malformed
  | fuel + 1, depth, cs => do
      let (v, rest) ← readValue fuel depth (skipBlank cs)
      match skipBlank rest with
      | ']' :: rest => return ([v], rest)
      | ',' :: rest => do
          let (vs, rest) ← readElements fuel depth rest
          return (v :: vs, rest)
      | _ => throw .malformed

/-- The fields of an object up to its end, behind those that were read before,
and what follows. -/
def readFields : Nat → Nat → List (Text.Loose × Setting) → List Char →
    Except ReadFault (List (Text.Loose × Setting) × List Char)
  | 0, _, _, _ => .error .malformed
  | fuel + 1, depth, fields, cs =>
      match skipBlank cs with
      | '\x22' :: rest => do
          let (key, rest) ← readQuoted rest
          match skipBlank rest with
          | ':' :: rest => do
              let (v, rest) ← readValue fuel depth (skipBlank rest)
              let fields := putField fields key v
              match skipBlank rest with
              | '\x7d' :: rest => return (fields, rest)
              | ',' :: rest => readFields fuel depth fields rest
              | _ => throw .malformed
          | _ => throw .malformed
      | _ => .error .malformed

end

/-- The setting that a text holds, with blanks around it and nothing else. -/
def read (cs : List Char) : Except ReadFault Setting := do
  let (v, rest) ← readValue (2 * cs.length + 2) nestingLimit (skipBlank cs)
  if (skipBlank rest).isEmpty then return v else throw .malformed

end BinderIdl.Setting
