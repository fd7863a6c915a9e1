import BinderIdl.Text.Lines
import BinderIdl.Text.Loose

/-! Settings: values that come from a configuration file or from a command line
and that are looked at only when they are used. Of a number with a fraction or an
exponent it matters only whether it is zero once it is rounded to a binary number of
double precision. -/
namespace BinderIdl

/-- A whole number times a power of ten. -/
structure Decimal where
  mantissa : Nat
  exponent : Int
  deriving DecidableEq, Repr

namespace Decimal

/-- The exponent of the least power of ten above the number. -/
def size (d : Decimal) : Int := (Nat.toDigits 10 d.mantissa).length + d.exponent

/-- The number rounds to zero: it is at most half of the least positive binary
number, which is two to the power of -1074. The half is between ten to the
powers of -324 and -323, so a size far from these decides at once. -/
def vanishes (d : Decimal) : Bool :=
  if d.mantissa = 0 then true
  else if d.size < -330 then true
  else if -320 < d.size then false
  else d.mantissa * Nat.pow 2 1075 ≤ Nat.pow 10 (-d.exponent).toNat

end Decimal

/-- A value of a setting. -/
inductive Setting where
  | null
  | bool (value : Bool)
  | int (value : Int)
  /-- A number that is written with a fraction or an exponent, or one of the words
  for infinity and for no number, which have no value. -/
  | real (digits : String) (value : Option Decimal)
  | text (value : Text.Loose)
  | list (values : List Setting)
  | object (fields : List (Text.Loose × Setting))
  deriving Repr, Inhabited

namespace Setting

/-- Whether a value counts as set. Zero and whatever is empty do not. -/
def isSet : Setting → Bool
  | null => false
  | bool b => b
  | int n => n != 0
  | real _ (some d) => !d.vanishes
  | real _ none => true
  | text s => !s.isEmpty
  | list values => !values.isEmpty
  | object fields => !fields.isEmpty

/-- The word for the kind of a value in messages. -/
def kind : Setting → String
  | null => "NoneType"
  | bool _ => "bool"
  | int _ => "int"
  | real .. => "float"
  | text _ => "str"
  | list _ => "list"
  | object _ => "dict"

mutual

/-- A value as it is written inside another one. -/
def inner : Setting → String
  | null => "None"
  | bool true => "True"
  | bool false => "False"
  | int n => toString n
  | real digits _ => digits
  | text s => Text.quoted s
  | list values => "[" ++ Text.join ", " (inners values) ++ "]"
  | object fields => "\x7b" ++ Text.join ", " (innerFields fields) ++ "\x7d"

/-- The values of a list as they are written inside it. -/
def inners : List Setting → List String
  | [] => []
  | v :: vs => inner v :: inners vs

/-- The fields of an object as they are written inside it. -/
def innerFields : List (Text.Loose × Setting) → List String
  | [] => []
  | (key, v) :: fs => (Text.quoted key ++ ": " ++ inner v) :: innerFields fs

end

/-- A value as a text of its own. -/
def asText : Setting → Text.Loose
  | text s => s
  | v => Text.loose (inner v)

/-- The number that a value stands for. Truth values count as zero and one. -/
def number? : Setting → Option Int
  | bool b => some (if b then 1 else 0)
  | int n => some n
  | _ => none

mutual

/-- Whether two values are the same, where truth values are numbers. -/
def same : Setting → Setting → Bool
  | null, null => true
  | text a, text b => a == b
  | real a _, real b _ => a == b
  | list as, list bs => sameAll as bs
  | a, b =>
      match a.number?, b.number? with
      | some m, some n => m == n
      | _, _ => false

/-- Whether two lists hold the same values. -/
def sameAll : List Setting → List Setting → Bool
  | [], [] => true
  | a :: as, b :: bs => same a b && sameAll as bs
  | _, _ => false

end

end Setting

/-- Why a value cannot be used for what its setting is for. -/
inductive SettingFault where
  /-- A value of this kind lacks what is asked of it. -/
  | lacks (kind member : String)
  /-- A value of this kind cannot name a folder. -/
  | noFolder (kind : String)
  /-- A value of this kind has no elements. -/
  | noElements (kind : String)
  /-- A value of this kind cannot be searched. -/
  | noContent (kind : String)
  /-- A value of this kind cannot be a member of a set. -/
  | noMember (kind : String)
  /-- A value of this kind cannot be appended to a text. -/
  | noText (kind : String)
  /-- A value of this kind has no length. -/
  | noLength (kind : String)
  /-- A value of this kind cannot stand for the class of a configuration. -/
  | noClass (kind : String)
  /-- A value of this kind cannot stand for all settings of a configuration. -/
  | noTable (kind : String)
  /-- A value of this kind stands where a configuration describes itself. -/
  | noDescription (kind : String)
  /-- A member of a configuration that cannot be set. -/
  | fixed (member : String)
  deriving DecidableEq, Repr

/-- The message of a fault. -/
def SettingFault.message : SettingFault → String
  | lacks kind member => "'" ++ kind ++ "' object has no attribute '" ++ member ++ "'"
  | noFolder kind => "unsupported operand type(s) for /: 'PosixPath' and '" ++ kind ++ "'"
  | noElements kind => "'" ++ kind ++ "' object is not iterable"
  | noContent kind => "argument of type '" ++ kind ++ "' is not iterable"
  | noMember kind => "unhashable type: '" ++ kind ++ "'"
  | noText kind => "can only concatenate str (not \"" ++ kind ++ "\") to str"
  | noLength kind => "object of type '" ++ kind ++ "' has no len()"
  | noClass kind => "__class__ must be set to a class, not '" ++ kind ++ "' object"
  | noTable kind => "__dict__ must be set to a dictionary, not a '" ++ kind ++ "'"
  | noDescription kind => "'" ++ kind ++ "' object is not callable"
  | fixed member =>
      "attribute '" ++ member ++ "' of 'CodeGeneratorConfig' objects is not writable"

end BinderIdl
