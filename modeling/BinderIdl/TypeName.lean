import BinderIdl.Text.Lines

/-! Java type names as trees. -/
namespace BinderIdl

/-- How a type argument is left open. -/
inductive Wildcard where
  /-- Any type at all. -/
  | any
  | extends
  | super
  deriving DecidableEq, Repr

/-- The word for a wildcard. -/
def Wildcard.word : Wildcard → String
  | .any => "?"
  | .extends => "extends"
  | .super => "super"

/-- A type name: a base without brackets of any kind, type arguments, the number
of array suffixes, and a wildcard when it stands as an open type argument. -/
inductive TypeName where
  | mk (base : String) (arguments : List TypeName) (depth : Nat) (wildcard : Option Wildcard)
  deriving Repr

namespace TypeName

/-- The name without type arguments and array suffixes. -/
def base : TypeName → String
  | mk base _ _ _ => base

/-- The type arguments in order. -/
def arguments : TypeName → List TypeName
  | mk _ arguments _ _ => arguments

/-- The number of array suffixes. -/
def depth : TypeName → Nat
  | mk _ _ depth _ => depth

/-- How the name is left open, if it is. -/
def wildcard : TypeName → Option Wildcard
  | mk _ _ _ wildcard => wildcard

/-- A plain name. -/
def plain (base : String) : TypeName := mk base [] 0 none

mutual

/-- Whether two type names are the same. -/
def beq : TypeName → TypeName → Bool
  | mk b as d w, mk b' as' d' w' => b == b' && beqList as as' && d == d' && w == w'

/-- Whether two lists of type names are the same. -/
def beqList : List TypeName → List TypeName → Bool
  | [], [] => true
  | t :: ts, t' :: ts' => beq t t' && beqList ts ts'
  | _, _ => false

end

mutual

theorem eq_of_beq : ∀ {t u : TypeName}, beq t u = true → t = u
  | mk b as d w, mk b' as' d' w', h => by
      simp only [beq, Bool.and_eq_true, beq_iff_eq] at h
      obtain ⟨⟨⟨rfl, has⟩, rfl⟩, rfl⟩ := h
      rw [eq_of_beqList has]

theorem eq_of_beqList : ∀ {ts us : List TypeName}, beqList ts us = true → ts = us
  | [], [], _ => rfl
  | t :: ts, u :: us, h => by
      simp only [beqList, Bool.and_eq_true] at h
      rw [eq_of_beq h.1, eq_of_beqList h.2]
  | [], _ :: _, h => by simp [beqList] at h
  | _ :: _, [], h => by simp [beqList] at h

end

mutual

theorem beq_self : ∀ t : TypeName, beq t t = true
  | mk b as d w => by simp [beq, beqList_self as]

theorem beqList_self : ∀ ts : List TypeName, beqList ts ts = true
  | [] => rfl
  | t :: ts => by simp [beqList, beq_self t, beqList_self ts]

end

instance : DecidableEq TypeName := fun t u =>
  if h : beq t u = true then .isTrue (eq_of_beq h)
  else .isFalse fun e => h (e ▸ beq_self t)

/-- The type that every open type argument satisfies. -/
def object : String := "java.lang.Object"

/-- The name behind the last dot. -/
def simpleName (t : TypeName) : String :=
  String.ofList (t.base.toList.reverse.takeWhile (· != '.')).reverse

/-- The name has an array suffix. -/
def isArray (t : TypeName) : Bool := 0 < t.depth

/-- The primitive types of Java. -/
def primitives : List String :=
  ["boolean", "byte", "char", "short", "int", "long", "float", "double"]

/-- The name is, but for type arguments and a wildcard, that of a primitive. -/
def isPrimitive (t : TypeName) : Bool := !t.isArray && primitives.contains t.base

/-- The type of an array's elements. -/
def element? (t : TypeName) : Option TypeName :=
  if t.isArray then some (mk t.base t.arguments (t.depth - 1) t.wildcard) else none

/-- The single type argument. A bounded one counts as its bound, and one that
may be any type counts as the type of all objects. -/
def content? (t : TypeName) : Option TypeName :=
  match t.arguments with
  | [mk base arguments depth wildcard] =>
      match wildcard with
      | some .any => some (plain object)
      | _ => some (mk base arguments depth none)
  | _ => none

/-- The array suffixes of a depth. -/
def suffixes (depth : Nat) : List Char :=
  (List.replicate depth ['[', ']']).flatten

/-- The name without its type arguments, array suffixes kept. -/
def raw (t : TypeName) : String :=
  String.ofList (t.base.toList ++ suffixes t.depth)

/-- The same type name on another base. -/
def withBase (t : TypeName) (base : String) : TypeName :=
  mk base t.arguments t.depth t.wildcard

mutual

/-- The characters of a printed type name. A name that may be any type shows as
the bare wildcard, whatever its base and arguments. -/
def chars : TypeName → List Char
  | mk base arguments depth wildcard =>
      let named := base.toList ++
        match arguments with
        | [] => []
        | a :: as => '<' :: (chars a ++ furtherChars as) ++ ['>']
      match wildcard with
      | some .any => '?' :: suffixes depth
      | some w => ['?', ' '] ++ w.word.toList ++ [' '] ++ named ++ suffixes depth
      | none => named ++ suffixes depth

/-- The type arguments behind the first one, each with its separator. -/
def furtherChars : List TypeName → List Char
  | [] => []
  | a :: as => [',', ' '] ++ chars a ++ furtherChars as

end

/-- The printed type name. -/
def print (t : TypeName) : String := String.ofList t.chars

end TypeName

end BinderIdl
