import BinderIdl.Text.Lines

/-! Java expressions, as far as generated code uses them, and their text; and the types
that can stand as type arguments. -/
namespace BinderIdl.Java

/-- Binary operators. -/
inductive Operator where
  | equal
  | notEqual
  | less
  | greater
  | greaterEqual
  | and
  | times
  | divide
  deriving DecidableEq, Repr

/-- The sign of an operator. -/
def Operator.sign : Operator → String
  | .equal => "=="
  | .notEqual => "!="
  | .less => "<"
  | .greater => ">"
  | .greaterEqual => ">="
  | .and => "&&"
  | .times => "*"
  | .divide => "/"

/-- An expression. Parentheses are part of the tree, so that a tree has one text
and the text shows no others. -/
inductive Expr where
  | null
  | int (value : Int)
  /-- A variable, a class or a constant of a class, as written. -/
  | name (text : String)
  | field (target : Expr) (member : String)
  | index (target position : Expr)
  | call (target : Expr) (method : String) (arguments : List Expr)
  /-- A call of a method of the enclosing class. -/
  | callSelf (method : String) (arguments : List Expr)
  | new (type : String) (arguments : List Expr)
  | newArray (element : String) (size : Expr)
  | cast (type : String) (operand : Expr)
  | binary (operator : Operator) (left right : Expr)
  | conditional (condition yes no : Expr)
  /-- Add one and give the new value. -/
  | preIncrement (target : Expr)
  /-- Add one and give the old value. -/
  | postIncrement (target : Expr)
  | paren (inner : Expr)
  deriving Repr

namespace Expr

mutual

/-- The text of an expression. -/
def text : Expr → String
  | null => "null"
  | int value => toString value
  | name text => text
  | field target member => target.text ++ "." ++ member
  | index target position => target.text ++ "[" ++ position.text ++ "]"
  | call target method arguments => target.text ++ "." ++ method ++ "(" ++ texts arguments ++ ")"
  | callSelf method arguments => method ++ "(" ++ texts arguments ++ ")"
  | new type arguments => "new " ++ type ++ "(" ++ texts arguments ++ ")"
  | newArray element size => "new " ++ element ++ "[" ++ size.text ++ "]"
  | cast type operand => "(" ++ type ++ ") " ++ operand.text
  | binary operator left right => left.text ++ " " ++ operator.sign ++ " " ++ right.text
  | conditional condition yes no => condition.text ++ " ? " ++ yes.text ++ " : " ++ no.text
  | preIncrement target => "++" ++ target.text
  | postIncrement target => target.text ++ "++"
  | paren inner => "(" ++ inner.text ++ ")"

/-- The text of arguments, with commas between them. -/
def texts : List Expr → String
  | [] => ""
  | [e] => e.text
  | e :: es => e.text ++ ", " ++ texts es

end

/-- The test that a value is not null. -/
def present (e : Expr) : Expr := binary .notEqual e null

/-- The test that a value is null. -/
def absent (e : Expr) : Expr := binary .equal e null

/-- The test that a number is not zero. -/
def nonzero (e : Expr) : Expr := binary .notEqual e (int 0)

end Expr

/-- The primitive types with the classes that hold their values. -/
def boxes : List (String × String) := [
  ("void", "Void"),
  ("boolean", "Boolean"),
  ("byte", "Byte"),
  ("char", "Character"),
  ("short", "Short"),
  ("int", "Integer"),
  ("long", "Long"),
  ("float", "Float"),
  ("double", "Double")]

/-- The type that can stand as a type argument for a type. -/
def boxed (type : String) : String := (boxes.lookup type).getD type

end BinderIdl.Java
