import BinderIdl.Java.Expr

/-! Java statements, as far as generated code uses them, and their lines. -/
namespace BinderIdl.Java

/-- A statement. Blocks are lists of statements. -/
inductive Stmt where
  /-- Declare a variable, with or without a first value. -/
  | declare (final : Bool) (type name : String) (value : Option Expr)
  | assign (target value : Expr)
  /-- Evaluate an expression for its effect. -/
  | run (expression : Expr)
  /-- Run one of two blocks. An empty second block is not written. -/
  | branch (condition : Expr) (yes no : List Stmt)
  /-- Count with `int` variables as long as a condition holds. -/
  | count (start : List (String × Expr)) (condition step : Expr) (body : List Stmt)
  /-- Run a block for each element. -/
  | each (final : Bool) (type name : String) (elements : Expr) (body : List Stmt)
  /-- Run a block once, and again as long as a condition holds. -/
  | loop (body : List Stmt) (condition : Expr)
  /-- A block that is set in as a finished text: if a name in it has line breaks,
  the lines that they start are indented like the lines of the block. -/
  | inset (body : List Stmt)
  deriving Repr

namespace Stmt

/-- The indentation at a depth. -/
def pad (depth : Nat) : String := String.ofList (Text.spaces (4 * depth))

/-- The modifier of a variable that is assigned once. -/
def finality (final : Bool) : String := if final then "final " else ""

/-- The variables of a counting loop with their first values. -/
def startText (start : List (String × Expr)) : String :=
  Text.join ", " (start.map fun (name, value) => name ++ " = " ++ value.text)

mutual

/-- The lines of a statement at a depth. -/
def lines (depth : Nat) : Stmt → List String
  | declare final type name none => [pad depth ++ finality final ++ type ++ " " ++ name ++ ";"]
  | declare final type name (some value) =>
      [pad depth ++ finality final ++ type ++ " " ++ name ++ " = " ++ value.text ++ ";"]
  | assign target value => [pad depth ++ target.text ++ " = " ++ value.text ++ ";"]
  | run expression => [pad depth ++ expression.text ++ ";"]
  | branch condition yes no =>
      [pad depth ++ "if (" ++ condition.text ++ ") \x7b"] ++ block (depth + 1) yes ++
        (if no.isEmpty then [] else [pad depth ++ "\x7d else \x7b"] ++ block (depth + 1) no) ++
        [pad depth ++ "\x7d"]
  | count start condition step body =>
      [pad depth ++ "for (int " ++ startText start ++ "; " ++ condition.text ++ "; " ++ step.text ++
        ") \x7b"] ++ block (depth + 1) body ++ [pad depth ++ "\x7d"]
  | each final type name elements body =>
      [pad depth ++ "for (" ++ finality final ++ type ++ " " ++ name ++ " : " ++ elements.text ++
        ") \x7b"] ++ block (depth + 1) body ++ [pad depth ++ "\x7d"]
  | loop body condition =>
      [pad depth ++ "do \x7b"] ++ block (depth + 1) body ++
        [pad depth ++ "\x7d while (" ++ condition.text ++ ");"]
  | inset body => [pad depth ++ Text.hang (4 * depth) (Text.join "\n" (block 0 body))]

/-- The lines of a block at a depth. -/
def block (depth : Nat) : List Stmt → List String
  | [] => []
  | s :: ss => lines depth s ++ block depth ss

end

/-- The text of a block, without a line break at its end. -/
def text (body : List Stmt) : String := Text.join "\n" (block 0 body)

end Stmt

/-- A piece of code for one argument. -/
inductive Fragment where
  | nothing
  /-- The first value of a variable that is being declared. -/
  | initializer (value : Expr)
  /-- The end of a declaration, then statements that give the variable its value. -/
  | deferred (body : List Stmt)
  | statements (body : List Stmt)
  deriving Repr

namespace Fragment

/-- The text of a fragment. -/
def text : Fragment → String
  | nothing => ""
  | initializer value => " = " ++ value.text ++ ";"
  | deferred body => ";\n" ++ Stmt.text body
  | statements body => Stmt.text body

/-- One statement that evaluates an expression. -/
def run (e : Expr) : Fragment := statements [.run e]

/-- Whether there is no code. -/
def isNothing : Fragment → Bool
  | nothing => true
  | _ => false

end Fragment

end BinderIdl.Java
