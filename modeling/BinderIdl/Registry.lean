import BinderIdl.Text.Lines
import BinderIdl.TypeName

/-! Patterns over type names, and registries of rules that map the types of a
pattern to a value. -/
namespace BinderIdl

/-- A pattern over type names. -/
inductive TypePattern where
  /-- Every type. -/
  | any
  /-- A type with one of the names, and nothing else to it. -/
  | named (names : List String)
  /-- An array whose elements match. -/
  | array (element : TypePattern)
  /-- A type with one of the names and a single type argument. -/
  | generic (names : List String)
  /-- A type with one of the names and a single type argument that matches. -/
  | genericOf (names : List String) (content : TypePattern)
  deriving DecidableEq, Repr, Inhabited

namespace TypePattern

/-- Whether a type matches a pattern. -/
def accepts : TypePattern → TypeName → Bool
  | any, _ => true
  | named names, t =>
      !t.isArray && t.arguments.isEmpty && t.wildcard.isNone && names.contains t.base
  | array p, t =>
      match t.element? with
      | some e => p.accepts e
      | none => false
  | generic names, t => !t.isArray && names.contains t.base && t.content?.isSome
  | genericOf names p, t =>
      !t.isArray && names.contains t.base &&
        match t.content? with
        | some c => p.accepts c
        | none => false

/-- Names in the order of their characters, each once, with commas between. -/
private def listed (names : List String) : String :=
  Text.join ", " (names.eraseDups.mergeSort fun a b => !decide (b < a))

/-- A pattern in words. -/
def describe : TypePattern → String
  | any => "AnyType()"
  | named names => "Named(" ++ listed names ++ ")"
  | array p => "ArrayOf(" ++ p.describe ++ ")"
  | generic names => "GenericOf(" ++ listed names ++ ", None)"
  | genericOf names p => "GenericOf(" ++ listed names ++ ", " ++ p.describe ++ ")"

end TypePattern

/-- A pattern and the value for the types that match it. -/
structure Rule (α : Type) where
  pattern : TypePattern
  value : α
  deriving Repr

/-- Rules in the order of their registration. -/
structure Registry (α : Type) where
  rules : List (Rule α)
  deriving Repr

namespace Registry

variable {α β : Type}

/-- The registry without rules. -/
def empty : Registry α := ⟨[]⟩

/-- Register another rule. -/
def add (r : Registry α) (pattern : TypePattern) (value : α) : Registry α :=
  ⟨r.rules ++ [⟨pattern, value⟩]⟩

/-- The value of the latest rule that a type matches. -/
def resolve? (r : Registry α) (t : TypeName) : Option α :=
  (r.rules.reverse.find? fun rule => rule.pattern.accepts t).map Rule.value

/-- The registry with its values replaced. -/
def map (f : α → β) (r : Registry α) : Registry β :=
  ⟨r.rules.map fun rule => ⟨rule.pattern, f rule.value⟩⟩

/-- The message for a type that no rule matches. -/
def unmatched (t : TypeName) : String :=
  "No marshaller registered for '" ++ t.print ++ "'"

end Registry

end BinderIdl
