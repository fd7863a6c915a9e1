import BinderIdl.Brackets
import BinderIdl.Text.Blank
import BinderIdl.Text.Lines

/-! Type parameters of a generic interface, and the reader of the block that
declares them. -/
namespace BinderIdl

/-- A type parameter with its bounds in order. -/
structure TypeParameter where
  name : String
  bounds : List String
  deriving DecidableEq, Repr

/-- The bound that stands for the parameter where a type is needed. -/
def TypeParameter.upperBound (p : TypeParameter) : Option String :=
  p.bounds.head?

/-- Why a block does not declare type parameters. -/
inductive ParameterFault where
  /-- The block does not stand in angle brackets. -/
  | block (block : String)
  /-- The block has a parameter without a name. -/
  | empty (block : String)
  /-- A parameter is neither a name nor a name with bounds. -/
  | parameter (part : String)
  deriving DecidableEq, Repr

/-- The words for a fault in a parameter block. -/
def ParameterFault.message : ParameterFault → String
  | .block text => "Malformed generic parameters '" ++ text ++ "'"
  | .empty text => "Empty generic parameter in '" ++ text ++ "'"
  | .parameter text => "Malformed generic parameter '" ++ text ++ "'"

namespace TypeParameter

/-- Read one parameter of a block: a name, or a name, the word `extends` and
bounds with ampersands between them. -/
def read (block : String) (part : List Char) : Except ParameterFault TypeParameter :=
  let malformed := ParameterFault.parameter (String.ofList (Text.strip part))
  let (name, rest) := Text.cutWord part
  if name.isEmpty then .error (.empty block)
  else if rest.isEmpty then .ok ⟨String.ofList name, []⟩
  else
    let (word, rest) := Text.cutWord rest
    if word ≠ "extends".toList ∨ rest.isEmpty then .error malformed
    else
      let bounds := (Brackets.split '&' rest).map Text.strip
      if bounds.any List.isEmpty then .error malformed
      else .ok ⟨String.ofList name, bounds.map String.ofList⟩

/-- Read a parameter block. Blanks around the block do not matter, and the
first faulty parameter is the one that is reported. -/
def readBlock (block : String) : Except ParameterFault (List TypeParameter) :=
  match Text.strip block.toList with
  | '<' :: rest =>
      match rest.getLast? with
      | some '>' => (Brackets.split ',' rest.dropLast).mapM (read block)
      | _ => .error (.block block)
  | _ => .error (.block block)

/-- The names of parameters as an argument list, empty without parameters. -/
def arguments : List TypeParameter → String
  | [] => ""
  | parameters => "<" ++ Text.join ", " (parameters.map TypeParameter.name) ++ ">"

end TypeParameter

end BinderIdl
