import BinderIdl.Keyword
import BinderIdl.TypeParameter

/-! Interfaces as definitions declare them. -/
namespace BinderIdl

/-- An import with its qualified name. -/
structure Import where
  kind : ImportKind
  name : String
  deriving DecidableEq, Repr

/-- An argument of a method, or the result that stands beside the arguments.
The position is the index of the first token of its type. -/
structure Argument where
  direction : Direction
  type : String
  name : String
  position : Option Int
  deriving DecidableEq, Repr

/-- The name of every result. -/
def Argument.resultName : String := "_result"

/-- A method. Its modifiers include those of the interface, which come first,
and its position is the index of the token of its name. -/
structure Method where
  name : String
  returnType : String
  arguments : List Argument
  modifiers : List Modifier
  javadoc : Option String
  position : Nat
  result : Option Argument
  deriving DecidableEq, Repr

namespace Method

/-- The method gives nothing back as its result. -/
def isVoid (m : Method) : Bool := m.returnType == "void"

/-- The caller does not wait for the method. -/
def isOneway (m : Method) : Bool := m.modifiers.contains .oneway

/-- The callee runs the method on its main thread. -/
def isMainthread (m : Method) : Bool := m.modifiers.contains .mainthread

/-- Exceptions of the method stay with the callee. -/
def isLocalthrow (m : Method) : Bool := m.modifiers.contains .localthrow

end Method

/-- An interface definition. -/
structure Interface where
  package : String
  imports : List Import
  javadoc : Option String
  modifiers : List Modifier
  name : String
  /-- The block that declares the type parameters, as written. -/
  typeBlock : Option String
  typeParameters : List TypeParameter
  methods : List Method
  deriving DecidableEq, Repr

/-- A name inside a package. The empty package adds nothing. -/
def qualify (package name : String) : String :=
  if package = "" then name else package ++ "." ++ name

/-- The name of the interface with its package. -/
def Interface.qualifiedName (i : Interface) : String :=
  qualify i.package i.name

/-- The names of the type parameters as an argument list. -/
def Interface.typeArguments (i : Interface) : String :=
  TypeParameter.arguments i.typeParameters

end BinderIdl
