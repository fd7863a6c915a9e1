/-! The closed vocabularies of interface definitions: directions of arguments,
kinds of imports and modifiers of methods. -/
namespace BinderIdl

/-- The data flow of an argument. A result is an argument that only returns. -/
inductive Direction where
  | into
  | out
  | inout
  | result
  deriving DecidableEq, Repr

/-- The word for a direction. -/
def Direction.word : Direction → String
  | .into => "in"
  | .out => "out"
  | .inout => "inout"
  | .result => "return"

/-- The direction with a word. -/
def Direction.ofWord? (word : String) : Option Direction :=
  [Direction.into, .out, .inout, .result].find? fun d => d.word == word

/-- What an import says about the imported type. A plain import says nothing. -/
inductive ImportKind where
  | plain
  | interface
  | parcelable
  | serializable
  deriving DecidableEq, Repr

/-- The word for a kind of import. -/
def ImportKind.word : ImportKind → String
  | .plain => "import"
  | .interface => "interface"
  | .parcelable => "parcelable"
  | .serializable => "serializable"

/-- The kind of import with a word. -/
def ImportKind.ofWord? (word : String) : Option ImportKind :=
  [ImportKind.plain, .interface, .parcelable, .serializable].find? fun k => k.word == word

/-- How calls of a method are carried out. -/
inductive Modifier where
  /-- The caller does not wait, and nothing comes back. -/
  | oneway
  /-- The callee runs the call on its main thread. -/
  | mainthread
  /-- Exceptions of the callee are not sent back. -/
  | localthrow
  deriving DecidableEq, Repr

/-- The word for a modifier. -/
def Modifier.word : Modifier → String
  | .oneway => "oneway"
  | .mainthread => "mainthread"
  | .localthrow => "localthrow"

end BinderIdl
