import BinderIdl.Diagnostic
import BinderIdl.Event
import BinderIdl.Marshal.Cell
import BinderIdl.SourceFolder
import BinderIdl.TypeName.Parse

/-! The desk on which arguments are encoded. An argument is bound to the context
of the first writer that asks for its code, and stays bound to it: later code
for the argument comes from the same context and takes its temporaries from the
same count, whoever asks. -/
namespace BinderIdl

open Java

/-- What decides how arguments travel, apart from their own types. -/
structure Context where
  package : String := ""
  imports : List Import := []
  typeParameters : List TypeParameter := []
  /-- Names that are known to be Parcelable. -/
  known : List String := []
  /-- Whether the project has a source for a name in a package. -/
  lookup : Option (String → String → Bool) := none
  /-- What keeps the project's sources from being looked up for a name in a
  package. -/
  obstacle? : String → String → Option LookupFault := fun _ _ => none
  /-- Where the arguments come from. -/
  source : Option Source := none

namespace Context

/-- The type parameter that a type is. -/
def parameter? (c : Context) (type : String) : Option TypeParameter :=
  c.typeParameters.find? fun p => p.name == Text.trim type

/-- A type parameter is its first bound, or any object if it has none. Other
types are themselves. -/
def meaning (c : Context) (type : String) : String :=
  match c.parameter? type with
  | some p =>
      match p.upperBound with
      | some bound => if bound = "" then "java.lang.Object" else bound
      | none => "java.lang.Object"
  | none => type

/-- The nature of a type. -/
def nature (c : Context) (type : String) : Nature :=
  Nature.classify type c.package c.imports c.lookup c.known

/-- What keeps the nature of a type from being found out. A type that is decided
without its sources has no obstacle. -/
def natureObstacle? (c : Context) (type : String) : Option LookupFault :=
  match Verdict.of type c.imports c.known with
  | .decided _ => none
  | .ask name => c.obstacle? name c.package

end Context

/-- The category of a type. The registry has a rule for every type. -/
def Category.of (t : TypeName) : Category := (Category.registry.resolve? t).getD .object

/-- Why there is no code for an argument. -/
inductive EncodeFault where
  | located (diagnostic : Diagnostic)
  /-- There is something to complain about, but the argument's position is
  before the first token. -/
  | unplaced (position : Int)
  /-- The sources that decide about a type cannot be looked up. -/
  | lookup (fault : LookupFault)
  deriving DecidableEq, Repr

/-- The fault for a complaint at a position. -/
def EncodeFault.at (complaint : Complaint) (message : String) (source : Option Source)
    (position : Option Int) : EncodeFault :=
  match Diagnostic.at? complaint message source position with
  | some d => located d
  | none => unplaced (position.getD 0)

/-- An argument together with the context that encodes it. -/
structure Binding where
  /-- The number of the writer that the context belongs to. -/
  owner : Nat
  context : Context
  argument : Argument
  /-- What the declared type means in the context. -/
  type : TypeName

namespace Binding

/-- Bind an argument to a context. -/
def make (owner : Nat) (context : Context) (argument : Argument) : Except EncodeFault Binding :=
  match TypeName.parse (context.meaning argument.type) with
  | .ok type => .ok { owner, context, argument, type }
  | .error fault =>
      .error (EncodeFault.at .malformed fault.message context.source argument.position)

/-- The category of the argument's type. -/
def category (b : Binding) : Category := Category.of b.type

/-- How the argument travels. -/
def scheme (b : Binding) : Scheme := Scheme.of b.category b.type b.context.nature

/-- The declared type of the argument. -/
def declared (b : Binding) : Declared :=
  ⟨b.argument.type, (b.context.parameter? b.argument.type).isSome⟩

/-- The complaint that the argument cannot travel in its direction. -/
def refusal (b : Binding) : EncodeFault :=
  EncodeFault.at .unsupported
    ("Cannot marshall '" ++ b.argument.direction.word ++ " " ++ b.argument.type ++ "'.")
    b.context.source b.argument.position

/-- The code of a cell for a variable, and the new count of temporaries. -/
def code (b : Binding) (site : Site) (phase : Phase) (name : String) (count : Nat) :
    Except EncodeFault (Fragment × Nat) :=
  match (b.scheme.cell b.declared b.argument.direction site phase).emit? name count with
  | some answer => .ok answer
  | none => .error b.refusal

/-- The report on the nature that the scheme depends on. -/
def natureReport (b : Binding) : List Event :=
  match Scheme.subject? b.category b.type with
  | some name => [.classified name (b.context.nature name)]
  | none => []

/-- What keeps the nature that the scheme depends on from being found out. -/
def obstacle? (b : Binding) : Option LookupFault :=
  (Scheme.subject? b.category b.type).bind b.context.natureObstacle?

/-- What is reported when the argument is bound. The nature of the elements of an
array is not looked at yet. -/
def report (b : Binding) : List Event :=
  (if b.category = .array then [] else b.natureReport) ++
    [.resolved b.argument.type b.argument.direction b.category]

/-- Whether a cell looks at the nature of the elements of an array. -/
def looksAtElements (b : Binding) (site : Site) (phase : Phase) : Bool :=
  b.category == .array && Scheme.elementTravels (Scheme.elementOf b.type) &&
    match Operation.of? site b.argument.direction phase with
    | some .create | some .write | some .update => true
    | _ => false

end Binding

/-- The place of an argument: the number of its method, and its own number, or
none for the result. -/
structure Slot where
  method : Nat
  argument : Option Nat
  deriving DecidableEq, Repr

/-- The state of encoding. -/
structure Desk where
  /-- How many numbers for temporaries each writer has given out. -/
  counts : Nat → Nat := fun _ => 0
  /-- The bound arguments. -/
  bindings : List (Slot × Binding) := []
  /-- The arguments whose elements have been looked at. -/
  examined : List Slot := []
  /-- What happened so far. -/
  journal : List Event := []

namespace Desk

/-- The binding of a slot. -/
def binding? (d : Desk) (slot : Slot) : Option Binding := d.bindings.lookup slot

/-- Replace the count of a writer. -/
def setCount (d : Desk) (owner count : Nat) : Desk :=
  { d with counts := fun k => if k = owner then count else d.counts k }

/-- Add events to the journal. -/
def record (d : Desk) (events : List Event) : Desk :=
  { d with journal := d.journal ++ events }

/-- Keep a new binding. -/
def keep (d : Desk) (slot : Slot) (b : Binding) : Desk :=
  { d with bindings := (slot, b) :: d.bindings }

/-- Whether a cell looks at the elements of an array for the first time. -/
def isToExamine (d : Desk) (slot : Slot) (b : Binding) (site : Site) (phase : Phase) : Bool :=
  b.looksAtElements site phase && !d.examined.contains slot

/-- Report on the elements of an array, which have been looked at from now on. -/
def examine (d : Desk) (slot : Slot) (b : Binding) : Desk :=
  { d.record b.natureReport with examined := slot :: d.examined }

end Desk

/-- Work at a desk that can fail. What was done before a failure stays done. -/
abbrev Encoding := EStateM EncodeFault Desk

/-- A writer: a number and a context of its own. -/
structure Writer where
  number : Nat
  context : Context

namespace Writer

/-- An obstacle ends the work. -/
def heed : Option LookupFault → Encoding Unit
  | some fault => throw (.lookup fault)
  | none => return ()

/-- The binding of an argument, which is made when there is none yet. It is not
kept if the nature of the argument's type cannot be found out. -/
def bind (w : Writer) (slot : Slot) (argument : Argument) : Encoding Binding := do
  match (← get).binding? slot with
  | some b => return b
  | none =>
      match Binding.make w.number w.context argument with
      | .ok b =>
          if b.category ≠ .array then heed b.obstacle?
          modify fun d => (d.record b.report).keep slot b
          return b
      | .error fault => throw fault

/-- The code for an argument at a site in a phase. -/
def encode (w : Writer) (slot : Slot) (argument : Argument) (site : Site) (phase : Phase)
    (name : String) : Encoding Fragment := do
  let b ← w.bind slot argument
  if (← get).isToExamine slot b site phase then
    heed b.obstacle?
    modify fun d => d.examine slot b
  match b.code site phase name ((← get).counts b.owner) with
  | .ok (fragment, count) =>
      modify fun d => d.setCount b.owner count
      return fragment
  | .error fault => throw fault

/-- Start counting the writer's temporaries anew. -/
def restart (w : Writer) : Encoding Unit :=
  modify fun d => d.setCount w.number 0

end Writer

end BinderIdl
