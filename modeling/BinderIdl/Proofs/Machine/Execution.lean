import BinderIdl.Nature
import BinderIdl.Java.Stmt
import BinderIdl.Proofs.Machine.Value

/-! Execution of generated code. Variables live in one table. Names are read from the
left: a variable hides the classes and packages of its name, and a name that no
variable hides stands for a class or a constant of a class. Evaluation goes from left
to right, except that the value of an assignment comes before its target. A loop
is granted a number of rounds, so that execution is a function. -/
namespace BinderIdl.Machine

open Java

variable {α β : Type}

/-- Work on a state that can fail. -/
abbrev Run (α β : Type) := EStateM Fault (State α) β

namespace Run

/-- Stop with a fault. -/
def fail (fault : Fault) : Run α β := fun s => .error fault s

/-- Give a variable a value. -/
def setLocal (name : String) (v : Value α) : Run α Unit := fun s => .ok () (s.set name v)

/-- Make an object. -/
def alloc (c : Cell α) : Run α (Value α) := fun s => .ok (.ref s.heap.length) (s.extend c)

/-- The content of an object. -/
def load (address : Nat) : Run α (Cell α) := fun s =>
  match s.heap[address]? with
  | some c => .ok c s
  | none => .error .noSuchMember s

/-- Replace the content of an object. -/
def store (address : Nat) (c : Cell α) : Run α Unit := fun s => .ok () (s.store address c)

/-- Add entries at the end of the parcel. -/
def send (entries : List (Entry α)) : Run α Unit :=
  fun s => .ok () (s.refit (s.parcel ++ entries))

/-- Take the next entry of the parcel, which must have the kind. -/
def receive (kind : String) : Run α (Content α) := fun s =>
  match s.parcel with
  | [] => .error .pastEnd s
  | e :: rest => if e.kind = kind then .ok e.content (s.refit rest) else .error .wrongKind s

/-- Draw a random identifier. -/
def draw : Run α (Value α) := fun s =>
  .ok (.uuid (s.draws 0)) { s with draws := fun n => s.draws (n + 1) }

/-- A value as a number. -/
def number : Value α → Run α Int
  | .int n => pure n
  | .null => fail .nullDereference
  | _ => fail .badOperand

/-- A value as a condition. -/
def truth : Value α → Run α Bool
  | .bool b => pure b
  | .null => fail .nullDereference
  | _ => fail .badOperand

/-- An index below a size. -/
def index (n : Int) (size : Nat) : Run α Nat :=
  if 0 ≤ n ∧ n < size then pure n.toNat else fail .indexOutOfBounds

/-- Run a piece of work as long as a condition holds, for at most some rounds. -/
def repeatWhile : Nat → Run α Bool → Run α Unit → Run α Unit
  | 0, condition, _ => do if ← condition then fail .unfinished
  | n + 1, condition, body => do
      if ← condition then
        body
        repeatWhile n condition body

/-- Run a piece of work for each value. -/
def forEach (body : Value α → Run α Unit) : List (Value α) → Run α Unit
  | [] => pure ()
  | v :: vs => do
      body v
      forEach body vs

end Run

open Run

/-- The first value of the elements of an array. -/
def defaultOf (element : String) : Value α :=
  if element = "boolean" then .bool false
  else if ["byte", "char", "short", "int", "long"].contains element then .int 0
  else .null

/-- A new array of a size. -/
def newArray (element : String) (size : Int) : Run α (Value α) :=
  if size < 0 then fail .negativeSize
  else alloc (.array (List.replicate size.toNat (defaultOf element)))

/-- A new object of a class, whose type arguments do not matter. -/
def construct (p : Platform α) (type : String) (arguments : List (Value α)) : Run α (Value α) :=
  match withoutArguments type with
  | "java.util.UUID" =>
      match arguments with
      | [.int upper, .int lower] =>
          pure (.uuid ⟨BitVec.ofInt 64 upper, BitVec.ofInt 64 lower⟩)
      | _ => fail .noSuchMember
  | "java.util.ArrayList" => alloc (.list [])
  | "java.util.HashMap" => alloc (.map [])
  | "android.util.SparseBooleanArray" => alloc (.flags [])
  | name =>
      match p.make name with
      | some state => alloc (.object state)
      | none => fail .noSuchMember

/-- A value as a value of a type. Only numbers change. -/
def castTo (type : String) (v : Value α) : Run α (Value α) :=
  match Integral.ofName? (Text.trim type) with
  | none => pure v
  | some t => do return .int (t.narrow (← number v))

/-- The value of an operator other than the conjunction. -/
def operate [DecidableEq α] : Operator → Value α → Value α → Run α (Value α)
  | .equal, a, b => pure (.bool (a = b))
  | .notEqual, a, b => pure (.bool (a ≠ b))
  | .less, a, b => do return .bool ((← number a) < (← number b))
  | .greater, a, b => do return .bool ((← number a) > (← number b))
  | .greaterEqual, a, b => do return .bool ((← number a) ≥ (← number b))
  | .times, a, b => do return .int (Integral.int.narrow ((← number a) * (← number b)))
  | .divide, a, b => do
      let m ← number a
      let n ← number b
      if n = 0 then fail .badOperand else return .int (Integral.int.narrow (m.tdiv n))
  | .and, _, _ => fail .badOperand

/-- A member of a value. -/
def member (v : Value α) (name : String) : Run α (Value α) :=
  match v with
  | .null => fail .nullDereference
  | .ref a => do
      match ← load a, name with
      | .array items, "length" => return .int items.length
      | _, _ => fail .noSuchMember
  | _ => fail .noSuchMember

/-- The part of a name in front of its first dot. -/
def firstPart (name : String) : String := String.ofList (name.toList.takeWhile (· != '.'))

/-- What a name has behind its first dot. -/
def laterParts (name : String) : String :=
  String.ofList ((name.toList.dropWhile (· != '.')).drop 1)

/-- The value of a name. What follows a variable in a name is a member of its value, even if
there is a class of the whole name. -/
def resolve (name : String) : Run α (Value α) := fun s =>
  match s.locals name, s.locals (firstPart name) with
  | some v, _ => .ok v s
  | none, some v => member v (laterParts name) s
  | none, none => .ok (.named name) s

/-- The element of an array at an index. -/
def element (v : Value α) (n : Int) : Run α (Value α) :=
  match v with
  | .null => fail .nullDereference
  | .ref a => do
      match ← load a with
      | .array items => return items.getD (← index n items.length) .null
      | _ => fail .noSuchMember
  | _ => fail .noSuchMember

/-- Replace the element of an array at an index. -/
def replaceElement (v : Value α) (n : Int) (new : Value α) : Run α Unit :=
  match v with
  | .null => fail .nullDereference
  | .ref a => do
      match ← load a with
      | .array items => store a (.array (items.set (← index n items.length) new))
      | _ => fail .noSuchMember
  | _ => fail .noSuchMember

/-- The elements that a loop goes through. -/
def elements (v : Value α) : Run α (List (Value α)) :=
  match v with
  | .null => fail .nullDereference
  | .ref a => do
      match ← load a with
      | .array items | .list items => return items
      | _ => fail .noSuchMember
  | _ => fail .noSuchMember

/-- What a parcel holds of a value. -/
def contentOf (heap : List (Cell α)) : Value α → Content α
  | .ref a =>
      match heap[a]? with
      | some c => if c.isCollection then .copy c else .value (.ref a)
      | none => .value (.ref a)
  | v => .value v

/-- A value with some content of a parcel. Collections are made anew. -/
def ofContent : Content α → Run α (Value α)
  | .value v => pure v
  | .copy c => alloc c

/-- Give a collection the content that a parcel holds. Null changes nothing. -/
def fill (target : Value α) (content : Content α) : Run α Unit :=
  match content, target with
  | .value .null, _ => pure ()
  | .copy c, .ref a => store a c
  | _, .null => fail .nullDereference
  | _, _ => fail .noSuchMember

/-- Whether a value is a number that an integral type has. -/
def isNumber (t : Integral) : Value α → Bool
  | .int n => t.Has n
  | _ => false

/-- Whether the parcel methods of a kind take a value. -/
def isWritable (heap : List (Cell α)) (kind : String) (v : Value α) : Bool :=
  match kind with
  | "Int" => isNumber .int v
  | "Long" => isNumber .long v
  | "Byte" => isNumber .byte v
  | "LongArray" =>
      match contentOf heap v with
      | .value v => v.isNull
      | .copy (.array items) => items.all (isNumber .long)
      | .copy _ => false
  | _ => true

/-- What a method of a parcel does. -/
inductive ParcelMethod where
  | write (kind : String)
  /-- Write the binder of an interface. -/
  | writeInterface
  | read (kind : String)
  deriving DecidableEq, Repr

namespace ParcelMethod

/-- The kind of what a reader reads. Lists and maps are written and read under
the names of their interfaces, whatever class the reader makes. -/
def readKind (name : List Char) : List Char :=
  if "ArrayList".toList <:+ name then name.take (name.length - 9) ++ "List".toList
  else if name = "HashMap".toList then "Map".toList
  else name

/-- The method with a name. -/
def ofName? (name : String) : Option ParcelMethod :=
  match name.toList with
  | 'w' :: 'r' :: 'i' :: 't' :: 'e' :: kind =>
      if kind = "StrongInterface".toList then some writeInterface
      else some (write (String.ofList kind))
  | 'c' :: 'r' :: 'e' :: 'a' :: 't' :: 'e' :: kind => some (read (String.ofList (readKind kind)))
  | 'r' :: 'e' :: 'a' :: 'd' :: kind => some (read (String.ofList (readKind kind)))
  | _ => none

end ParcelMethod

/-- The binder of an interface. -/
def binderOf (p : Platform α) (v : Value α) : Run α (Value α) :=
  match v with
  | .null => fail .nullDereference
  | v =>
      match p.asBinder v with
      | some binder => pure binder
      | none => fail .noSuchMember

/-- Write the first argument as an entry of a kind. -/
def write (kind : String) (arguments : List (Value α)) : Run α (Value α) :=
  match arguments with
  | [] => fail .noSuchMember
  | v :: _ => fun s =>
      if isWritable s.heap kind v then
        .ok .null (s.refit (s.parcel ++ [⟨kind, contentOf s.heap v⟩]))
      else .error .notWritable s

/-- Write the binder of an interface, or null for null. -/
def writeInterface (p : Platform α) (arguments : List (Value α)) : Run α (Value α) :=
  match arguments with
  | [v] => do
      send [⟨"StrongBinder", .value (← if v.isNull then pure .null else binderOf p v)⟩]
      return .null
  | _ => fail .noSuchMember

/-- Read an entry of a kind. A reader that is given a collection fills it; class
loaders and creators only help to find classes. -/
def read (kind : String) (arguments : List (Value α)) : Run α (Value α) :=
  match arguments with
  | [] | [.named _] => do ofContent (← receive kind)
  | target :: _ => do
      fill target (← receive kind)
      return .null

/-- Call a method of the parcel. -/
def callParcel (p : Platform α) (method : String) (arguments : List (Value α)) :
    Run α (Value α) :=
  match ParcelMethod.ofName? method with
  | some (.write kind) => write kind arguments
  | some .writeInterface => writeInterface p arguments
  | some (.read kind) => read kind arguments
  | none => fail .noSuchMember

/-- The interface that a stub finds behind a binder. It finds nothing behind null. -/
def findInterface (p : Platform α) (stub : String) (binder : Value α) : Run α (Value α) :=
  if binder.isNull then pure .null
  else
    match p.asInterface stub binder with
    | some v => pure v
    | none => fail .noSuchMember

/-- The object that a creator makes of the next entries of the parcel. -/
def restore (p : Platform α) (creator : String) : Run α (Value α) := fun s =>
  match p.restore creator s.parcel with
  | some (state, rest) => alloc (.object state) (s.refit rest)
  | none => .error .wrongKind s

/-- Call a method of a class. -/
def callClass (p : Platform α) (name method : String) (arguments : List (Value α)) :
    Run α (Value α) :=
  match method with
  | "randomUUID" => if name = "java.util.UUID" then draw else fail .noSuchMember
  | "asList" =>
      match arguments with
      | [.ref a] => if name = "java.util.Arrays" then pure (.view a) else fail .noSuchMember
      | _ => fail .noSuchMember
  | "getClassLoader" => pure (.named (name ++ ".getClassLoader()"))
  | "asInterface" =>
      match arguments with
      | [binder] => findInterface p name binder
      | _ => fail .noSuchMember
  | "createFromParcel" =>
      match arguments with
      | [.parcel] => restore p name
      | _ => fail .noSuchMember
  | _ => fail .noSuchMember

/-- Call a method of an identifier. -/
def callUuid (u : Uuid) (method : String) : Run α (Value α) :=
  match method with
  | "getMostSignificantBits" => pure (.int u.upper.toInt)
  | "getLeastSignificantBits" => pure (.int u.lower.toInt)
  | _ => fail .noSuchMember

/-- Call a method of a list. -/
def callList [DecidableEq α] (address : Nat) (items : List (Value α)) (method : String)
    (arguments : List (Value α)) : Run α (Value α) :=
  match method with
  | "size" => pure (.int items.length)
  | "contains" =>
      match arguments with
      | [v] => pure (.bool (items.contains v))
      | _ => fail .noSuchMember
  | "add" =>
      match arguments with
      | [v] => do
          store address (.list (items ++ [v]))
          return .bool true
      | _ => fail .noSuchMember
  | "set" =>
      match arguments with
      | [.int n, v] => do
          let i ← index n items.length
          store address (.list (items.set i v))
          return items.getD i .null
      | _ => fail .noSuchMember
  | "clear" => do
      store address (.list [])
      return .null
  | "subList" =>
      match arguments with
      | [.int first, .int last] =>
          if 0 ≤ first ∧ first ≤ last ∧ last ≤ items.length then
            pure (.part address first.toNat last.toNat)
          else fail .indexOutOfBounds
      | _ => fail .noSuchMember
  | _ => fail .noSuchMember

/-- Call a method of a sparse array of booleans. The keys stay in order. -/
def callFlags (address : Nat) (entries : List (Int × Bool)) (method : String)
    (arguments : List (Value α)) : Run α (Value α) :=
  match method with
  | "size" => pure (.int entries.length)
  | "keyAt" =>
      match arguments with
      | [.int n] => do return .int (entries.getD (← index n entries.length) (0, false)).1
      | _ => fail .noSuchMember
  | "valueAt" =>
      match arguments with
      | [.int n] => do return .bool (entries.getD (← index n entries.length) (0, false)).2
      | _ => fail .noSuchMember
  | "append" =>
      match arguments with
      | [.int key, .bool value] => do
          store address (.flags (entries.filter (fun e => e.1 < key) ++
            (key, value) :: entries.filter (fun e => key < e.1)))
          return .null
      | _ => fail .noSuchMember
  | "clear" => do
      store address (.flags [])
      return .null
  | _ => fail .noSuchMember

/-- Write what an object says about itself. -/
def flatten (p : Platform α) (state : α) (flags : Value α) : Run α (Value α) :=
  match p.flatten state flags with
  | some entries => do
      send entries
      return .null
  | none => fail .noSuchMember

/-- Let an object read itself from the next entries of the parcel. -/
def refill (p : Platform α) (address : Nat) (state : α) : Run α (Value α) := fun s =>
  match p.refill state s.parcel with
  | some (state, rest) => .ok .null ((s.refit rest).store address (.object state))
  | none => .error .wrongKind s

/-- Call a method of an object that writes itself into the parcel or reads itself
from it. -/
def callObject (p : Platform α) (address : Nat) (state : α) (method : String)
    (arguments : List (Value α)) : Run α (Value α) :=
  match method with
  | "writeToParcel" =>
      match arguments with
      | [.parcel, flags] => flatten p state flags
      | _ => fail .noSuchMember
  | "readFromParcel" =>
      match arguments with
      | [.parcel] => refill p address state
      | _ => fail .noSuchMember
  | _ => fail .noSuchMember

/-- Call a method of a list that shares the storage of an array. -/
def callView [DecidableEq α] (storage : Cell α) (method : String) (arguments : List (Value α)) :
    Run α (Value α) :=
  match storage, arguments with
  | .array items, [v] =>
      if method = "contains" then pure (.bool (items.contains v)) else fail .noSuchMember
  | _, _ => fail .noSuchMember

/-- Call a method of a part of a list. -/
def callPart (address first last : Nat) (storage : Cell α) (method : String) : Run α (Value α) :=
  match storage with
  | .list items =>
      if method = "clear" then do
        store address (.list (items.take first ++ items.drop last))
        return .null
      else fail .noSuchMember
  | _ => fail .noSuchMember

/-- Call a method of a value. -/
def invoke [DecidableEq α] (p : Platform α) (target : Value α) (method : String)
    (arguments : List (Value α)) : Run α (Value α) :=
  if method = "asBinder" then binderOf p target
  else
    match target with
    | .null => fail .nullDereference
    | .named name => callClass p name method arguments
    | .parcel => callParcel p method arguments
    | .uuid u => callUuid u method
    | .ref a => do
        match ← load a with
        | .list items => callList a items method arguments
        | .flags entries => callFlags a entries method arguments
        | .object state => callObject p a state method arguments
        | _ => fail .noSuchMember
    | .view a => do callView (← load a) method arguments
    | .part a first last => do callPart a first last (← load a) method
    | _ => fail .noSuchMember

/-- Add one to a variable and give its old value and its new one. -/
def increment (name : String) : Run α (Int × Int) := do
  let old ← number (← resolve name)
  let new := Integral.int.narrow (old + 1)
  setLocal name (.int new)
  return (old, new)

mutual

/-- The value of an expression. -/
def eval [DecidableEq α] (p : Platform α) : Expr → Run α (Value α)
  | .null => pure .null
  | .int value => pure (.int value)
  | .name text => resolve text
  | .field target name => do member (← eval p target) name
  | .index target position => do element (← eval p target) (← number (← eval p position))
  | .call target method arguments => do
      let v ← eval p target
      invoke p v method (← evalAll p arguments)
  | .callSelf method _ => pure (.named (method ++ "()"))
  | .new type arguments => do construct p type (← evalAll p arguments)
  | .newArray element size => do newArray element (← number (← eval p size))
  | .cast type operand => do castTo type (← eval p operand)
  | .binary operator left right => do
      let v ← eval p left
      match operator with
      | .and => if ← truth v then return .bool (← truth (← eval p right)) else return .bool false
      | operator => operate operator v (← eval p right)
  | .conditional condition yes no => do
      if ← truth (← eval p condition) then eval p yes else eval p no
  | .preIncrement (.name text) => do return .int (← increment text).2
  | .postIncrement (.name text) => do return .int (← increment text).1
  | .preIncrement _ | .postIncrement _ => fail .notAssignable
  | .paren inner => eval p inner

/-- The values of expressions, from left to right. -/
def evalAll [DecidableEq α] (p : Platform α) : List Expr → Run α (List (Value α))
  | [] => pure []
  | e :: es => do
      let v ← eval p e
      return v :: (← evalAll p es)

end

/-- Whether a condition holds. -/
def test [DecidableEq α] (p : Platform α) (condition : Expr) : Run α Bool := do
  truth (← eval p condition)

/-- Give the variables of a counting loop their first values. -/
def start [DecidableEq α] (p : Platform α) : List (String × Expr) → Run α Unit
  | [] => pure ()
  | (name, e) :: rest => do
      setLocal name (← eval p e)
      start p rest

mutual

/-- Run a statement, with a bound on the rounds of each loop. -/
def exec [DecidableEq α] (p : Platform α) (bound : Nat) : Stmt → Run α Unit
  | .declare _ _ _ none => pure ()
  | .declare _ _ name (some e) => do setLocal name (← eval p e)
  | .assign (.name text) e => do setLocal text (← eval p e)
  | .assign (.index target position) e => do
      let v ← eval p e
      let a ← eval p target
      replaceElement a (← number (← eval p position)) v
  | .assign _ _ => fail .notAssignable
  | .run e => do let _ ← eval p e
  | .branch condition yes no => do
      if ← test p condition then execAll p bound yes else execAll p bound no
  | .count first condition step body => do
      start p first
      repeatWhile bound (test p condition) do
        execAll p bound body
        let _ ← eval p step
  | .each _ _ name collection body => do
      forEach (fun v => do
        setLocal name v
        execAll p bound body) (← elements (← eval p collection))
  | .loop body condition => do
      execAll p bound body
      repeatWhile bound (test p condition) (execAll p bound body)
  | .inset body => execAll p bound body

/-- Run the statements of a block. -/
def execAll [DecidableEq α] (p : Platform α) (bound : Nat) : List Stmt → Run α Unit
  | [] => pure ()
  | s :: ss => do
      exec p bound s
      execAll p bound ss

end

end BinderIdl.Machine
