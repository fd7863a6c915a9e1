import BinderIdl.Text.Blank
import Mathlib.Algebra.Group.Int.Defs
import Mathlib.Algebra.Group.Nat.Defs
import Mathlib.Logic.Function.Basic

/-! What generated code computes with: values, the objects they refer to, and the
parcel, which is a queue of entries that each have a kind. The framework and the
classes of a project are a parameter: of their objects only the methods are
known that generated code calls. -/
namespace BinderIdl.Machine

/-- A universally unique identifier, by its halves. -/
structure Uuid where
  upper : BitVec 64
  lower : BitVec 64
  deriving DecidableEq, Repr

/-- A value. All integral types share the integers; what a variable of one of
them can hold is a matter of its range. -/
inductive Value (α : Type) where
  | null
  | int (value : Int)
  | bool (value : Bool)
  | uuid (value : Uuid)
  /-- A value that is not looked into, such as a text, a fraction or a binder. -/
  | atom (value : α)
  /-- An object with an identity. -/
  | ref (address : Nat)
  /-- A list that shares the storage of an array. -/
  | view (address : Nat)
  /-- The elements of a list from one index up to another. -/
  | part (address first last : Nat)
  /-- The parcel of the call. -/
  | parcel
  /-- A class or a constant of a class. -/
  | named (text : String)
  deriving DecidableEq

/-- Whether a value is null. -/
def Value.isNull {α : Type} : Value α → Bool
  | null => true
  | _ => false

/-- The content of an object. -/
inductive Cell (α : Type) where
  | array (items : List (Value α))
  | list (items : List (Value α))
  | map (entries : List (Value α × Value α))
  /-- A sparse array of booleans, with its keys in order. -/
  | flags (entries : List (Int × Bool))
  /-- An object of a class that is not looked into. -/
  | object (state : α)
  deriving DecidableEq

/-- Collections are copied into a parcel, other objects are passed on. -/
def Cell.isCollection {α : Type} : Cell α → Bool
  | object _ => false
  | _ => true

/-- What an entry of a parcel holds. -/
inductive Content (α : Type) where
  | value (value : Value α)
  /-- The content of a collection at the time when it was written. -/
  | copy (cell : Cell α)
  deriving DecidableEq

/-- An entry of a parcel: its kind, by which it is read, and what it holds. -/
structure Entry (α : Type) where
  kind : String
  content : Content α
  deriving DecidableEq

/-- What generated code uses of the framework and of the classes of a project. -/
structure Platform (α : Type) where
  /-- The entries that an object writes about itself, given the flags. -/
  flatten : α → Value α → Option (List (Entry α))
  /-- The object that a creator makes of the next entries of a parcel. -/
  restore : String → List (Entry α) → Option (α × List (Entry α))
  /-- An object after it has read itself from the next entries of a parcel. -/
  refill : α → List (Entry α) → Option (α × List (Entry α))
  /-- A new object of a class. -/
  make : String → Option α
  /-- The binder of an interface. -/
  asBinder : Value α → Option (Value α)
  /-- The interface that a stub class finds behind a binder. -/
  asInterface : String → Value α → Option (Value α)

/-- The state of a run. -/
structure State (α : Type) where
  /-- The values of the variables that have one. -/
  locals : String → Option (Value α)
  /-- The objects, each at its address. -/
  heap : List (Cell α)
  /-- The entries of the parcel that have not been read. -/
  parcel : List (Entry α)
  /-- The random identifiers that will be drawn. -/
  draws : Nat → Uuid

/-- Why a run stops. -/
inductive Fault where
  | nullDereference
  | indexOutOfBounds
  | negativeSize
  /-- The next entry of the parcel has another kind. -/
  | wrongKind
  /-- The parcel has no entry left. -/
  | pastEnd
  /-- A parcel method was given a value that it does not take. -/
  | notWritable
  | noSuchMember
  | badOperand
  | notAssignable
  /-- A loop takes more rounds than it was granted. -/
  | unfinished
  deriving DecidableEq, Repr

/-- The integral types. -/
inductive Integral where
  | byte
  | short
  | char
  | int
  | long
  deriving DecidableEq, Repr

namespace Integral

/-- The integral type with a name. -/
def ofName? (name : String) : Option Integral :=
  [("byte", byte), ("short", short), ("char", char), ("int", int), ("long", long)].lookup name

/-- The least value of an integral type. -/
def least : Integral → Int
  | byte => -2 ^ 7
  | short => -2 ^ 15
  | char => 0
  | int => -2 ^ 31
  | long => -2 ^ 63

/-- The number of values of an integral type. -/
def size : Integral → Nat
  | byte => 2 ^ 8
  | short | char => 2 ^ 16
  | int => 2 ^ 32
  | long => 2 ^ 64

/-- The value of an integral type that a number is cast to. Every type takes the
numbers around, from its least value on. -/
def narrow (t : Integral) (n : Int) : Int := (n - t.least) % t.size + t.least

/-- The numbers that an integral type has. -/
def Has (t : Integral) (n : Int) : Prop := t.least ≤ n ∧ n < t.least + t.size

instance (t : Integral) (n : Int) : Decidable (t.Has n) := inferInstanceAs (Decidable (_ ∧ _))

/-- A cast does not change a number that the type has. -/
theorem narrow_of_has {t : Integral} {n : Int} (h : t.Has n) : t.narrow n = n := by
  have hmod : (n - t.least) % t.size = n - t.least :=
    Int.emod_eq_of_lt (by have := h.1; omega) (by have := h.2; omega)
  rw [narrow, hmod]
  omega

end Integral

namespace State

variable {α : Type}

/-- Give a variable a value. -/
def set (s : State α) (name : String) (v : Value α) : State α :=
  { s with locals := Function.update s.locals name (some v) }

/-- Replace the content of an object. -/
def store (s : State α) (address : Nat) (c : Cell α) : State α :=
  { s with heap := s.heap.set address c }

/-- Put an object behind the others. -/
def extend (s : State α) (c : Cell α) : State α :=
  { s with heap := s.heap ++ [c] }

/-- Replace the entries of the parcel. -/
def refit (s : State α) (entries : List (Entry α)) : State α :=
  { s with parcel := entries }

@[simp] theorem set_heap (s : State α) (x : String) (v : Value α) : (s.set x v).heap = s.heap := rfl

@[simp] theorem set_parcel (s : State α) (x : String) (v : Value α) :
    (s.set x v).parcel = s.parcel := rfl

@[simp] theorem set_draws (s : State α) (x : String) (v : Value α) :
    (s.set x v).draws = s.draws := rfl

theorem set_locals (s : State α) (x y : String) (v : Value α) :
    (s.set x v).locals y = if y = x then some v else s.locals y := by
  simp [set, Function.update_apply]

@[simp] theorem set_locals_self (s : State α) (x : String) (v : Value α) :
    (s.set x v).locals x = some v := by
  simp [set]

@[simp] theorem store_locals (s : State α) (a : Nat) (c : Cell α) :
    (s.store a c).locals = s.locals := rfl

@[simp] theorem store_heap (s : State α) (a : Nat) (c : Cell α) :
    (s.store a c).heap = s.heap.set a c := rfl

@[simp] theorem store_parcel (s : State α) (a : Nat) (c : Cell α) :
    (s.store a c).parcel = s.parcel := rfl

@[simp] theorem store_draws (s : State α) (a : Nat) (c : Cell α) :
    (s.store a c).draws = s.draws := rfl

@[simp] theorem extend_locals (s : State α) (c : Cell α) : (s.extend c).locals = s.locals := rfl

@[simp] theorem extend_heap (s : State α) (c : Cell α) : (s.extend c).heap = s.heap ++ [c] := rfl

@[simp] theorem extend_parcel (s : State α) (c : Cell α) : (s.extend c).parcel = s.parcel := rfl

@[simp] theorem extend_draws (s : State α) (c : Cell α) : (s.extend c).draws = s.draws := rfl

@[simp] theorem refit_locals (s : State α) (es : List (Entry α)) :
    (s.refit es).locals = s.locals := rfl

@[simp] theorem refit_heap (s : State α) (es : List (Entry α)) : (s.refit es).heap = s.heap := rfl

@[simp] theorem refit_parcel (s : State α) (es : List (Entry α)) : (s.refit es).parcel = es := rfl

@[simp] theorem refit_draws (s : State α) (es : List (Entry α)) :
    (s.refit es).draws = s.draws := rfl

end State

end BinderIdl.Machine
