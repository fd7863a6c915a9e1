import BinderIdl.Marshal.Desk
import BinderIdl.Proofs.Machine.Calls
import BinderIdl.Proofs.Marshal.Temporary
import Mathlib.Data.List.Forall2

/-! The wire format: which entries of a parcel stand for a value that travels by a
scheme. What is asked of the framework is asked of the values alone, so that a
value travels only if its own class keeps the contract. Collections of
identifiers have a format of their own. -/
namespace BinderIdl.Wire

open Java Machine

variable {α : Type}

/-- The creator of a class makes an object anew from the entries that the object
writes about itself, and leaves what follows them. -/
def Restores (p : Platform α) (className : String) (state : α) : Prop :=
  ∀ flags entries rest, p.flatten state flags = some entries →
    p.restore (creatorOf className) (entries ++ rest) = some (state, rest)

/-- The binder of an interface, behind which the stub of a class finds the same
interface. Null has null for a binder. -/
inductive HasBinder (p : Platform α) (className : String) : Value α → Value α → Prop
  | null : HasBinder p className .null .null
  | binder {v binder : Value α} (hv : v ≠ .null) (hb : binder ≠ .null)
      (hAsBinder : p.asBinder v = some binder)
      (hAsInterface : p.asInterface (className ++ ".Stub") binder = some v) :
      HasBinder p className v binder

/-- A value that a cast to a type leaves alone. Only the integral types put a
limit on it. -/
def Fits (type : String) (v : Value α) : Prop :=
  ∀ t, Integral.ofName? (Text.trim type) = some t → isNumber t v = true

/-- References fit where another one does. -/
theorem Fits.ref {type : String} {a : Nat} (h : Fits type (.ref a : Value α)) (b : Nat) :
    Fits type (.ref b : Value α) :=
  fun t ht => absurd (h t ht) (by simp [isNumber])

/-- An entry that is a number. -/
def number (n : Int) : Entry α := ⟨"Int", .value (.int n)⟩

/-- An entry that is half of an identifier. -/
def half (bits : BitVec 64) : Entry α := ⟨"Long", .value (.int bits.toInt)⟩

/-- An entry that is a serialized value. -/
def serialized (heap : List (Cell α)) (v : Value α) : Entry α :=
  ⟨"Serializable", contentOf heap v⟩

/-- The kind of the single entry by which a scheme sends a value, if one parcel
method does it all. -/
def kind? : Scheme → Option String
  | .object _ .serializable => some "Serializable"
  | .parcelable => some "Parcelable"
  | .anyValue => some "Value"
  | .value kind => some kind
  | .intLike => some "Int"
  | .array _ .parcelable => some "TypedArray"
  | .valueArray _ kind => some (kind ++ "Array")
  | .list _ .parcelable => some "TypedList"
  | .valueList _ kind => some (kind ++ "List")
  | .untypedList => some "List"
  | .untypedMap => some "Map"
  | .sparseBooleanArray => some "SparseBooleanArray"
  | _ => none

/-- The constant of a class by which a reader makes the values of a scheme. -/
def classConstant? : Scheme → Option String
  | .object type .parcelable => some (creatorOf (className type))
  | .object type .interface => some (className type ++ ".Stub")
  | .array element .parcelable => some (creatorOf (className element))
  | .array element .interface => some (className element ++ ".Stub")
  | .list content .parcelable => some (creatorOf content.base)
  | .list content .interface => some (content.base ++ ".Stub")
  | _ => none

/-- Whether a scheme casts what it reads to the declared type. -/
def isCast : Scheme → Bool
  | .object _ .serializable | .anyValue | .intLike => true
  | _ => false

/-- The entries that stand for a value under a scheme, for given flags and with
the objects that there are. -/
inductive OnWire (p : Platform α) (flags : Value α) (heap : List (Cell α)) (d : Declared) :
    Scheme → Value α → List (Entry α) → Prop
  | whole {scheme : Scheme} {kind : String} {v : Value α} (hKind : kind? scheme = some kind)
      (hWritable : isWritable heap kind v = true) (hFits : isCast scheme = true → Fits d.type v) :
      OnWire p flags heap d scheme v [⟨kind, contentOf heap v⟩]
  | absentObject {type : TypeName} :
      OnWire p flags heap d (.object type .parcelable) .null [number 0]
  | object {type : TypeName} {a : Nat} {state : α} {entries : List (Entry α)}
      (ha : heap[a]? = some (.object state)) (hRestores : Restores p (className type) state)
      (hFlatten : p.flatten state flags = some entries)
      (hFits : d.isParameter = true → Fits d.type (.ref a : Value α)) :
      OnWire p flags heap d (.object type .parcelable) (.ref a) (number 1 :: entries)
  | interface {type : TypeName} {v binder : Value α}
      (hBinder : HasBinder p (className type) v binder)
      (hFits : d.isParameter = true → Fits d.type v) :
      OnWire p flags heap d (.object type .interface) v [⟨"StrongBinder", .value binder⟩]
  | boolean {b : Bool} : OnWire p flags heap d .boolean (.bool b) [number (if b then 1 else 0)]
  | absentUuid : OnWire p flags heap d .uuid .null [number 0]
  | uuid {u : Uuid} :
      OnWire p flags heap d .uuid (.uuid u) [number 1, half u.upper, half u.lower]
  | absentInterfaceArray {element : TypeName} :
      OnWire p flags heap d (.array element .interface) .null [⟨"BinderArray", .value .null⟩]
  | interfaceArray {element : TypeName} {a : Nat} {items binders : List (Value α)}
      (ha : heap[a]? = some (.array items)) (hSmall : items.length < 2 ^ 31)
      (hBinders : List.Forall₂ (HasBinder p (className element)) items binders) :
      OnWire p flags heap d (.array element .interface) (.ref a)
        [⟨"BinderArray", .copy (.array binders)⟩]
  | absentSerializableArray {element : TypeName} :
      OnWire p flags heap d (.array element .serializable) .null [number (-1)]
  | serializableArray {element : TypeName} {a : Nat} {items : List (Value α)}
      (ha : heap[a]? = some (.array items)) (hSmall : items.length < 2 ^ 31)
      (hFits : ∀ v ∈ items, Fits element.print v) :
      OnWire p flags heap d (.array element .serializable) (.ref a)
        (number items.length :: items.map (serialized heap))
  | absentInterfaceList {content : TypeName} :
      OnWire p flags heap d (.list content .interface) .null [⟨"BinderList", .value .null⟩]
  | interfaceList {content : TypeName} {a : Nat} {items binders : List (Value α)}
      (ha : heap[a]? = some (.list items))
      (hBinders : List.Forall₂ (HasBinder p content.base) items binders) :
      OnWire p flags heap d (.list content .interface) (.ref a)
        [⟨"BinderList", .copy (.list binders)⟩]
  | absentSerializableList {content : TypeName} :
      OnWire p flags heap d (.list content .serializable) .null [number (-1)]
  | serializableList {content : TypeName} {a : Nat} {items : List (Value α)}
      (ha : heap[a]? = some (.list items)) (hSmall : items.length < 2 ^ 31)
      (hFits : ∀ v ∈ items, Fits content.print v) :
      OnWire p flags heap d (.list content .serializable) (.ref a)
        (number items.length :: items.map (serialized heap))

/-- Values that differ at most in the identity of what they refer to. -/
inductive Alike (heap : List (Cell α)) : Value α → Value α → Prop
  | same (v : Value α) : Alike heap v v
  | copy {a b : Nat} {c : Cell α} (ha : heap[a]? = some c) (hb : heap[b]? = some c) :
      Alike heap (.ref a) (.ref b)
  | array {a b : Nat} {vs ws : List (Value α)} (ha : heap[a]? = some (.array vs))
      (hb : heap[b]? = some (.array ws)) (hLength : vs.length = ws.length)
      (hItems : ∀ (k : Nat) v w, vs[k]? = some v → ws[k]? = some w → Alike heap v w) :
      Alike heap (.ref a) (.ref b)
  | list {a b : Nat} {vs ws : List (Value α)} (ha : heap[a]? = some (.list vs))
      (hb : heap[b]? = some (.list ws)) (hLength : vs.length = ws.length)
      (hItems : ∀ (k : Nat) v w, vs[k]? = some v → ws[k]? = some w → Alike heap v w) :
      Alike heap (.ref a) (.ref b)

end BinderIdl.Wire
