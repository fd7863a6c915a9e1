import BinderIdl.Proofs.Marshal.Emission

/-! Which code takes something from a parcel, and which code has no text. What the
proxy sends before a call is empty exactly if the dispatcher takes nothing. -/
namespace BinderIdl

namespace Java

/-- The name of a method says that it takes something from a parcel. -/
def isReader (method : String) : Bool :=
  "read".toList.isPrefixOf method.toList || "create".toList.isPrefixOf method.toList

namespace Expr

/-- Whether an expression is a parcel. -/
def isParcel (p : Parcel) : Expr → Bool
  | name text => text == p.name
  | _ => false

mutual

/-- Whether an expression takes something from a parcel: by a reader of the parcel,
or by one that the parcel is given to. -/
def reads (p : Parcel) : Expr → Bool
  | null | int _ | name _ => false
  | call target method arguments =>
      isReader method && (target.isParcel p || arguments.any (isParcel p)) || target.reads p ||
        readsAny p arguments
  | field e _ | cast _ e | newArray _ e | preIncrement e | postIncrement e | paren e => e.reads p
  | index e e' | binary _ e e' => e.reads p || e'.reads p
  | conditional e yes no => e.reads p || yes.reads p || no.reads p
  | callSelf _ arguments | new _ arguments => readsAny p arguments

/-- Whether one of several expressions takes something from a parcel. -/
def readsAny (p : Parcel) : List Expr → Bool
  | [] => false
  | e :: es => e.reads p || readsAny p es

end

end Expr

namespace Stmt

mutual

/-- Whether a statement takes something from a parcel. -/
def reads (p : Parcel) : Stmt → Bool
  | declare _ _ _ value => value.any (·.reads p)
  | assign target value => target.reads p || value.reads p
  | run e => e.reads p
  | branch condition yes no => condition.reads p || readsAny p yes || readsAny p no
  | count start condition step body =>
      start.any (·.2.reads p) || condition.reads p || step.reads p || readsAny p body
  | each _ _ _ elements body => elements.reads p || readsAny p body
  | loop body condition => readsAny p body || condition.reads p
  | inset body => readsAny p body

/-- Whether one of several statements takes something from a parcel. -/
def readsAny (p : Parcel) : List Stmt → Bool
  | [] => false
  | s :: ss => s.reads p || readsAny p ss

end

variable {p : Parcel} {e : Expr} {yes no ss : List Stmt}

theorem readsAny_of_declare {final : Bool} {type x : String} (h : e.reads p = true) :
    readsAny p (.declare final type x (some e) :: ss) = true := by
  rw [readsAny, reads, Option.any_some, h, Bool.true_or]

theorem readsAny_of_nonzero (h : e.reads p = true) :
    readsAny p (.branch (.nonzero e) yes no :: ss) = true := by
  rw [readsAny, reads, Expr.nonzero, Expr.reads, h]
  simp only [Bool.true_or]

end Stmt

namespace Fragment

/-- Whether a piece of code takes something from a parcel. -/
def reads (p : Parcel) : Fragment → Bool
  | nothing => false
  | initializer value => value.reads p
  | deferred body | statements body => Stmt.readsAny p body

end Fragment

end Java

open Java

theorem isReader_read (kind : String) : isReader ("read" ++ kind) = true := by
  rw [isReader, String.toList_append]
  rfl

theorem isReader_create (kind : String) : isReader ("create" ++ kind) = true := by
  rw [isReader, String.toList_append]
  rfl

theorem Parcel.call_reads (q : Parcel) {method : String} (h : isReader method = true)
    (arguments : List Expr) : (q.call method arguments).reads q = true := by
  simp [call, expr, Expr.reads, Expr.isParcel, h]

theorem Declared.castTo_reads (d : Declared) (e : Expr) (q : Parcel) :
    (d.castTo e).reads q = e.reads q := by
  rw [castTo]
  split
  · rw [Expr.reads]
  · rfl

namespace Scheme

variable {scheme : Scheme} {d : Declared} {q : Parcel} {x : String} {n n' : Nat} {f : Fragment}

/-- Declaring an argument with a value takes the value from the parcel. -/
theorem reads_of_create (h : (scheme.create d q).emit? x n = some (f, n')) : f.reads q = true := by
  -- Whatever is read later on, the first thing that a template does is a read.
  cases scheme with
  | object type nature =>
      cases nature with
      | parcelable =>
          cases h
          exact Stmt.readsAny_of_nonzero (q.call_reads (by decide) _)
      | interface =>
          cases h
          rw [Fragment.reads, Declared.castTo_reads, asInterface, Expr.reads, Expr.readsAny,
            q.call_reads (by decide)]
          simp
      | serializable =>
          cases h
          exact q.call_reads (by decide) _
  | array element nature =>
      cases nature with
      | parcelable =>
          cases Emission.emit?_of_ite h
          exact q.call_reads (by decide) _
      | interface | serializable =>
          cases Emission.emit?_of_ite h
          exact Stmt.readsAny_of_declare (q.call_reads (by decide) _)
  | list content nature =>
      cases nature with
      | parcelable =>
          cases h
          exact q.call_reads (by decide) _
      | interface | serializable =>
          cases h
          exact Stmt.readsAny_of_declare (q.call_reads (by decide) _)
  | value kind =>
      cases h
      exact q.call_reads (isReader_read kind) _
  | valueArray element kind =>
      cases h
      exact q.call_reads (String.append_assoc .. ▸ isReader_create _) _
  | valueList content kind =>
      cases h
      exact q.call_reads (String.append_assoc .. ▸ isReader_create _) _
  | boolean =>
      cases h
      rw [Fragment.reads, Expr.nonzero, Expr.reads, Expr.reads, q.call_reads (by decide)]
      rfl
  | uuid =>
      cases h
      exact Stmt.readsAny_of_nonzero (q.call_reads (by decide) _)
  | uuidArray | uuidList =>
      cases h
      exact Stmt.readsAny_of_declare (q.call_reads (by decide) _)
  | parcelable | anyValue | intLike | untypedList | untypedMap | sparseBooleanArray =>
      cases h
      exact q.call_reads (by decide) _

/-- Making a place for a value takes something from the parcel exactly if a length
was sent. -/
theorem reads_of_createBuffer (h : (scheme.createBuffer d q).emit? x n = some (f, n')) :
    f.reads q = scheme.sendsLength := by
  cases scheme with
  | object type nature =>
      cases nature with
      | interface => cases h
      | parcelable | serializable =>
          cases h
          exact Declared.castTo_reads ..
  | array | uuidArray => cases Emission.emit?_of_ite h; cases q <;> rfl
  | valueArray => cases h; cases q <;> rfl
  | list | valueList | uuidList | untypedList | untypedMap | sparseBooleanArray => cases h; rfl
  | parcelable | anyValue | value | intLike | boolean | uuid => cases h

end Scheme

end BinderIdl
