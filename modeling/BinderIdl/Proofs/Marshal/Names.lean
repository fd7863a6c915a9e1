import BinderIdl.Proofs.Marshal.Encode
import BinderIdl.Proofs.Marshal.Temporary

/-! Which variables generated code mentions. The code of a cell works on the parcel
of its site and phase, on the argument's variable and on temporaries of its own.
Whatever else it names is a class, or a constant of one, inside a package. -/
namespace BinderIdl

namespace Java

namespace Expr

mutual

/-- The names in an expression, in order. -/
def names : Expr → List String
  | null | int _ => []
  | name text => [text]
  | field e _ | cast _ e | newArray _ e | preIncrement e | postIncrement e | paren e => e.names
  | index e e' | binary _ e e' => e.names ++ e'.names
  | conditional e yes no => e.names ++ yes.names ++ no.names
  | call target _ arguments => target.names ++ namesIn arguments
  | callSelf _ arguments | new _ arguments => namesIn arguments

/-- The names in several expressions, in order. -/
def namesIn : List Expr → List String
  | [] => []
  | e :: es => e.names ++ namesIn es

end

end Expr

namespace Stmt

mutual

/-- The names in a statement, with those of the variables that it declares. -/
def names : Stmt → List String
  | declare _ _ name value => name :: value.toList.flatMap Expr.names
  | assign target value => target.names ++ value.names
  | run e => e.names
  | branch condition yes no => condition.names ++ namesIn yes ++ namesIn no
  | count start condition step body =>
      start.flatMap (fun p => p.1 :: p.2.names) ++ condition.names ++ step.names ++ namesIn body
  | each _ _ name elements body => name :: elements.names ++ namesIn body
  | loop body condition => namesIn body ++ condition.names
  | inset body => namesIn body

/-- The names in a block. -/
def namesIn : List Stmt → List String
  | [] => []
  | s :: ss => s.names ++ namesIn ss

end

end Stmt

/-- The names in a piece of code. -/
def Fragment.names : Fragment → List String
  | nothing => []
  | initializer value => value.names
  | deferred body | statements body => Stmt.namesIn body

attribute [simp] Expr.names Expr.namesIn Stmt.names Stmt.namesIn Fragment.names

end Java

open Java

/-- What the code for a variable may name: its parcel, the variable, its temporaries,
and what has a package. -/
inductive InScope (q : Parcel) (x : String) (t : Temporaries) : String → Prop
  | parcel : InScope q x t q.name
  | argument : InScope q x t x
  | temporary (r : Role) : InScope q x t (t.name r)
  | qualified {y : String} (h : '.' ∈ y.toList) : InScope q x t y

/-- Names that the code for a variable may use. -/
def AllInScope (q : Parcel) (x : String) (t : Temporaries) (names : List String) : Prop :=
  ∀ y ∈ names, InScope q x t y

section Scope

variable {q : Parcel} {x : String} {t : Temporaries}

attribute [simp] InScope.parcel InScope.argument InScope.temporary

@[simp] theorem allInScope_nil : AllInScope q x t [] := List.forall_mem_nil _

@[simp] theorem allInScope_cons {y : String} {ys : List String} :
    AllInScope q x t (y :: ys) ↔ InScope q x t y ∧ AllInScope q x t ys := List.forall_mem_cons

@[simp] theorem allInScope_append {ys zs : List String} :
    AllInScope q x t (ys ++ zs) ↔ AllInScope q x t ys ∧ AllInScope q x t zs :=
  List.forall_mem_append

@[simp] theorem inScope_uuidType : InScope q x t uuidType := .qualified (by decide)

@[simp] theorem inScope_arrays : InScope q x t "java.util.Arrays" := .qualified (by decide)

@[simp] theorem inScope_stub (name : String) : InScope q x t (name ++ ".Stub") :=
  .qualified (by simp)

@[simp] theorem inScope_creatorOf (name : String) : InScope q x t (creatorOf name) := by
  rw [creatorOf]
  split
  · exact .qualified (by decide)
  · exact .qualified (by simp)

@[simp] theorem allInScope_flags : AllInScope q x t q.flags.names := by
  cases q with
  | reply => exact allInScope_cons.mpr ⟨.qualified (by decide), allInScope_nil⟩
  | proxyData | proxyReply | data => exact allInScope_nil

end Scope

@[simp] theorem Java.Expr.names_present (e : Expr) : e.present.names = e.names := by
  simp [present]

@[simp] theorem Java.Expr.names_absent (e : Expr) : e.absent.names = e.names := by
  simp [absent]

@[simp] theorem Java.Expr.names_nonzero (e : Expr) : e.nonzero.names = e.names := by
  simp [nonzero]

@[simp] theorem Parcel.names_expr (q : Parcel) : q.expr.names = [q.name] := by
  simp [expr]

@[simp] theorem Parcel.names_call (q : Parcel) (method : String) (arguments : List Expr) :
    (q.call method arguments).names = q.name :: Expr.namesIn arguments := by
  simp [call]

@[simp] theorem Temporaries.names_var (t : Temporaries) (r : Role) : (t.var r).names = [t.name r] := by
  simp [var]

@[simp] theorem names_classLoader : classLoader.names = [] := by
  simp [classLoader]

@[simp] theorem names_asInterface (name : String) (e : Expr) :
    (asInterface name e).names = (name ++ ".Stub") :: e.names := by
  simp [asInterface]

@[simp] theorem Declared.names_castTo (d : Declared) (e : Expr) : (d.castTo e).names = e.names := by
  rw [castTo]
  split
  · rw [Expr.names]
  · rfl

@[simp] theorem names_upTo (i : String) (bound : Expr) (body : List Stmt) :
    (upTo i bound body).names = i :: i :: bound.names ++ i :: Stmt.namesIn body := by
  simp [upTo]

@[simp] theorem names_readSerializable (type : String) (q : Parcel) :
    (Scheme.readSerializable type q).names = [q.name] := by
  simp [Scheme.readSerializable]

/-- The code of an operation on a parcel names only what is in scope. -/
def Emission.Scoped (q : Parcel) : Emission → Prop
  | refused => True
  | plain code => ∀ t x, AllInScope q x t (code x).names
  | scratch code => ∀ t x, AllInScope q x t (code t x).names

namespace Emission.Scoped

variable {q : Parcel}

theorem emit? {e : Emission} {x : String} {n n' : Nat} {f : Fragment} (h : e.Scoped q)
    (hEmit : e.emit? x n = some (f, n')) : AllInScope q x (.after n) f.names := by
  cases e with
  | refused => cases hEmit
  | plain code =>
      cases hEmit
      exact h _ x
  | scratch code =>
      cases hEmit
      exact h _ x

theorem ite {c : Bool} {e : Emission} (h : e.Scoped q) :
    (if c then e else .refused : Emission).Scoped q := by
  cases c with
  | true => exact h
  | false => trivial

theorem initial {e : Expr} (h : ∀ t x, AllInScope q x t e.names) : (Emission.initial e).Scoped q :=
  fun t x => h t x

end Emission.Scoped

namespace Scheme

variable {q : Parcel}

theorem scoped_write (s : Scheme) (q : Parcel) : (s.write q).Scoped q := by
  have hUuids : ∀ {length asList : Expr} {t : Temporaries} {x : String},
      AllInScope q x t length.names → AllInScope q x t asList.names →
      AllInScope q x t (writeUuids length asList q t x).names := by
    intro length asList t x hLength hList
    simp [writeUuids, upperHalf, lowerHalf, hLength, hList]
  cases s with
  | object type nature =>
      cases nature with
      | parcelable => exact fun t x => by simp [writeObject]
      | interface | serializable => exact fun t x => by simp [Fragment.run]
  | array element nature =>
      apply Emission.Scoped.ite
      cases nature with
      | parcelable => exact fun t x => by simp [Fragment.run]
      | interface => exact fun t x => by simp [writeInterfaceArray]
      | serializable => exact fun t x => by simp [writeSerializables]
  | list content nature =>
      cases nature with
      | parcelable => exact fun t x => by simp [Fragment.run]
      | interface => exact fun t x => by simp [writeInterfaceList]
      | serializable => exact fun t x => by simp [writeSerializables]
  | uuid => exact fun t x => by simp [writeUuid, upperHalf, lowerHalf]
  | uuidArray | uuidList => exact fun t x => hUuids (by simp) (by simp)
  | parcelable | anyValue | value | intLike | boolean | valueArray | valueList | untypedList |
    untypedMap | sparseBooleanArray => exact fun t x => by simp [Fragment.run]

theorem allInScope_readUuids {prepare store otherwise : List Stmt} {x : String} {t : Temporaries}
    (hPrepare : AllInScope q x t (Stmt.namesIn prepare))
    (hStore : AllInScope q x t (Stmt.namesIn store))
    (hOtherwise : AllInScope q x t (Stmt.namesIn otherwise)) :
    AllInScope q x t (Stmt.namesIn (readUuids prepare store otherwise q t)) := by
  cases prepare with
  | nil => simp [readUuids, hStore, hOtherwise]
  | cons s ss =>
      rw [Stmt.namesIn, allInScope_append] at hPrepare
      simp [readUuids, hPrepare, hStore, hOtherwise]

theorem scoped_create (s : Scheme) (d : Declared) (q : Parcel) : (s.create d q).Scoped q := by
  cases s with
  | object type nature =>
      cases nature with
      | parcelable => exact fun t x => by simp [createObject]
      | interface | serializable => exact .initial fun t x => by simp
  | array element nature =>
      apply Emission.Scoped.ite
      cases nature with
      | parcelable => exact .initial fun t x => by simp
      | interface => exact fun t x => by simp [createInterfaceArray]
      | serializable => exact fun t x => by simp [createSerializableArray]
  | list content nature =>
      cases nature with
      | parcelable => exact .initial fun t x => by simp
      | interface => exact fun t x => by simp [createInterfaceList]
      | serializable => exact fun t x => by simp [createSerializableList]
  | uuid => exact fun t x => by simp [createUuid]
  | uuidArray | uuidList =>
      exact fun t x => allInScope_readUuids (by simp) (by simp) (by simp)
  | parcelable | anyValue | value | intLike | boolean | valueArray | valueList | untypedList |
    untypedMap | sparseBooleanArray => exact .initial fun t x => by simp

theorem scoped_update (s : Scheme) (q : Parcel) : (s.update q).Scoped q := by
  cases s with
  | object type nature =>
      cases nature with
      | parcelable => exact fun t x => by simp [updateObject]
      | interface | serializable => trivial
  | array element nature =>
      apply Emission.Scoped.ite
      cases nature with
      | parcelable => exact fun t x => by simp [Fragment.run]
      | interface => exact fun t x => by simp [updateInterfaceArray]
      | serializable => exact fun t x => by simp [updateSerializableArray]
  | list content nature =>
      cases nature with
      | parcelable => exact fun t x => by simp [Fragment.run]
      | interface => exact fun t x => by simp [updateInterfaceList]
      | serializable => exact fun t x => by simp [updateSerializableList]
  | uuidArray | uuidList =>
      exact fun t x => allInScope_readUuids (by simp) (by simp) (by simp)
  | sparseBooleanArray => exact fun t x => by simp [updateSparseBooleanArray]
  | valueArray | valueList | untypedList | untypedMap => exact fun t x => by simp [Fragment.run]
  | parcelable | anyValue | value | intLike | boolean | uuid => trivial

theorem scoped_createBuffer (s : Scheme) (d : Declared) (q : Parcel) :
    (s.createBuffer d q).Scoped q := by
  have hArray : ∀ element : TypeName,
      (Emission.scratch (createArrayBuffer element q)).Scoped q :=
    fun element t x => by simp [createArrayBuffer]
  cases s with
  | object type nature =>
      cases nature with
      | interface => trivial
      | parcelable | serializable => exact .initial fun t x => by simp
  | array element | uuidArray element => exact .ite (hArray element)
  | valueArray element => exact hArray element
  | list | valueList | uuidList | untypedList | untypedMap | sparseBooleanArray =>
      exact .initial fun t x => by simp
  | parcelable | anyValue | value | intLike | boolean | uuid => trivial

theorem scoped_writeBufferInfo (s : Scheme) (q : Parcel) : (s.writeBufferInfo q).Scoped q := by
  have hLength : (writeLength q).Scoped q := fun t x => by simp [Fragment.run]
  cases s with
  | array | uuidArray => exact .ite hLength
  | valueArray => exact hLength
  | object | parcelable | anyValue | value | intLike | boolean | list | valueList | uuid |
    uuidList | untypedList | untypedMap | sparseBooleanArray => exact fun _ _ => allInScope_nil

/-- Whatever is done in a cell, it is done on the parcel of the cell. -/
theorem scoped_cell (s : Scheme) (d : Declared) (direction : Direction) (site : Site)
    (phase : Phase) : (s.cell d direction site phase).Scoped (.of site phase) := by
  rw [cell]
  cases Operation.of? site direction phase with
  | none => exact fun _ _ => allInScope_nil
  | some operation =>
      cases operation with
      | create => exact scoped_create ..
      | write => exact scoped_write ..
      | update => exact scoped_update ..
      | createBuffer => exact scoped_createBuffer ..
      | writeBufferInfo => exact scoped_writeBufferInfo ..

end Scheme

theorem Binding.allInScope_of_code {b : Binding} {site : Site} {phase : Phase} {x : String}
    {n n' : Nat} {f : Fragment} (h : b.code site phase x n = .ok (f, n')) :
    AllInScope (.of site phase) x (.after n) f.names :=
  (b.scheme.scoped_cell b.declared b.argument.direction site phase).emit? (emit?_cell_of_code h)

/-- Code that names a parcel works on that parcel, unless it is for an argument of the same
name. -/
theorem Binding.eq_of_mem_names {b : Binding} {site : Site} {phase : Phase} {x : String}
    {n n' : Nat} {f : Fragment} (h : b.code site phase x n = .ok (f, n')) {q : Parcel}
    (hq : q.name ∈ f.names) : q = .of site phase ∨ q.name = x := by
  generalize hName : q.name = y at hq
  cases allInScope_of_code h y hq with
  | parcel =>
      refine .inl ?_
      revert hName
      cases q <;> cases site <;> cases phase <;> decide
  | argument => exact .inr rfl
  | temporary r => exact absurd hName (Temporaries.parcel_ne_name n r q)
  | qualified hDot =>
      rw [← hName] at hDot
      exact absurd hDot (by cases q <;> decide)

end BinderIdl
