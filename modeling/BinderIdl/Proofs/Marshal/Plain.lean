import BinderIdl.Marshal.Desk
import BinderIdl.Proofs.Java.Plain
import BinderIdl.Proofs.Marshal.Encode
import BinderIdl.Proofs.Marshal.Words

/-! Code of plain words. Besides the argument's name and the words of the templates, the words
of an argument's code come from the type that the argument means. So the code for a plain type
is plain. -/
namespace BinderIdl

open Java

namespace TypeName

mutual

/-- All names in a type name are plain. -/
def Plain : TypeName → Prop
  | mk base arguments _ _ => Java.Plain base ∧ AllPlain arguments

/-- All names in some type names are plain. -/
def AllPlain : List TypeName → Prop
  | [] => True
  | t :: ts => t.Plain ∧ AllPlain ts

end

theorem allPlain_iff (ts : List TypeName) : AllPlain ts ↔ ∀ t ∈ ts, t.Plain := by
  induction ts with
  | nil => simp [AllPlain]
  | cons t ts ih => rw [AllPlain, ih, List.forall_mem_cons]

mutual

theorem every_of_plain : ∀ t : TypeName, t.Plain → t.Every Java.Plain
  | mk _ arguments _ _, h => .mk h.1 (every_of_allPlain arguments h.2)

theorem every_of_allPlain : ∀ ts : List TypeName, AllPlain ts → ∀ t ∈ ts, t.Every Java.Plain
  | [], _ => by simp
  | t :: ts, h => List.forall_mem_cons.mpr ⟨every_of_plain t h.1, every_of_allPlain ts h.2⟩

end

theorem plain_iff_every {t : TypeName} : t.Plain ↔ t.Every Java.Plain := by
  refine ⟨every_of_plain t, fun h => ?_⟩
  induction h with
  | mk hBase _ ih => exact ⟨hBase, (allPlain_iff _).mpr ih⟩

/-- A type name that is read from a plain text is plain. -/
theorem plain_read {text : List Char} {t : TypeName} (h : read text = .ok t)
    (hText : ∀ c ∈ text, isStructural c = false) : t.Plain := by
  refine plain_iff_every.mpr ((every_read h).mono fun name hName => ?_)
  rcases hName with rfl | hName
  · exact plain_literal rfl
  · exact fun c hc => hText c (hName c hc).1

end TypeName

/-- Letters and the signs of types structure nothing. -/
theorem isStructural_of_isUsual (c : Char) (h : isUsual c = true) : isStructural c = false := by
  rw [Bool.eq_false_iff]
  intro hStructural
  simp only [isStructural, Bool.or_eq_true, beq_iff_eq] at hStructural
  rcases hStructural with (((rfl | rfl) | rfl) | rfl) | rfl <;> revert h <;> decide

theorem TypeName.plain_print {t : TypeName} (h : t.Plain) : Java.Plain t.print :=
  over_print isStructural_of_isUsual (plain_iff_every.mp h)

theorem TypeName.Plain.base {t : TypeName} (h : t.Plain) : Java.Plain t.base :=
  (plain_iff_every.mp h).base

theorem plain_className {t : TypeName} (h : t.Plain) : Java.Plain (className t) :=
  over_className isStructural_of_isUsual (TypeName.plain_iff_every.mp h)

theorem plain_creatorOf {name : String} (h : Java.Plain name) : Java.Plain (creatorOf name) :=
  over_creatorOf isStructural_of_isUsual h

namespace Scheme

/-- All words that a scheme carries are plain. -/
def Plain : Scheme → Prop
  | object t _ | array t _ | list t _ | uuidArray t | uuidList t => t.Plain
  | value kind => Java.Plain kind
  | valueArray t kind | valueList t kind => t.Plain ∧ Java.Plain kind
  | parcelable | anyValue | intLike | boolean | uuid | untypedList | untypedMap
  | sparseBooleanArray => True

theorem plain_of {t : TypeName} (h : t.Plain) (category : Category) (nature : String → Nature) :
    (of category t nature).Plain := by
  have hEvery := every_of isStructural_of_isUsual (TypeName.plain_iff_every.mp h)
    category nature
  generalize of category t nature = s at hEvery
  cases s with
  | object | array | list | uuidArray | uuidList => exact TypeName.plain_iff_every.mpr hEvery
  | value => exact hEvery
  | valueArray | valueList => exact ⟨TypeName.plain_iff_every.mpr hEvery.1, hEvery.2⟩
  | parcelable | anyValue | intLike | boolean | uuid | untypedList | untypedMap |
    sparseBooleanArray => trivial

end Scheme

@[simp] theorem Temporaries.plain_name (t : Temporaries) (r : Role) : Java.Plain (t.name r) := by
  have hRole : Java.Plain r.word := by cases r <;> decide
  rw [name, named, plain_append, plain_append]
  refine ⟨⟨by decide, hRole⟩, ?_⟩
  split
  · decide
  · exact plain_toString_int t.index

@[simp] theorem Temporaries.plain_var (t : Temporaries) (r : Role) : (t.var r).Plain :=
  t.plain_name r

@[simp] theorem Parcel.plain_expr (q : Parcel) : q.expr.Plain := by
  show Java.Plain q.name
  cases q <;> decide

@[simp] theorem Parcel.plain_flags (q : Parcel) : q.flags.Plain := by
  cases q with
  | reply =>
      show Java.Plain "android.os.Parcelable.PARCELABLE_WRITE_RETURN_VALUE"
      decide
  | proxyData | proxyReply | data => trivial

@[simp] theorem Parcel.plain_call (q : Parcel) (method : String) (arguments : List Expr) :
    (q.call method arguments).Plain ↔ Java.Plain method ∧ Expr.AllPlain arguments := by
  simp [call]

@[simp] theorem Java.Expr.plain_present (e : Expr) : e.present.Plain ↔ e.Plain := by
  simp [present]

@[simp] theorem Java.Expr.plain_absent (e : Expr) : e.absent.Plain ↔ e.Plain := by
  simp [absent]

@[simp] theorem Java.Expr.plain_nonzero (e : Expr) : e.nonzero.Plain ↔ e.Plain := by
  simp [nonzero]

/-- The code of an operation is plain for plain names. -/
def Emission.Plain : Emission → Prop
  | refused => True
  | plain code => ∀ x, Java.Plain x → (code x).Plain
  | scratch code => ∀ t x, Java.Plain x → (code t x).Plain

namespace Emission.Plain

theorem emit? {e : Emission} {x : String} {n n' : Nat} {f : Fragment} (h : e.Plain)
    (hx : Java.Plain x) (hEmit : e.emit? x n = some (f, n')) : f.Plain := by
  cases e with
  | refused => cases hEmit
  | plain code =>
      cases hEmit
      exact h x hx
  | scratch code =>
      cases hEmit
      exact h _ x hx

theorem ite {c : Bool} {e : Emission} (h : e.Plain) :
    (if c then e else .refused : Emission).Plain := by
  cases c with
  | true => exact h
  | false => trivial

theorem initial {e : Expr} (h : e.Plain) : (Emission.initial e).Plain := fun _ _ => h

end Emission.Plain

theorem plain_classLoader : classLoader.Plain := by
  simp [classLoader]
  and_intros <;> exact plain_literal rfl

@[simp] theorem plain_asInterface (name : String) (e : Expr) :
    (asInterface name e).Plain ↔ Java.Plain name ∧ e.Plain := by
  have hStub : Java.Plain ".Stub" := plain_literal rfl
  have hMethod : Java.Plain "asInterface" := plain_literal rfl
  simp [asInterface, hStub, hMethod]

theorem Declared.plain_castTo {d : Declared} {e : Expr} (hType : Java.Plain d.type) (h : e.Plain) :
    (d.castTo e).Plain := by
  rw [castTo]
  split
  · exact ⟨hType, h⟩
  · exact h

@[simp] theorem plain_upTo (x : String) (bound : Expr) (body : List Stmt) :
    (upTo x bound body).Plain ↔ Java.Plain x ∧ bound.Plain ∧ Stmt.AllPlain body := by
  simp only [upTo, Stmt.Plain, Expr.Plain, List.mem_singleton, forall_eq, and_true]
  grind

namespace Scheme

variable {s : Scheme} {d : Declared} {t : TypeName} {x : String}

theorem plain_write (h : s.Plain) (q : Parcel) : (s.write q).Plain := by
  have hUuids : ∀ {length asList : Expr} (t : Temporaries) {x : String}, length.Plain →
      asList.Plain → Java.Plain x → (writeUuids length asList q t x).Plain := by
    intro length asList t x hLength hList hx
    simp [writeUuids, upperHalf, lowerHalf, hx, hLength, hList]
    and_intros <;> exact plain_literal rfl
  cases s with
  | object type nature =>
      cases nature with
      | parcelable =>
          intro x hx
          simp [writeObject, hx]
          and_intros <;> exact plain_literal rfl
      | interface | serializable =>
          intro x hx
          simp [hx]
          exact plain_literal rfl
  | array element nature =>
      apply Emission.Plain.ite
      cases nature with
      | parcelable =>
          intro x hx
          simp [hx]
          exact plain_literal rfl
      | interface =>
          intro t x hx
          simp [writeInterfaceArray, binderType, hx]
          and_intros <;> exact plain_literal rfl
      | serializable =>
          intro t x hx
          simp [writeSerializables, hx]
          and_intros <;> exact plain_literal rfl
  | list content nature =>
      cases nature with
      | parcelable =>
          intro x hx
          simp [hx]
          exact plain_literal rfl
      | interface =>
          intro t x hx
          simp [writeInterfaceList, binderListType, hx]
          and_intros <;> exact plain_literal rfl
      | serializable =>
          intro t x hx
          simp [writeSerializables, hx]
          and_intros <;> exact plain_literal rfl
  | value kind =>
      intro x hx
      have hKind : Java.Plain kind := h
      simp [hx, hKind]
      exact plain_literal rfl
  | valueArray element kind | valueList content kind =>
      intro x hx
      simp [hx, h.2]
      and_intros <;> exact plain_literal rfl
  | uuid =>
      intro x hx
      simp [writeUuid, upperHalf, lowerHalf, hx]
      and_intros <;> exact plain_literal rfl
  | uuidArray element =>
      intro t x hx
      have hLength : (Expr.field (.name x) "length").Plain := ⟨hx, plain_literal rfl⟩
      have hList : (Expr.call (.name "java.util.Arrays") "asList" [.name x]).Plain :=
        ⟨plain_literal rfl, plain_literal rfl, hx, trivial⟩
      exact hUuids t hLength hList hx
  | uuidList content =>
      intro t x hx
      exact hUuids t ⟨hx, plain_literal rfl, trivial⟩ hx hx
  | parcelable | anyValue | intLike | boolean | untypedList | untypedMap | sparseBooleanArray =>
      intro x hx
      simp [hx]
      exact plain_literal rfl

theorem plain_readSerializable {type : String} (h : Java.Plain type) (q : Parcel) :
    (readSerializable type q).Plain := by
  simp [readSerializable, h]
  exact plain_literal rfl

theorem plain_arrayListOf {content : String} (h : Java.Plain content) :
    Java.Plain (arrayListOf content) := by
  have hOpen : Java.Plain ("java.util.ArrayList<" ++ content) :=
    plain_append.mpr ⟨plain_literal rfl, h⟩
  exact plain_append.mpr ⟨hOpen, plain_literal rfl⟩

/-- Reading identifiers adds nothing to the words of what is done with them. -/
theorem plain_readUuids {prepare store otherwise : List Stmt} (hPrepare : Stmt.AllPlain prepare)
    (hStore : Stmt.AllPlain store) (hOtherwise : Stmt.AllPlain otherwise) (q : Parcel)
    (t : Temporaries) : Stmt.AllPlain (readUuids prepare store otherwise q t) := by
  cases prepare with
  | nil =>
      simp [readUuids, hStore, hOtherwise, uuidType]
      and_intros <;> exact plain_literal rfl
  | cons s ss =>
      simp [readUuids, hPrepare.1, hPrepare.2, hStore, hOtherwise, uuidType]
      and_intros <;> exact plain_literal rfl

theorem plain_create (h : s.Plain) (hType : Java.Plain d.type) (q : Parcel) :
    (s.create d q).Plain := by
  cases s with
  | object type nature =>
      have hClass := plain_className h
      cases nature with
      | parcelable =>
          intro x hx
          have hValue : (d.castTo (.call (.name (creatorOf (className type))) "createFromParcel"
              [q.expr])).Plain := by
            apply Declared.plain_castTo hType
            simp [plain_creatorOf hClass]
            exact plain_literal rfl
          simp [createObject, hx, hValue]
          exact plain_literal rfl
      | interface =>
          apply Emission.Plain.initial
          apply Declared.plain_castTo hType
          simp [hClass]
          exact plain_literal rfl
      | serializable => exact .initial (plain_readSerializable hType q)
  | array element nature =>
      have hClass := plain_className h
      have hPrint := element.plain_print h
      apply Emission.Plain.ite
      cases nature with
      | parcelable => exact .initial (by simp [plain_creatorOf hClass]; exact plain_literal rfl)
      | interface =>
          intro t x hx
          simp [createInterfaceArray, hx, hPrint, hClass]
          and_intros <;> exact plain_literal rfl
      | serializable =>
          intro t x hx
          simp [createSerializableArray, hx, hPrint, plain_readSerializable hPrint]
          and_intros <;> exact plain_literal rfl
  | list content nature =>
      have hPrint := content.plain_print h
      cases nature with
      | parcelable => exact .initial (by simp [plain_creatorOf h.base]; exact plain_literal rfl)
      | interface =>
          intro t x hx
          simp [createInterfaceList, binderListType, binderType, hx,
            plain_arrayListOf hPrint, h.base]
          and_intros <;> exact plain_literal rfl
      | serializable =>
          intro t x hx
          simp [createSerializableList, hx, plain_arrayListOf hPrint,
            plain_readSerializable hPrint]
          and_intros <;> exact plain_literal rfl
  | value kind =>
      have hKind : Java.Plain kind := h
      exact .initial (by simp [hKind]; exact plain_literal rfl)
  | valueArray element kind | valueList content kind =>
      apply Emission.Plain.initial
      simp [h.2]
      exact ⟨plain_literal rfl, plain_literal rfl⟩
  | uuid =>
      intro t x hx
      simp [createUuid, uuidType, hx]
      and_intros <;> exact plain_literal rfl
  | uuidArray element =>
      intro t x hx
      apply plain_readUuids <;> simp [hx]
      exact plain_literal rfl
  | uuidList content =>
      intro t x hx
      have hNew : Java.Plain (arrayListOf uuidType) := plain_arrayListOf (plain_literal rfl)
      apply plain_readUuids <;> simp [hx, hNew]
      exact plain_literal rfl
  | anyValue => exact .initial ⟨hType, by simp [plain_classLoader]; exact plain_literal rfl⟩
  | intLike => exact .initial ⟨hType, by simp; exact plain_literal rfl⟩
  | parcelable | untypedList | untypedMap =>
      exact .initial (by simp [plain_classLoader]; exact plain_literal rfl)
  | boolean | sparseBooleanArray => exact .initial (by simp; exact plain_literal rfl)

theorem plain_update (h : s.Plain) (q : Parcel) : (s.update q).Plain := by
  cases s with
  | object type nature =>
      cases nature with
      | parcelable =>
          intro x hx
          simp [updateObject, hx]
          and_intros <;> exact plain_literal rfl
      | interface | serializable => trivial
  | array element nature =>
      have hClass := plain_className h
      have hPrint := element.plain_print h
      apply Emission.Plain.ite
      cases nature with
      | parcelable =>
          intro x hx
          simp [hx, plain_creatorOf hClass]
          exact plain_literal rfl
      | interface =>
          intro t x hx
          simp [updateInterfaceArray, hx, hClass]
          and_intros <;> exact plain_literal rfl
      | serializable =>
          intro t x hx
          simp [updateSerializableArray, hx, hPrint, plain_readSerializable hPrint]
          and_intros <;> exact plain_literal rfl
  | list content nature =>
      have hPrint := content.plain_print h
      cases nature with
      | parcelable =>
          intro x hx
          simp [hx, plain_creatorOf h.base]
          exact plain_literal rfl
      | interface =>
          intro t x hx
          simp [updateInterfaceList, binderListType, binderType, hx,
            h.base]
          and_intros <;> exact plain_literal rfl
      | serializable =>
          intro t x hx
          simp [updateSerializableList, hx, plain_readSerializable hPrint]
          and_intros <;> exact plain_literal rfl
  | valueArray element kind | valueList content kind =>
      intro x hx
      simp [hx, h.2]
      and_intros <;> exact plain_literal rfl
  | uuidArray element | uuidList content =>
      intro t x hx
      apply plain_readUuids <;> simp [hx] <;> and_intros <;> exact plain_literal rfl
  | untypedList | untypedMap =>
      intro x hx
      simp [hx, plain_classLoader]
      exact plain_literal rfl
  | sparseBooleanArray =>
      intro t x hx
      simp [updateSparseBooleanArray, hx]
      and_intros <;> exact plain_literal rfl
  | parcelable | anyValue | value | intLike | boolean | uuid => trivial

theorem plain_createBuffer (h : s.Plain) (hType : Java.Plain d.type) (q : Parcel) :
    (s.createBuffer d q).Plain := by
  have hArray : ∀ {element : TypeName}, element.Plain →
      (Emission.scratch (createArrayBuffer element q)).Plain := by
    intro element hElement t x hx
    simp [createArrayBuffer, hx, element.plain_print hElement]
    and_intros <;> exact plain_literal rfl
  have hList : ∀ {content : TypeName}, content.Plain →
      (Emission.initial (.new (arrayListOf content.print) [])).Plain := by
    intro content hContent
    exact .initial ⟨plain_arrayListOf (content.plain_print hContent), trivial⟩
  cases s with
  | object type nature =>
      have hNew : (Emission.initial (d.castTo (.new type.print []))).Plain :=
        .initial (Declared.plain_castTo hType ⟨type.plain_print h, trivial⟩)
      cases nature with
      | interface => trivial
      | parcelable | serializable => exact hNew
  | array element | uuidArray element => exact .ite (hArray h)
  | valueArray element kind => exact hArray h.1
  | list content | uuidList content => exact hList h
  | valueList content kind => exact hList h.1
  | untypedList | untypedMap | sparseBooleanArray =>
      exact .initial (by simp; exact plain_literal rfl)
  | parcelable | anyValue | value | intLike | boolean | uuid => trivial

theorem plain_writeBufferInfo (s : Scheme) (q : Parcel) : (s.writeBufferInfo q).Plain := by
  have hLength : (writeLength q).Plain := by
    intro x hx
    simp [hx]
    and_intros <;> exact plain_literal rfl
  cases s with
  | array | uuidArray => exact .ite hLength
  | valueArray => exact hLength
  | object | parcelable | anyValue | value | intLike | boolean | list | valueList | uuid |
    uuidList | untypedList | untypedMap | sparseBooleanArray => exact fun _ _ => trivial

/-- Whatever is done with an argument of a plain type, its code is plain. -/
theorem plain_cell (h : s.Plain) (hType : Java.Plain d.type) (direction : Direction) (site : Site)
    (phase : Phase) : (s.cell d direction site phase).Plain := by
  rw [cell]
  cases Operation.of? site direction phase with
  | none => exact fun _ _ => trivial
  | some operation =>
      cases operation with
      | create => exact plain_create h hType _
      | write => exact plain_write h _
      | update => exact plain_update h _
      | createBuffer => exact plain_createBuffer h hType _
      | writeBufferInfo => exact plain_writeBufferInfo s _

end Scheme

namespace Binding

/-- The type of the argument is plain, as it is declared and as it is meant. -/
structure Plain (b : Binding) : Prop where
  declared : Java.Plain b.argument.type
  meant : b.type.Plain

theorem Plain.code {b : Binding} {site : Site} {phase : Phase} {x : String} {n n' : Nat}
    {f : Fragment} (h : b.Plain) (hx : Java.Plain x)
    (hCode : b.code site phase x n = .ok (f, n')) : f.Plain :=
  (Scheme.plain_cell (Scheme.plain_of h.meant _ _) h.declared _ _ _).emit? hx
    (emit?_cell_of_code hCode)

theorem plain_make {owner : Nat} {context : Context} {a : Argument} {b : Binding}
    (h : make owner context a = .ok b) (hType : Java.Plain a.type)
    (hBounds : ∀ p ∈ context.typeParameters, ∀ bound ∈ p.bounds, Java.Plain bound) : b.Plain := by
  have hMeaning : Java.Plain (context.meaning a.type) := by
    rw [Context.meaning]
    split
    · rename_i p hParameter
      have hMem := List.mem_of_find?_eq_some hParameter
      split
      · rename_i bound hBound
        have hPlain := hBounds p hMem bound (List.mem_of_head? hBound)
        split
        · exact plain_literal rfl
        · exact hPlain
      · exact plain_literal rfl
    · exact hType
  rw [make] at h
  split at h
  · rename_i type hParse
    cases h
    exact ⟨hType, TypeName.plain_read hParse hMeaning⟩
  · cases h

end Binding

end BinderIdl
