import BinderIdl.Proofs.Java.Assignment
import BinderIdl.Proofs.Marshal.SingleLine
import BinderIdl.Proofs.Marshal.Support

/-! The code that declares an argument assigns its variable. Every path through the code does
so once, and does not read the variable before. With the names of a file read as a compiler
reads them there is one exception: the variable hides the class that makes its value. -/
namespace BinderIdl

open Java Text

/-- A variable that neither the parcel nor a temporary is taken for. -/
structure Java.Variable.Fresh (v : Variable) (q : Parcel) (t : Temporaries) : Prop where
  parcel : v.reads q.name = false
  temporary : ∀ r, v.reads (t.name r) = false

/-- The constant of a class by which a value is made before its variable has one. -/
def Scheme.maker? : Scheme → Option String
  | object type .parcelable => some (creatorOf (className type))
  | object type .interface => some (className type ++ ".Stub")
  | array element .parcelable => some (creatorOf (className element))
  | list content .parcelable => some (creatorOf content.base)
  | _ => none

/-- The code of an operation assigns a fresh variable on every path, exactly if the variable
is not taken for the class that makes the value. -/
def Emission.Definite (q : Parcel) (maker? : Option String) : Emission → Prop
  | refused => True
  | plain code => ∀ v t, Variable.Fresh v q t →
      ((code v.name).Definite v ↔ ∀ c ∈ maker?, v.reads c = false)
  | scratch code => ∀ v t, Variable.Fresh v q t →
      ((code t v.name).Definite v ↔ ∀ c ∈ maker?, v.reads c = false)

namespace Emission.Definite

variable {q : Parcel} {maker? : Option String}

theorem emit? {e : Emission} {v : Variable} {n n' : Nat} {f : Fragment} (h : e.Definite q maker?)
    (hFresh : v.Fresh q (.after n)) (hEmit : e.emit? v.name n = some (f, n')) :
    f.Definite v ↔ ∀ c ∈ maker?, v.reads c = false := by
  cases e with
  | refused => cases hEmit
  | plain code =>
      cases hEmit
      exact h v _ hFresh
  | scratch code =>
      cases hEmit
      exact h v _ hFresh

theorem ite {c : Bool} {e : Emission} (h : e.Definite q maker?) :
    (if c then e else .refused : Emission).Definite q maker? := by
  cases c with
  | true => exact h
  | false => trivial

end Emission.Definite

section Accesses

variable {v : Variable} {q : Parcel} {t : Temporaries} {s : Status}

/-- A first value keeps the rule if it leaves the variable alone. -/
theorem Java.Fragment.definite_initializer {value : Expr} :
    (Fragment.initializer value).Definite v ↔
      (value.accesses v).flow? .unassigned = some .unassigned := by
  rw [Fragment.definite_iff, Fragment.accesses, Paths.flow?_mul]
  cases (value.accesses v).flow? .unassigned with
  | none => simp
  | some status => cases status <;> decide

@[simp] theorem Declared.accesses_castTo (d : Declared) (e : Expr) :
    (d.castTo e).accesses v = e.accesses v := by
  rw [castTo]
  split
  · rw [Expr.accesses]
  · rfl

@[simp] theorem Java.Expr.flow?_present (e : Expr) :
    (e.present.accesses v).flow? s = (e.accesses v).flow? s := by
  simp [present]

@[simp] theorem Java.Expr.flow?_nonzero (e : Expr) :
    (e.nonzero.accesses v).flow? s = (e.accesses v).flow? s := by
  simp [nonzero]

@[simp] theorem flow?_classLoader : (classLoader.accesses v).flow? s = some s := by
  simp [classLoader]

namespace Java.Variable.Fresh

theorem flow?_call (hFresh : v.Fresh q t) (method : String) (arguments : List Expr) :
    ((q.call method arguments).accesses v).flow? s = (Expr.accessesIn v arguments).flow? s := by
  simp [Parcel.call, Parcel.expr, hFresh.parcel]

theorem flow?_expr (hFresh : v.Fresh q t) : (q.expr.accesses v).flow? s = some s := by
  simp [Parcel.expr, hFresh.parcel]

end Java.Variable.Fresh

end Accesses

/-- Once a variable has its value, the class of an interface may have its name. -/
theorem flow?_asInterface {v : Variable} (name : String) {e : Expr}
    (h : (e.accesses v).flow? .assigned = some .assigned) :
    ((asInterface name e).accesses v).flow? .assigned = some .assigned := by
  simp [asInterface, h]

namespace Scheme

theorem definite_create (s : Scheme) (d : Declared) (q : Parcel) :
    (s.create d q).Definite q s.maker? := by
  cases s with
  | object type nature =>
      cases nature with
      | parcelable =>
          intro v t hFresh
          cases hMaker : v.reads (creatorOf (className type)) <;>
            simp [Fragment.definite_iff, maker?, createObject, Variable.reading,
              hFresh.flow?_call, hFresh.flow?_expr, hMaker]
      | interface =>
          intro v t hFresh
          rw [Fragment.definite_initializer]
          cases hMaker : v.reads (className type ++ ".Stub") <;>
            simp [maker?, asInterface, Variable.reading, hFresh.flow?_call, hMaker]
      | serializable =>
          intro v t hFresh
          simp [Fragment.definite_initializer, maker?, readSerializable, hFresh.flow?_call]
  | array element nature =>
      apply Emission.Definite.ite
      cases nature with
      | parcelable =>
          intro v t hFresh
          rw [Fragment.definite_initializer]
          cases hMaker : v.reads (creatorOf (className element)) <;>
            simp [maker?, Variable.reading, hFresh.flow?_call, hMaker]
      | interface =>
          intro v t hFresh
          simp [Fragment.definite_iff, maker?, createInterfaceArray, upTo,
            hFresh.flow?_call, Temporaries.var, hFresh.temporary, flow?_asInterface]
      | serializable =>
          intro v t hFresh
          simp [Fragment.definite_iff, maker?, createSerializableArray, readSerializable, upTo,
            hFresh.flow?_call, Temporaries.var, hFresh.temporary]
  | list content nature =>
      cases nature with
      | parcelable =>
          intro v t hFresh
          rw [Fragment.definite_initializer]
          cases hMaker : v.reads (creatorOf content.base) <;>
            simp [maker?, Variable.reading, hFresh.flow?_call, hMaker]
      | interface =>
          intro v t hFresh
          simp [Fragment.definite_iff, maker?, createInterfaceList,
            hFresh.flow?_call, Temporaries.var, hFresh.temporary, flow?_asInterface]
      | serializable =>
          intro v t hFresh
          simp [Fragment.definite_iff, maker?, createSerializableList, readSerializable, upTo,
            hFresh.flow?_call, Temporaries.var, hFresh.temporary]
  | uuid =>
      intro v t hFresh
      simp [Fragment.definite_iff, maker?, createUuid, hFresh.flow?_call,
        Temporaries.var, hFresh.temporary]
  | uuidArray | uuidList =>
      intro v t hFresh
      simp [Fragment.definite_iff, maker?, createUuidArray, createUuidList, readUuids,
        hFresh.flow?_call, Temporaries.var, hFresh.temporary]
  | parcelable | anyValue | value | intLike | boolean | valueArray | valueList | untypedList |
    untypedMap | sparseBooleanArray =>
      intro v t hFresh
      simp [Fragment.definite_initializer, maker?, hFresh.flow?_call]

theorem definite_createBuffer (s : Scheme) (d : Declared) (q : Parcel) :
    (s.createBuffer d q).Definite q none := by
  have hArray : ∀ element : TypeName,
      (Emission.scratch (createArrayBuffer element q)).Definite q none := by
    intro element v t hFresh
    simp [Fragment.definite_iff, createArrayBuffer, hFresh.flow?_call, Temporaries.var,
      hFresh.temporary]
  cases s with
  | object type nature =>
      cases nature with
      | interface => trivial
      | parcelable | serializable =>
          intro v t _
          simp [Fragment.definite_initializer]
  | array element | uuidArray element => exact .ite (hArray element)
  | valueArray element => exact hArray element
  | list | valueList | uuidList | untypedList | untypedMap | sparseBooleanArray =>
      intro v t _
      simp [Fragment.definite_initializer]
  | parcelable | anyValue | value | intLike | boolean | uuid => trivial

theorem definite_perform {operation : Operation}
    (hDeclares : operation = .create ∨ operation = .createBuffer) (s : Scheme) (d : Declared)
    (q : Parcel) :
    (s.perform d q operation).Definite q (if operation = .create then s.maker? else none) := by
  rcases hDeclares with rfl | rfl
  · exact definite_create s d q
  · exact definite_createBuffer s d q

end Scheme

/-- A name that generated code uses for nothing else. -/
structure OwnName (x : String) : Prop where
  undotted : '.' ∉ x.toList
  parcel : ∀ q : Parcel, q.name ≠ x
  temporary : ∀ n r, (Temporaries.after n).name r ≠ x

theorem ownName_argumentLocal (i : Nat) : OwnName (argumentLocal i) := by
  refine ⟨?_, fun q hName => ?_, fun n r => Temporaries.name_ne_argumentLocal n i r⟩
  · rw [argumentLocal, String.toList_append, List.mem_append, not_or]
    exact ⟨by decide, fun hDot => absurd (isDigit_of_mem_toString hDot) (by decide)⟩
  · have hStem := congrArg nameStem hName
    rw [nameStem_argumentLocal] at hStem
    revert hStem
    cases q <;> decide

theorem ownName_resultName : OwnName Argument.resultName :=
  ⟨by decide, fun q => by cases q <;> decide, fun n r => Temporaries.name_ne_resultName n r⟩

namespace Java.Variable

/-- Of the names without dots only its own name reads a variable. -/
theorem reads_leading_of_undotted {x y : String} (h : '.' ∉ y.toList) (hNe : y ≠ x) :
    (leading x).reads y = false := by
  simp only [leading, Bool.or_eq_false_iff, beq_eq_false_iff_ne]
  refine ⟨hNe, Bool.eq_false_iff.mpr fun hPrefix => h ?_⟩
  apply (List.isPrefixOf_iff_prefix.mp hPrefix).subset
  simp

theorem fresh_whole {x : String} (h : OwnName x) (q : Parcel) (n : Nat) :
    (whole x).Fresh q (.after n) :=
  ⟨beq_eq_false_iff_ne.mpr (h.parcel q), fun r => beq_eq_false_iff_ne.mpr (h.temporary n r)⟩

theorem fresh_leading {x : String} (h : OwnName x) (q : Parcel) (n : Nat) :
    (leading x).Fresh q (.after n) :=
  ⟨reads_leading_of_undotted (by cases q <;> decide) (h.parcel q),
    fun r => reads_leading_of_undotted (Temporaries.dot_not_mem_name n r) (h.temporary n r)⟩

end Java.Variable

/-- Constants of classes have a dot. -/
theorem Scheme.dot_mem_maker {s : Scheme} : ∀ c ∈ s.maker?, '.' ∈ c.toList := by
  have hSome : ∀ {y : String}, '.' ∈ y.toList → ∀ c ∈ some y, '.' ∈ c.toList := by
    intro y hy c hc
    rwa [← Option.mem_some_iff.mp hc]
  rw [maker?.eq_def]
  split
  · exact hSome (dot_mem_creatorOf _)
  · exact hSome (by simp)
  · exact hSome (dot_mem_creatorOf _)
  · exact hSome (dot_mem_creatorOf _)
  · exact fun c hc => absurd hc (Option.not_mem_none c)

theorem Encoding.exists_desk_of_answer {β : Type} {x : Encoding β} {d : Desk} {b : β}
    (h : x.answer d = .ok b) : ∃ e, x d = .ok b e := by
  rw [answer] at h
  split at h
  · cases h
    exact ⟨_, by assumption⟩
  · cases h

/-- The code that declares an argument, and what it comes to. The argument's variable is
assigned once on every path and not read before, with names read as a whole. It also is with
names read from the left, as a compiler does, exactly unless the value is made with a constant
of a class that the variable hides. -/
theorem declaration_definite (w : Writer) (slot : Slot) (a : Argument) (t : TypeName)
    (hType : TypeName.parse (w.context.meaning a.type) = .ok t) (hLine : Unbroken a.type)
    (site : Site) (phase : Phase) (operation : Operation)
    (hOperation : Operation.of? site a.direction phase = some operation)
    (hDeclares : operation = .create ∨ operation = .createBuffer)
    (x : String) (hName : OwnName x) (d : Desk) (hAdmits : d.Admits w slot a) (f : Fragment)
    (hEncode : (w.encode slot a site phase x).answer d = .ok f) :
    ((∃ value, f = .initializer value ∧ f.text = " = " ++ value.text ++ ";" ∧ Unbroken f.text) ∨
      ∃ body, f = .deferred body ∧ f.text = ";\n" ++ Stmt.text body) ∧
    f.Definite (.whole x) ∧
    (f.Definite (.leading x) ↔ operation = .create →
      ∀ c ∈ (Scheme.of (Category.of t) t w.context.nature).maker?,
        (Variable.leading x).reads c = false) := by
  obtain ⟨e, hOk⟩ := Encoding.exists_desk_of_answer hEncode
  obtain ⟨b, n, hBinds, hCode, -⟩ := Writer.encode_leads.of_ok hOk
  have hMake : Binding.make w.number w.context a = .ok b := by
    rcases hBinds.origin with hBound | ⟨_, hMake⟩
    · exact hAdmits b hBound
    · exact hMake
  obtain ⟨t', hParse, rfl⟩ := Binding.make_eq_ok_iff.mp hMake
  cases hType.symm.trans hParse
  have hEmit := Binding.emit?_of_code operation hOperation hCode
  have hEvery := Scheme.every_of isLineBreak_of_isUsual (TypeName.every_unbroken hType)
    (Category.of t) w.context.nature
  refine ⟨?_, ?_, ?_⟩
  · cases (Scheme.suffix_perform hDeclares hEvery hLine _).emit? hEmit with
    | @initializer value hValue =>
        have hStart : Unbroken (" = " ++ value.text) :=
          over_append.mpr ⟨unbroken_literal rfl, hValue⟩
        exact .inl ⟨value, rfl, rfl, over_append.mpr ⟨hStart, unbroken_literal rfl⟩⟩
    | deferred body => exact .inr ⟨body, rfl, rfl⟩
  · refine ((Scheme.definite_perform hDeclares _ _ _).emit? (Variable.fresh_whole hName _ _)
      hEmit).mpr fun c hc => ?_
    have hDot : '.' ∈ c.toList := by
      split at hc
      · exact Scheme.dot_mem_maker c hc
      · exact absurd hc (Option.not_mem_none c)
    exact beq_eq_false_iff_ne.mpr fun hSame => hName.undotted (hSame ▸ hDot)
  · rw [(Scheme.definite_perform hDeclares _ _ _).emit? (Variable.fresh_leading hName _ _) hEmit]
    by_cases hCreate : operation = .create
    · rw [if_pos hCreate]
      exact ⟨fun hReads _ => hReads, fun hReads => hReads hCreate⟩
    · simp [hCreate]

/-- Identifiers that a method returns. -/
private def keys : Argument :=
  ⟨.result, "java.util.List<java.util.UUID>", Argument.resultName, some 4⟩

private def keysType : TypeName := .mk "java.util.List" [.mk "java.util.UUID" [] 0 none] 0 none

theorem declaration_definite_keys :
    TypeName.parse keys.type = .ok keysType ∧ Unbroken keys.type ∧ OwnName Argument.resultName ∧
    ∃ f, (Writer.encode ⟨0, {}⟩ ⟨0, none⟩ keys .proxy .post Argument.resultName).answer {} =
        .ok f ∧
      f.Definite (.whole Argument.resultName) ∧ f.Definite (.leading Argument.resultName) := by
  have hType : TypeName.parse keys.type = .ok keysType := by decide +kernel
  have hLine : Unbroken keys.type := unbroken_literal (by decide +kernel)
  have hAdmits : Desk.Admits {} ⟨0, {}⟩ ⟨0, none⟩ keys := by simp [Desk.Admits, Desk.binding?]
  have hCategory : Category.of keysType = .uuidList := by decide +kernel
  have hMake : Binding.make 0 {} keys = .ok ⟨0, {}, keys, keysType⟩ :=
    Binding.make_eq_ok_iff.mpr ⟨keysType, hType, rfl⟩
  have hAnswer := @Writer.answer_encode_of_admits ⟨0, {}⟩ ⟨0, none⟩ keys _ .proxy .post
    Argument.resultName {} (Context.clear_of_obstacle? (fun _ _ => rfl) _) hAdmits hMake
  rw [Binding.code, Binding.scheme, Binding.category, hCategory] at hAnswer
  obtain ⟨-, hWhole, hLeading⟩ := declaration_definite ⟨0, {}⟩ ⟨0, none⟩ keys keysType hType
    hLine .proxy .post .create rfl (.inl rfl) Argument.resultName ownName_resultName {} hAdmits _
    hAnswer
  rw [hCategory] at hLeading
  refine ⟨hType, hLine, ownName_resultName, _, hAnswer, hWhole, hLeading.mpr fun _ c hc => ?_⟩
  cases hc

/-- A class with the name that the dispatcher gives to its first argument. -/
private def crowded : Context :=
  { package := "demo", imports := [⟨.parcelable, "demo._arg0"⟩] }

private def crowding : Argument := ⟨.into, "_arg0", "a", some 16⟩

theorem variable_hides_class :
    OwnName (argumentLocal 0) ∧
    ∃ f, (Writer.encode ⟨0, crowded⟩ ⟨0, some 0⟩ crowding .dispatcher .pre
        (argumentLocal 0)).answer {} = .ok f ∧
      f.text = ";\nif (data.readInt() != 0) \x7b\n" ++
        "    _arg0 = _arg0.CREATOR.createFromParcel(data);\n\x7d else \x7b\n" ++
        "    _arg0 = null;\n\x7d" ∧
      [.read, .assign] ∈ (f.accesses (.leading (argumentLocal 0))).matches' ∧
      ¬f.Definite (.leading (argumentLocal 0)) := by
  have hType : TypeName.parse "_arg0" = .ok (.mk "_arg0" [] 0 none) := by decide +kernel
  have hAdmits : Desk.Admits {} ⟨0, crowded⟩ ⟨0, some 0⟩ crowding := by
    simp [Desk.Admits, Desk.binding?]
  have hMake : Binding.make 0 crowded crowding =
      .ok ⟨0, crowded, crowding, .mk "_arg0" [] 0 none⟩ :=
    Binding.make_eq_ok_iff.mpr ⟨_, hType, rfl⟩
  have hCategory : Category.of (.mk "_arg0" [] 0 none) = .object := by decide +kernel
  have hNature : crowded.nature (className (.mk "_arg0" [] 0 none)) = .parcelable := by
    decide +kernel
  have hAnswer := @Writer.answer_encode_of_admits ⟨0, crowded⟩ ⟨0, some 0⟩ crowding _ .dispatcher
    .pre (argumentLocal 0) {} (Context.clear_of_obstacle? (fun _ _ => rfl) _) hAdmits hMake
  rw [Binding.code, Binding.scheme, Binding.category, hCategory, Scheme.of, hNature] at hAnswer
  have hPath : [.read, .assign] ∈ (Fragment.accesses (.leading (argumentLocal 0))
      (Scheme.createObject ⟨"_arg0", false⟩ (.mk "_arg0" [] 0 none) .data
        (argumentLocal 0))).matches' :=
    (RegularExpression.rmatch_iff_matches' _ _).mp (by decide +kernel)
  refine ⟨ownName_argumentLocal 0, _, hAnswer, by decide +kernel, hPath, fun hDefinite => ?_⟩
  obtain ⟨n, hAssign⟩ := hDefinite.path _ hPath
  cases hAssign

end BinderIdl
