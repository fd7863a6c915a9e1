import BinderIdl.Proofs.Registry.Precedence
import BinderIdl.Proofs.Stub.Faults

/-! Which types travel in which directions. What a scheme refuses is said twice here: by two
questions about the scheme, and by the type and its nature alone. An argument has code in
all of its cells exactly if its type is supported in its direction, and every failure is the
complaint that it is not. Where the sources of the project decide about the type, they are
taken to be readable. -/
namespace BinderIdl

open Java

namespace Scheme

/-- Values of the scheme can be sent. -/
def goes : Scheme → Bool
  | array element _ => elementTravels element
  | _ => true

/-- Values of the scheme can be sent, and can come back into a place that exists. -/
def returns : Scheme → Bool
  | object _ nature => nature == .parcelable
  | parcelable | anyValue | value _ | intLike | boolean | uuid => false
  | array element _ | uuidArray element => elementTravels element
  | valueArray _ _ | list _ _ | valueList _ _ | uuidList _ | untypedList | untypedMap
  | sparseBooleanArray => true

variable {s : Scheme} {d : Declared} {q : Parcel}

theorem write_eq_refused_iff : s.write q = .refused ↔ s.goes = false := by
  cases s with
  | object _ nature | array _ nature | list _ nature =>
      cases nature <;> simp [write, goes, Emission.run]
  | parcelable | anyValue | value | intLike | boolean | valueArray | valueList | uuid |
    uuidArray | uuidList | untypedList | untypedMap | sparseBooleanArray =>
      simp [write, goes, Emission.run]

theorem create_eq_refused_iff : s.create d q = .refused ↔ s.goes = false := by
  cases s with
  | object _ nature | array _ nature | list _ nature =>
      cases nature <;> simp [create, goes, Emission.initial]
  | parcelable | anyValue | value | intLike | boolean | valueArray | valueList | uuid |
    uuidArray | uuidList | untypedList | untypedMap | sparseBooleanArray =>
      simp [create, goes, Emission.initial]

/-- Arrays of identifiers are arrays of elements that travel. -/
def Regular : Scheme → Prop
  | uuidArray element => elementTravels element = true
  | _ => True

theorem update_eq_refused_iff (h : s.Regular) : s.update q = .refused ↔ s.returns = false := by
  cases s with
  | object _ nature | array _ nature | list _ nature =>
      cases nature <;> simp [update, returns, Emission.run]
  | uuidArray element => simp [update, returns, show elementTravels element = true from h]
  | parcelable | anyValue | value | intLike | boolean | valueArray | valueList | uuid |
    uuidList | untypedList | untypedMap | sparseBooleanArray =>
      simp [update, returns, Emission.run]

theorem createBuffer_ne_refused (h : s.returns = true) : s.createBuffer d q ≠ .refused := by
  cases s with
  | object _ nature => cases nature <;> simp_all [createBuffer, returns, Emission.initial]
  | array element _ | uuidArray element =>
      simp [createBuffer, show elementTravels element = true from h]
  | parcelable | anyValue | value | intLike | boolean | uuid => cases h
  | valueArray | list | valueList | uuidList | untypedList | untypedMap | sparseBooleanArray =>
      simp [createBuffer, Emission.initial]

theorem writeBufferInfo_ne_refused (h : s.returns = true) : s.writeBufferInfo q ≠ .refused := by
  cases s with
  | array element _ | uuidArray element =>
      simp [writeBufferInfo, writeLength, Emission.run, show elementTravels element = true from h]
  | object | parcelable | anyValue | value | intLike | boolean | uuid | valueArray | list |
    valueList | uuidList | untypedList | untypedMap | sparseBooleanArray =>
      simp [writeBufferInfo, writeLength, Emission.run]

theorem goes_of_returns (h : s.returns = true) : s.goes = true := by
  cases s with
  | array => exact h
  | object | parcelable | anyValue | value | intLike | boolean | uuid | valueArray | list |
    valueList | uuidArray | uuidList | untypedList | untypedMap | sparseBooleanArray => rfl

/-- What a direction asks of a scheme. -/
def serves (s : Scheme) : Direction → Bool
  | .into | .result => s.goes
  | .out | .inout => s.returns

/-- Only what comes back is updated, or needs a place. -/
theorem comesBack_of_operation {site : Site} {direction : Direction} {phase : Phase}
    {operation : Operation} (h : Operation.of? site direction phase = some operation)
    (hOperation : operation ≠ .create ∧ operation ≠ .write) :
    direction = .out ∨ direction = .inout := by
  cases direction with
  | out => exact .inl rfl
  | inout => exact .inr rfl
  | into | result => cases site <;> cases phase <;> cases h <;> simp at hOperation

theorem cell_ne_refused {direction : Direction} (hRegular : s.Regular)
    (h : s.serves direction = true) (site : Site) (phase : Phase) :
    s.cell d direction site phase ≠ .refused := by
  have hGoes : s.goes = true := by
    cases direction with
    | into | result => exact h
    | out | inout => exact goes_of_returns h
  have hReturns : direction = .out ∨ direction = .inout → s.returns = true := by
    rintro (rfl | rfl) <;> exact h
  rw [cell]
  cases hOperation : Operation.of? site direction phase with
  | none => simp
  | some operation =>
      cases operation with
      | create => simp [perform, create_eq_refused_iff, hGoes]
      | write => simp [perform, write_eq_refused_iff, hGoes]
      | update =>
          have hBack := hReturns (comesBack_of_operation hOperation (by simp))
          simp [perform, update_eq_refused_iff hRegular, hBack]
      | createBuffer =>
          exact createBuffer_ne_refused (hReturns (comesBack_of_operation hOperation (by simp)))
      | writeBufferInfo =>
          exact writeBufferInfo_ne_refused (hReturns (comesBack_of_operation hOperation (by simp)))

/-- A cell that is refused if any is. -/
def hardest : Direction → Site × Phase
  | .into => (.proxy, .pre)
  | .out | .inout => (.proxy, .post)
  | .result => (.dispatcher, .post)

theorem cell_hardest {direction : Direction} (hRegular : s.Regular)
    (h : s.serves direction = false) :
    s.cell d direction (hardest direction).1 (hardest direction).2 = .refused := by
  cases direction with
  | into | result => exact write_eq_refused_iff.mpr h
  | out | inout => exact (update_eq_refused_iff hRegular).mpr h

theorem element?_of_isArray {t : TypeName} (h : t.isArray = true) :
    t.element? = some (elementOf t) := by
  rw [elementOf, TypeName.element?, if_pos h, Option.getD_some]

end Scheme

namespace Category

variable {t : TypeName} {category : Category}

theorem resolve?_of (t : TypeName) : registry.resolve? t = some (of t) := by
  obtain ⟨category, h⟩ := Option.isSome_iff_exists.mp (isSome_resolve? t)
  rw [of, h, Option.getD_some]

/-- The pattern of a category. -/
def pattern (category : Category) : TypePattern :=
  ((registry.rules.find? fun rule => rule.value == category).map Rule.pattern).getD .any

theorem accepts_of (t : TypeName) : (of t).pattern.accepts t = true := by
  obtain ⟨rule, hMem, hAccepts, hValue⟩ := Registry.exists_rule_of_resolve? (resolve?_of t)
  have hPattern : ∀ rule ∈ registry.rules, rule.value.pattern = rule.pattern := by decide +kernel
  rwa [← hValue, hPattern rule hMem]

theorem nodup_values : (registry.rules.map Rule.value).Nodup := by decide

/-- An array is no type that is left to the rule for any type. -/
theorem isArray_of_object (h : of t = .object) : t.isArray = false := by
  have hOrder : [⟨.any, .object⟩, ⟨.array .any, .array⟩].Sublist registry.rules := by
    decide +kernel
  have hLater := Registry.accepts_eq_false_of_later nodup_values hOrder (h ▸ resolve?_of t)
  rw [Bool.eq_false_iff]
  intro hArray
  simp [TypePattern.accepts, TypeName.element?, hArray] at hLater

/-- The categories of arrays. -/
def isArray : Category → Bool
  | array | valueArray | uuidArray => true
  | _ => false

theorem shape_pattern (h : category ≠ .object) :
    ∃ shape, category.pattern.shape? = some shape ∧ (shape = .array ↔ category.isArray = true) := by
  cases category with
  | object => exact absurd rfl h
  | parcelable | anyValue | value | intLike | boolean | uuid | untypedCollection |
    sparseBooleanArray => exact ⟨.bare, rfl, by decide⟩
  | array | valueArray | uuidArray => exact ⟨.array, rfl, by decide⟩
  | list | valueList | uuidList => exact ⟨.filled, rfl, by decide⟩

theorem isArray_eq (t : TypeName) : t.isArray = (of t).isArray := by
  by_cases hObject : of t = .object
  · rw [isArray_of_object hObject, hObject]
    rfl
  · obtain ⟨shape, hShape, hArray⟩ := shape_pattern hObject
    rw [Bool.eq_iff_iff, ← hArray, ← TypePattern.shape_of_accepts (accepts_of t) hShape,
      TypeName.shape_eq_array_iff]

theorem elementOf_of {names : List String} (h : (of t).pattern = .array (.named names)) :
    ∃ name ∈ names, Scheme.elementOf t = .plain name := by
  have hAccepts := accepts_of t
  rw [h, TypePattern.accepts_array_iff] at hAccepts
  obtain ⟨e, hElement, hNamed⟩ := hAccepts
  rw [Scheme.elementOf, hElement, Option.getD_some]
  exact TypePattern.accepts_named_iff.mp hNamed

/-- The elements of an array of identifiers are neither arrays nor primitives. -/
theorem elementTravels_of_uuidArray (h : of t = .uuidArray) :
    Scheme.elementTravels (Scheme.elementOf t) = true := by
  obtain ⟨name, hName, hElement⟩ := elementOf_of (t := t) (by rw [h]; rfl)
  have hTravels : ∀ name ∈ uuidNames, Scheme.elementTravels (.plain name) = true := by decide
  rw [hElement, hTravels name hName]

/-- Elements with parcel methods of their own do not fall to the rule for any array. -/
theorem element_of_array (h : of t = .array) {name : String} (hName : name ∈ valueElementNames) :
    t.element? ≠ some (.plain name) := by
  have hOrder : [⟨.array .any, .array⟩, ⟨.array (.named valueElementNames), .valueArray⟩].Sublist
      registry.rules := by decide +kernel
  have hLater := Registry.accepts_eq_false_of_later nodup_values hOrder (h ▸ resolve?_of t)
  intro hElement
  rw [TypePattern.accepts_array_iff.mpr ⟨_, hElement, TypePattern.accepts_named_iff.mpr
    ⟨name, hName, rfl⟩⟩] at hLater
  cases hLater

end Category

/-- The primitive types whose arrays have parcel methods of their own. -/
def arrayPrimitives : List String := ["boolean", "byte", "char", "double", "float", "int", "long"]

/-- Which types travel in a direction, by the rules for them and by their nature. -/
inductive Context.Supports (c : Context) (t : TypeName) (direction : Direction) : Prop
  /-- An array of one level, in all directions. -/
  | array {e : TypeName} (hElement : t.element? = some e) (hLevel : e.isArray = false)
      (hTravels : (∃ name ∈ arrayPrimitives, e = .plain name) ∨ e.isPrimitive = false) :
      c.Supports t direction
  /-- A list, a collection of unknown content or a sparse array, in all directions. -/
  | collection {category : Category}
      (hCategory : category ∈ [.list, .valueList, .uuidList, .untypedCollection,
        .sparseBooleanArray])
      (hResolve : Category.registry.resolve? t = some category) : c.Supports t direction
  /-- A Parcelable class that no special rule is for, in all directions. -/
  | parcelable (hResolve : Category.registry.resolve? t = some .object)
      (hNature : c.nature (className t) = .parcelable) : c.Supports t direction
  /-- Whatever else is no array, if it does not come back. -/
  | oneWay (hArray : t.isArray = false) (hDirection : direction = .into ∨ direction = .result) :
      c.Supports t direction

namespace Context

variable {c : Context} {t : TypeName} {direction : Direction}

theorem supports_iff_of_array (hArray : t.isArray = true) : c.Supports t direction ↔
    (Scheme.elementOf t).isArray = false ∧
      ((∃ name ∈ arrayPrimitives, Scheme.elementOf t = .plain name) ∨
        (Scheme.elementOf t).isPrimitive = false) := by
  have hElement := Scheme.element?_of_isArray hArray
  have hCategory : (Category.of t).isArray = true := Category.isArray_eq t ▸ hArray
  constructor
  · intro h
    cases h with
    | array hElement' hLevel hTravels =>
        obtain rfl := Option.some.inj (hElement.symm.trans hElement')
        exact ⟨hLevel, hTravels⟩
    | @collection category hMem hResolve =>
        have hKind : ∀ k ∈ [Category.list, .valueList, .uuidList, .untypedCollection,
            .sparseBooleanArray], k.isArray = false := by decide
        obtain rfl := Option.some.inj ((Category.resolve?_of t).symm.trans hResolve)
        rw [hKind _ hMem] at hCategory
        cases hCategory
    | parcelable hResolve =>
        rw [Option.some.inj ((Category.resolve?_of t).symm.trans hResolve)] at hCategory
        cases hCategory
    | oneWay hNone =>
        rw [hNone] at hArray
        cases hArray
  · rintro ⟨hLevel, hTravels⟩
    exact .array hElement hLevel hTravels

theorem supports_iff_of_not_array (hArray : t.isArray = false) : c.Supports t direction ↔
    Category.of t ∈ [.list, .valueList, .uuidList, .untypedCollection, .sparseBooleanArray] ∨
    Category.of t = .object ∧ c.nature (className t) = .parcelable ∨
    direction = .into ∨ direction = .result := by
  constructor
  · intro h
    cases h with
    | array hElement => simp [TypeName.element?, hArray] at hElement
    | collection hMem hResolve =>
        exact .inl (Option.some.inj ((Category.resolve?_of t).symm.trans hResolve) ▸ hMem)
    | parcelable hResolve hNature =>
        exact .inr (.inl ⟨Option.some.inj ((Category.resolve?_of t).symm.trans hResolve), hNature⟩)
    | oneWay _ hDirection => exact .inr (.inr hDirection)
  · rintro (hMem | ⟨hObject, hNature⟩ | hDirection)
    · exact .collection hMem (Category.resolve?_of t)
    · exact .parcelable (hObject ▸ Category.resolve?_of t) hNature
    · exact .oneWay hArray hDirection

/-- The scheme of a type serves a direction exactly if the type is supported in it. -/
theorem serves_iff_supports : (Scheme.of (Category.of t) t c.nature).serves direction = true ↔
    c.Supports t direction := by
  have hArray := Category.isArray_eq t
  cases hCategory : Category.of t with
  | array =>
      rw [hCategory] at hArray
      -- Primitives with parcel methods for arrays are not left to this rule.
      have hOther : ¬∃ name ∈ arrayPrimitives, Scheme.elementOf t = .plain name := by
        rintro ⟨name, hName, hElement⟩
        have hSubset : ∀ name ∈ arrayPrimitives, name ∈ Category.valueElementNames := by decide
        refine Category.element_of_array hCategory (hSubset name hName) ?_
        rw [← hElement, Scheme.element?_of_isArray hArray]
      rw [supports_iff_of_array hArray, or_iff_right hOther]
      cases direction <;>
        simp [Scheme.of, Scheme.serves, Scheme.goes, Scheme.returns, Scheme.elementTravels]
  | valueArray =>
      rw [hCategory] at hArray
      obtain ⟨name, hName, hElement⟩ := Category.elementOf_of (by rw [hCategory]; rfl)
      have hTravels : ∀ name ∈ Category.valueElementNames, (TypeName.plain name).isArray = false ∧
          ((∃ other ∈ arrayPrimitives, TypeName.plain name = .plain other) ∨
            (TypeName.plain name).isPrimitive = false) := by decide
      rw [supports_iff_of_array hArray, hElement]
      exact iff_of_true (by cases direction <;> rfl) (hTravels name hName)
  | uuidArray =>
      rw [hCategory] at hArray
      have hTravels := Category.elementTravels_of_uuidArray hCategory
      rw [supports_iff_of_array hArray]
      have hServes : (Scheme.of .uuidArray t c.nature).serves direction = true := by
        cases direction with
        | into | result => rfl
        | out | inout => exact hTravels
      refine iff_of_true hServes ?_
      rw [Scheme.elementTravels, Bool.and_eq_true, Bool.not_eq_true', Bool.not_eq_true'] at hTravels
      exact ⟨hTravels.1, .inr hTravels.2⟩
  | object =>
      rw [hCategory] at hArray
      rw [supports_iff_of_not_array hArray, hCategory]
      cases direction <;> simp [Scheme.of, Scheme.serves, Scheme.goes, Scheme.returns]
  | untypedCollection =>
      rw [hCategory] at hArray
      rw [supports_iff_of_not_array hArray, hCategory]
      simp only [Scheme.of]
      cases direction <;> split <;> simp [Scheme.serves, Scheme.goes, Scheme.returns]
  | parcelable | anyValue | value | intLike | boolean | list | valueList | uuid | uuidList |
    sparseBooleanArray =>
      rw [hCategory] at hArray
      rw [supports_iff_of_not_array hArray, hCategory]
      cases direction <;> simp [Scheme.of, Scheme.serves, Scheme.goes, Scheme.returns]

end Context

theorem Scheme.regular_of (t : TypeName) (nature : String → Nature) :
    (Scheme.of (Category.of t) t nature).Regular := by
  cases hCategory : Category.of t with
  | uuidArray => exact Category.elementTravels_of_uuidArray hCategory
  | untypedCollection =>
      rw [Scheme.of]
      split <;> trivial
  | object | parcelable | anyValue | value | intLike | boolean | array | valueArray | list |
    valueList | uuid | uuidList | sparseBooleanArray => trivial

/-- A complaint has a place unless its position is negative. -/
theorem EncodeFault.at_of_nonneg (complaint : Complaint) (message : String)
    (source : Option Source) {position : Option Int} (h : ∀ p, position = some p → 0 ≤ p) :
    ∃ d, EncodeFault.at complaint message source position = .located d ∧
      d.complaint = complaint ∧ d.message = message := by
  obtain ⟨d, hd, hComplaint, hMessage⟩ : ∃ d,
      Diagnostic.at? complaint message source position = some d ∧ d.complaint = complaint ∧
        d.message = message := by
    cases source with
    | none => exact ⟨_, rfl, rfl, rfl⟩
    | some s =>
        cases position with
        | none => exact ⟨_, rfl, rfl, rfl⟩
        | some p =>
            rw [Diagnostic.at?]
            split
            · exact ⟨_, rfl, rfl, rfl⟩
            · rename_i hTokens
              obtain ⟨n, rfl⟩ := Int.eq_ofNat_of_zero_le (h p rfl)
              obtain ⟨token, hToken⟩ := Option.isSome_iff_exists.mp
                (s.isSome_tokenAt? (by simpa using hTokens) n)
              rw [hToken]
              exact ⟨_, rfl, rfl, rfl⟩
  exact ⟨d, by rw [EncodeFault.at, hd], hComplaint, hMessage⟩

/-- Nothing has bound the argument in a slot, or the writer has. -/
def Desk.Admits (d : Desk) (w : Writer) (slot : Slot) (a : Argument) : Prop :=
  ∀ b, d.binding? slot = some b → Binding.make w.number w.context a = .ok b

/-- The argument with another direction. -/
def Argument.going (a : Argument) (direction : Direction) : Argument := { a with direction }

namespace Writer

variable {w : Writer} {slot : Slot} {a : Argument} {b : Binding} {site : Site} {phase : Phase}
  {x : String} {d : Desk}

/-- Whatever else is on the desk, an argument of the writer's own has the code of its
binding. -/
theorem answer_encode_of_admits (hClear : w.context.Clear a.type) (hAdmits : d.Admits w slot a)
    (hMake : Binding.make w.number w.context a = .ok b) :
    (w.encode slot a site phase x).answer d =
      (b.code site phase x (d.counts b.owner)).map Prod.fst := by
  have hObstacle := Binding.obstacle?_of_make hClear hMake
  obtain ⟨e, hCounts, hEncode⟩ : ∃ e : Desk, e.counts = d.counts ∧
      w.encode slot a site phase x d = b.finish site phase x e := by
    cases hSlot : d.binding? slot with
    | some b' =>
        obtain rfl := Except.ok.inj (hMake.symm.trans (hAdmits b' hSlot))
        obtain ⟨e, -, hCounts, hEncode⟩ := encode_of_bound w a site phase x hSlot hObstacle
        exact ⟨e, hCounts, hEncode⟩
    | none =>
        obtain ⟨e, -, hCounts, hEncode⟩ :=
          encode_of_bind site phase x (bind_of_make hSlot hMake hObstacle) hObstacle
        exact ⟨e, hCounts, hEncode⟩
  rw [← hCounts]
  cases hCode : b.code site phase x (e.counts b.owner) with
  | ok answer => exact Encoding.answer_of_ok (hEncode.trans (Binding.finish_of_ok hCode))
  | error fault => exact Encoding.answer_of_error (hEncode.trans (Binding.finish_of_error hCode))

/-- An argument has code in each of its cells. -/
def Accepts (w : Writer) (slot : Slot) (a : Argument) (d : Desk) : Prop :=
  ∀ site phase x, ∃ f, (w.encode slot a site phase x).answer d = .ok f

/-- A request fails exactly if its cell is refused, and then with the complaint about it. -/
theorem answer_eq_error_iff {fault : EncodeFault} (hClear : w.context.Clear a.type)
    (hAdmits : d.Admits w slot a) (hMake : Binding.make w.number w.context a = .ok b) :
    (w.encode slot a site phase x).answer d = .error fault ↔
      b.scheme.cell b.declared b.argument.direction site phase = .refused ∧ fault = b.refusal := by
  rw [answer_encode_of_admits hClear hAdmits hMake, ← Binding.code_eq_error_iff]
  cases b.code site phase x (d.counts b.owner) <;> simp [Except.map]

theorem exists_answer_iff (hClear : w.context.Clear a.type) (hAdmits : d.Admits w slot a)
    (hMake : Binding.make w.number w.context a = .ok b) :
    (∃ f, (w.encode slot a site phase x).answer d = .ok f) ↔
      b.scheme.cell b.declared b.argument.direction site phase ≠ .refused := by
  have hError := @answer_eq_error_iff w slot a b site phase x d b.refusal hClear hAdmits hMake
  cases hAnswer : (w.encode slot a site phase x).answer d with
  | ok f => simpa [hAnswer] using hError
  | error fault =>
      simp [((answer_eq_error_iff hClear hAdmits hMake).mp hAnswer).1]

/-- Whatever else is on the desk, an argument has code in all cells exactly if its type is
supported in its direction. -/
theorem accepts_iff (hClear : w.context.Clear a.type) (hAdmits : d.Admits w slot a) {t : TypeName}
    (hType : TypeName.parse (w.context.meaning a.type) = .ok t) :
    w.Accepts slot a d ↔ w.context.Supports t a.direction := by
  have hMake : Binding.make w.number w.context a = .ok ⟨w.number, w.context, a, t⟩ :=
    Binding.make_eq_ok_iff.mpr ⟨t, hType, rfl⟩
  have hRegular := Scheme.regular_of t w.context.nature
  rw [← Context.serves_iff_supports]
  constructor
  · intro hAll
    rw [← Bool.not_eq_false]
    intro hServes
    have hCell := (exists_answer_iff hClear hAdmits hMake).mp
      (hAll (Scheme.hardest a.direction).1 (Scheme.hardest a.direction).2 "")
    exact hCell (Scheme.cell_hardest hRegular hServes)
  · intro hServes site phase x
    rw [exists_answer_iff hClear hAdmits hMake]
    exact Scheme.cell_ne_refused hRegular hServes site phase

end Writer

/-- An argument has code in all cells exactly if its type is supported in its direction, and
otherwise a cell fails whatever the variable is. The only failure is the complaint that
arguments of the type do not travel in that direction. So what comes back may come with a
value or without, and what goes may be an argument or a result. -/
theorem accepts_iff_supports (w : Writer) (a : Argument) (hClear : w.context.Clear a.type)
    (hPlaced : ∀ p, a.position = some p → 0 ≤ p) (t : TypeName)
    (hType : TypeName.parse (w.context.meaning a.type) = .ok t) :
    (∀ direction slot d, d.Admits w slot (a.going direction) →
      (w.Accepts slot (a.going direction) d ↔ w.context.Supports t direction) ∧
      (¬w.context.Supports t direction → ∃ site phase, ∀ x, ∃ fault,
        (w.encode slot (a.going direction) site phase x).answer d = .error fault) ∧
      ∀ site phase x fault,
        (w.encode slot (a.going direction) site phase x).answer d = .error fault →
        ∃ diagnostic, fault = .located diagnostic ∧ diagnostic.complaint = .unsupported ∧
          diagnostic.message = "Cannot marshall '" ++ direction.word ++ " " ++ a.type ++ "'.") ∧
    ∀ slot d e,
      (d.Admits w slot (a.going .out) → e.Admits w slot (a.going .inout) →
        (w.Accepts slot (a.going .out) d ↔ w.Accepts slot (a.going .inout) e)) ∧
      (d.Admits w slot (a.going .into) → e.Admits w slot (a.going .result) →
        (w.Accepts slot (a.going .into) d ↔ w.Accepts slot (a.going .result) e)) := by
  have hMake : ∀ direction, Binding.make w.number w.context (a.going direction) =
      .ok ⟨w.number, w.context, a.going direction, t⟩ := fun direction =>
    Binding.make_eq_ok_iff.mpr ⟨t, hType, rfl⟩
  have hRegular := Scheme.regular_of t w.context.nature
  have hGoing : ∀ direction, w.context.Clear (a.going direction).type := fun _ => hClear
  have hAccepts : ∀ direction slot d, d.Admits w slot (a.going direction) →
      (w.Accepts slot (a.going direction) d ↔ w.context.Supports t direction) :=
    fun direction slot d hAdmits => Writer.accepts_iff (hGoing direction) hAdmits hType
  refine ⟨fun direction slot d hAdmits => ⟨hAccepts direction slot d hAdmits, ?_, ?_⟩, ?_⟩
  · intro hNot
    rw [← Context.serves_iff_supports, Bool.not_eq_true] at hNot
    refine ⟨(Scheme.hardest direction).1, (Scheme.hardest direction).2, fun x => ⟨_,
      (Writer.answer_eq_error_iff (hGoing direction) hAdmits (hMake direction)).mpr ⟨?_, rfl⟩⟩⟩
    exact Scheme.cell_hardest hRegular hNot
  · intro site phase x fault hFault
    rw [((Writer.answer_eq_error_iff (hGoing direction) hAdmits (hMake direction)).mp hFault).2]
    exact EncodeFault.at_of_nonneg _ _ _ hPlaced
  · intro slot d e
    refine ⟨fun hOut hInout => ?_, fun hInto hResult => ?_⟩
    · rw [hAccepts _ _ _ hOut, hAccepts _ _ _ hInout, ← Context.serves_iff_supports,
        ← Context.serves_iff_supports]
      rfl
    · rw [hAccepts _ _ _ hInto, hAccepts _ _ _ hResult, ← Context.serves_iff_supports,
        ← Context.serves_iff_supports]
      rfl

/-- An array of small numbers, for which there are no parcel methods. -/
private def levels : Argument := ⟨.result, "short[]", "_result", some 3⟩

theorem accepts_iff_supports_levels :
    TypeName.parse "short[]" = .ok (.mk "short" [] 1 none) ∧
    ¬Context.Supports {} (.mk "short" [] 1 none) .result ∧
    ¬Writer.Accepts ⟨0, {}⟩ ⟨0, none⟩ (levels.going .result) {} ∧
    ∃ site phase, ∃ fault,
      (Writer.encode ⟨0, {}⟩ ⟨0, none⟩ (levels.going .result) site phase "_result").answer {} =
        .error fault := by
  have hType : TypeName.parse "short[]" = .ok (.mk "short" [] 1 none) := by decide +kernel
  have hNot : ¬Context.Supports {} (.mk "short" [] 1 none) .result := by
    rw [Context.supports_iff_of_array rfl]
    decide
  have hClear := Context.clear_of_obstacle? (c := {}) fun _ _ => rfl
  obtain ⟨hIff, hRefused, -⟩ := (accepts_iff_supports ⟨0, {}⟩ levels (hClear _)
    (by simp [levels]) _ hType).1 .result ⟨0, none⟩ {} (by simp [Desk.Admits, Desk.binding?])
  obtain ⟨site, phase, hFault⟩ := hRefused hNot
  exact ⟨hType, hNot, mt hIff.mp hNot, site, phase, hFault "_result"⟩

end BinderIdl
