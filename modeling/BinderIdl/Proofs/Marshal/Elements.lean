import BinderIdl.Proofs.Marshal.Support
import BinderIdl.Proofs.TypeName.RoundTrip

/-! Lists and arrays of the same elements. A list of anything travels in all directions, for
nothing is asked of what it holds. An array is refused if its elements are arrays or are
primitives without parcel methods, so the two differ for exactly these elements, and for the
bare wildcard, which is a type of its own with brackets behind it. Where the sources of the
project decide about the types, they are taken to be readable. -/
namespace BinderIdl

namespace TypeName

variable {e : TypeName}

theorem WellFormed.parse_print (h : e.WellFormed) : parse e.print = .ok e := by
  rw [parse, print, String.toList_ofList]
  exact h.reads _ _ (.refl false _) rfl

/-- The name of a list around the text of a type is the text of lists of the type. -/
theorem parse_list (h : e.WellFormed) {name : String} (hName : name ∈ Category.listNames) :
    parse (name ++ "<" ++ e.print ++ ">") = .ok (mk name [e] 0 none) := by
  have hNames : ∀ name ∈ Category.listNames, IsName name.toList := by decide +kernel
  have hList : (mk name [e] 0 none).WellFormed :=
    .named (hNames name hName) (List.forall_mem_singleton.mpr h) (by decide)
  have hPrint : (mk name [e] 0 none).print = name ++ "<" ++ e.print ++ ">" := by
    rw [print, chars_none, ← String.toList_inj]
    simp [argumentChars, furtherChars, suffixes, print]
  rw [← hPrint, hList.parse_print]

/-- Brackets behind the text of a type are one level more, unless the type is open. -/
theorem parse_array (h : e.WellFormed) (hOpen : e.wildcard ≠ some .any) :
    parse (e.print ++ "[]") = .ok (mk e.base e.arguments (e.depth + 1) e.wildcard) := by
  cases h with
  | any => exact absurd rfl hOpen
  | @named base arguments depth wildcard hBase hArguments hBound =>
      have hArray : (mk base arguments (depth + 1) wildcard).WellFormed :=
        .named hBase hArguments hBound
      have hPrint : (mk base arguments (depth + 1) wildcard).print =
          (mk base arguments depth wildcard).print ++ "[]" := by
        rw [← String.toList_inj]
        cases wildcard with
        | none => simp [print, chars_none, suffixes_succ]
        | some w => simp [print, chars_some _ _ _ fun hAny => hBound (congrArg some hAny),
            suffixes_succ]
      rw [← hPrint, hArray.parse_print]
      rfl

theorem parse_open_array (h : e.WellFormed) (hOpen : e.wildcard = some .any) :
    parse (e.print ++ "[]") = .ok e := by
  cases h with
  | any => decide +kernel
  | named _ _ hBound => exact absurd hOpen hBound

end TypeName

/-- A list of anything is in one of the categories of lists. -/
theorem Category.of_list {name : String} (hName : name ∈ listNames) (e : TypeName) :
    of (.mk name [e] 0 none) ∈ [.list, .valueList, .uuidList] := by
  have hContent : (TypeName.mk name [e] 0 none).content?.isSome = true := by
    obtain ⟨base, arguments, depth, _ | _ | _ | _⟩ := e <;> rfl
  have hList : (TypePattern.generic listNames).accepts (.mk name [e] 0 none) = true := by
    rw [TypePattern.accepts, hContent, Bool.and_true]
    exact List.contains_iff_mem.mpr hName
  have hShape := TypePattern.shape_of_accepts hList rfl
  have hAccepts := accepts_of (.mk name [e] 0 none)
  cases hCategory : of (.mk name [e] 0 none) with
  | list | valueList | uuidList => decide
  | object =>
      have hOrder : [⟨.any, .object⟩, ⟨.generic listNames, .list⟩].Sublist registry.rules := by
        decide +kernel
      have hLater := Registry.accepts_eq_false_of_later nodup_values hOrder
        (hCategory ▸ resolve?_of (.mk name [e] 0 none))
      exact absurd hList (by rw [hLater]; decide)
  | parcelable | anyValue | value | intLike | boolean | uuid | untypedCollection |
    sparseBooleanArray | array | valueArray | uuidArray =>
      rw [hCategory] at hAccepts
      rw [TypePattern.shape_of_accepts hAccepts rfl] at hShape
      cases hShape

namespace Context

/-- The elements that a list takes and an array does not. -/
inductive OnlyListed (c : Context) (e : TypeName) (direction : Direction) : Prop
  | array (hArray : e.isArray = true) : c.OnlyListed e direction
  | primitive (hPrimitive : e.isPrimitive = true)
      (hOther : ∀ name ∈ arrayPrimitives, e ≠ .plain name) : c.OnlyListed e direction
  | anything (hOpen : e.wildcard = some .any) (hBack : direction = .out ∨ direction = .inout)
      (hNature : c.nature "?" ≠ .parcelable) : c.OnlyListed e direction

variable {c : Context} {e : TypeName} {direction : Direction}

theorem supports_list {name : String} (hName : name ∈ Category.listNames) (e : TypeName)
    (direction : Direction) : c.Supports (.mk name [e] 0 none) direction := by
  have hLists : ∀ category ∈ [Category.list, .valueList, .uuidList],
      category ∈ [Category.list, .valueList, .uuidList, .untypedCollection,
        .sparseBooleanArray] := by decide
  exact .collection (hLists _ (Category.of_list hName e)) (Category.resolve?_of _)

/-- One level around elements that are not open. -/
theorem supports_array_iff (hOpen : e.wildcard ≠ some .any) :
    c.Supports (.mk e.base e.arguments (e.depth + 1) e.wildcard) direction ↔
      ¬c.OnlyListed e direction := by
  have hElement : Scheme.elementOf (.mk e.base e.arguments (e.depth + 1) e.wildcard) = e := by
    cases e
    rfl
  rw [supports_iff_of_array rfl, hElement]
  constructor
  · rintro ⟨hLevel, hTravels⟩ (hArray | ⟨hPrimitive, hOther⟩ | hAny)
    · simp [hLevel] at hArray
    · rcases hTravels with ⟨name, hName, rfl⟩ | hTravels
      · exact hOther name hName rfl
      · simp [hTravels] at hPrimitive
    · exact hOpen hAny
  · intro hBoth
    refine ⟨Bool.eq_false_iff.mpr fun hArray => hBoth (.array hArray), ?_⟩
    by_cases hName : ∃ name ∈ arrayPrimitives, e = .plain name
    · exact .inl hName
    · refine .inr (Bool.eq_false_iff.mpr fun hPrimitive => hBoth (.primitive hPrimitive ?_))
      exact fun name hMem hPlain => hName ⟨name, hMem, hPlain⟩

/-- The bare wildcard is an object of a class with its name. -/
theorem supports_open_iff (h : e.WellFormed) (hOpen : e.wildcard = some .any) :
    c.Supports e direction ↔ ¬c.OnlyListed e direction := by
  cases h with
  | named _ _ hBound => exact absurd hOpen hBound
  | any =>
      have hCategory : Category.of (.mk "?" [] 0 (some .any)) = .object := by decide +kernel
      have hClass : className (.mk "?" [] 0 (some .any)) = "?" := by decide +kernel
      rw [supports_iff_of_not_array rfl, hCategory, hClass]
      constructor
      · rintro hSupports (hArray | ⟨hPrimitive, -⟩ | ⟨-, hBack, hOther⟩)
        · cases hArray
        · revert hPrimitive
          decide
        · rcases hSupports with hMem | ⟨-, hNature⟩ | hWay
          · revert hMem
            decide
          · exact hOther hNature
          · rcases hBack with rfl | rfl <;> simp at hWay
      · intro hBoth
        by_cases hNature : c.nature "?" = .parcelable
        · exact .inr (.inl ⟨rfl, hNature⟩)
        · cases direction with
          | into | result => simp
          | out | inout => exact absurd (.anything rfl (by simp) hNature) hBoth

end Context

/-- A list of elements and an array of them. The list has code in all cells. So has the array,
but for the elements that only a list takes. -/
theorem list_agrees_with_array_iff (w : Writer) {e : TypeName} (hElement : e.WellFormed)
    {name : String} (hName : name ∈ Category.listNames) (list array : Argument)
    (hListClear : w.context.Clear list.type) (hArrayClear : w.context.Clear array.type)
    (hList : TypeName.parse (w.context.meaning list.type) =
      TypeName.parse (name ++ "<" ++ e.print ++ ">"))
    (hArray : TypeName.parse (w.context.meaning array.type) = TypeName.parse (e.print ++ "[]"))
    (direction : Direction) (slot slot' : Slot) (d d' : Desk)
    (hSlot : d.Admits w slot (list.going direction))
    (hSlot' : d'.Admits w slot' (array.going direction)) :
    ((w.Accepts slot (list.going direction) d ↔ w.Accepts slot' (array.going direction) d') ↔
      ¬w.context.OnlyListed e direction) ∧
    w.Accepts slot (list.going direction) d := by
  have hTaken : w.Accepts slot (list.going direction) d :=
    (Writer.accepts_iff (a := list.going direction) hListClear hSlot
      (hList.trans (TypeName.parse_list hElement hName))).mpr
      (Context.supports_list hName e direction)
  refine ⟨?_, hTaken⟩
  rw [iff_true_left hTaken]
  by_cases hOpen : e.wildcard = some .any
  · rw [Writer.accepts_iff (a := array.going direction) hArrayClear hSlot'
      (hArray.trans (TypeName.parse_open_array hElement hOpen))]
    exact Context.supports_open_iff hElement hOpen
  · rw [Writer.accepts_iff (a := array.going direction) hArrayClear hSlot'
      (hArray.trans (TypeName.parse_array hElement hOpen))]
    exact Context.supports_array_iff hOpen

/-- Rows, in a list and in an array. -/
private def row : TypeName := .mk "Row" [] 1 none

private def listedRows : Argument := ⟨.into, "java.util.List<Row[]>", "rows", none⟩

private def arrayedRows : Argument := ⟨.into, "Row[][]", "rows", none⟩

theorem list_agrees_with_array_iff_rows :
    row.WellFormed ∧ Context.OnlyListed {} row .inout ∧
    Writer.Accepts ⟨0, {}⟩ ⟨0, some 0⟩ (listedRows.going .inout) {} ∧
    ¬Writer.Accepts ⟨0, {}⟩ ⟨0, some 1⟩ (arrayedRows.going .inout) {} := by
  have hRow : row.WellFormed := .named (by decide +kernel) (by simp) (by decide)
  have hOnly : Context.OnlyListed {} row .inout := .array rfl
  have hList : TypeName.parse "java.util.List<Row[]>" =
      TypeName.parse ("java.util.List" ++ "<" ++ row.print ++ ">") :=
    congrArg TypeName.parse (by decide +kernel)
  have hArray : TypeName.parse "Row[][]" = TypeName.parse (row.print ++ "[]") :=
    congrArg TypeName.parse (by decide +kernel)
  have hClear := Context.clear_of_obstacle? (c := {}) fun _ _ => rfl
  obtain ⟨hIff, hTaken⟩ := list_agrees_with_array_iff ⟨0, {}⟩ hRow (by decide)
    listedRows arrayedRows (hClear _) (hClear _) hList hArray .inout ⟨0, some 0⟩ ⟨0, some 1⟩ {} {}
    (by simp [Desk.Admits, Desk.binding?]) (by simp [Desk.Admits, Desk.binding?])
  exact ⟨hRow, hOnly, hTaken, fun hOther => hIff.mp (iff_of_true hTaken hOther) hOnly⟩

/-- Small numbers, in a list and in an array. -/
private def listedLevels : Argument := ⟨.into, "List<short>", "levels", none⟩

private def arrayedLevels : Argument := ⟨.into, "short[]", "levels", none⟩

/-- A list takes the primitive that has no parcel methods, and an array does not. -/
theorem list_takes_short :
    Writer.Accepts ⟨0, {}⟩ ⟨0, some 0⟩ listedLevels {} ∧
    ¬Writer.Accepts ⟨0, {}⟩ ⟨0, some 1⟩ arrayedLevels {} := by
  have hFree : ∀ slot a, Desk.Admits {} ⟨0, {}⟩ slot a := by simp [Desk.Admits, Desk.binding?]
  have hList : TypeName.parse "List<short>" = .ok (.mk "List" [.plain "short"] 0 none) := by
    decide +kernel
  have hArray : TypeName.parse "short[]" = .ok (.mk "short" [] 1 none) := by decide +kernel
  have hNot : ¬Context.Supports {} (.mk "short" [] 1 none) .into := by
    rw [Context.supports_iff_of_array rfl]
    decide
  have hClear := Context.clear_of_obstacle? (c := {}) fun _ _ => rfl
  exact ⟨(Writer.accepts_iff (hClear _) (hFree _ listedLevels) hList).mpr
    (Context.supports_list (by decide) _ _),
    mt (Writer.accepts_iff (hClear _) (hFree _ arrayedLevels) hArray).mp hNot⟩

end BinderIdl
