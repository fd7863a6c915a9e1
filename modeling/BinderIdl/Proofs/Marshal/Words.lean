import BinderIdl.Marshal.Scheme
import BinderIdl.Proofs.TypeName.Characters

/-! Where the words of a scheme come from. They are names of the type, parts of such names
and printed types, at most with letters in another case. So a property of characters that
letters and the signs of types have passes from the names of a type to the words of its
scheme. -/
namespace BinderIdl

open Text

/-- Letters, and the signs that stand in types and in names. -/
def isUsual (c : Char) : Bool := c.isAlpha || "?<>[], ._".toList.contains c

theorem isAlpha_iff {c : Char} : c.isAlpha = true ↔
    65 ≤ c.toNat ∧ c.toNat ≤ 90 ∨ 97 ≤ c.toNat ∧ c.toNat ≤ 122 := by
  have hAlpha : c.isAlpha = (decide (65 ≤ c.val ∧ c.val ≤ 90) ||
      (decide (97 ≤ c.val) && decide (c.val ≤ 122))) := rfl
  rw [hAlpha]
  simp only [Bool.or_eq_true, Bool.and_eq_true, decide_eq_true_eq, UInt32.le_iff_toNat_le]
  rfl

theorem toUpper_eq_or (c : Char) : c.toUpper = c ∨ c.toUpper.isAlpha = true := by
  unfold Char.toUpper
  split
  · rename_i hLower
    have hFirst : 97 ≤ c.val.toNat := UInt32.le_iff_toNat_le.mp hLower.1
    have hLast : c.val.toNat ≤ 122 := UInt32.le_iff_toNat_le.mp hLower.2
    have hVal : (c.val + ('A'.val - 'a'.val)).toNat = c.val.toNat - 32 := by
      rw [UInt32.toNat_add, show ('A'.val - 'a'.val).toNat = 4294967264 from rfl]
      omega
    refine .inr (isAlpha_iff.mpr (.inl ?_))
    show 65 ≤ (c.val + ('A'.val - 'a'.val)).toNat ∧ (c.val + ('A'.val - 'a'.val)).toNat ≤ 90
    omega
  · exact .inl rfl

theorem toLower_eq_or (c : Char) : c.toLower = c ∨ c.toLower.isAlpha = true := by
  unfold Char.toLower
  split
  · rename_i hUpper
    have hFirst : 65 ≤ c.val.toNat := UInt32.le_iff_toNat_le.mp hUpper.1
    have hLast : c.val.toNat ≤ 90 := UInt32.le_iff_toNat_le.mp hUpper.2
    have hVal : (c.val + ('a'.val - 'A'.val)).toNat = c.val.toNat + 32 := by
      rw [UInt32.toNat_add, show ('a'.val - 'A'.val).toNat = 32 from rfl]
      omega
    refine .inr (isAlpha_iff.mpr (.inr ?_))
    show 97 ≤ (c.val + ('a'.val - 'A'.val)).toNat ∧ (c.val + ('a'.val - 'A'.val)).toNat ≤ 122
    omega
  · exact .inl rfl

theorem TypeName.simpleName_subset (t : TypeName) : t.simpleName.toList ⊆ t.base.toList := by
  intro c hc
  rw [simpleName, String.toList_ofList, List.mem_reverse] at hc
  exact List.mem_reverse.mp ((List.takeWhile_sublist _).subset hc)

theorem withoutArguments_subset (type : String) :
    (withoutArguments type).toList ⊆ type.toList := by
  rw [withoutArguments, String.toList_ofList]
  exact List.Subset.trans (strip_subset _) (List.takeWhile_sublist _).subset

namespace Scheme

/-- All words that a scheme carries have a property. -/
def Every (P : String → Prop) : Scheme → Prop
  | object t _ | array t _ | list t _ | uuidArray t | uuidList t => t.Every P
  | value kind => P kind
  | valueArray t kind | valueList t kind => t.Every P ∧ P kind
  | parcelable | anyValue | intLike | boolean | uuid | untypedList | untypedMap
  | sparseBooleanArray => True

theorem every_elementOf {P : String → Prop} {t : TypeName} (h : t.Every P) :
    (elementOf t).Every P := by
  rw [elementOf]
  cases hElement : t.element? with
  | none => exact h
  | some u => exact h.element hElement

end Scheme

section Words

variable {P : Char → Prop} (hUsual : ∀ c, isUsual c = true → P c) {t : TypeName}

include hUsual

/-- A fixed word has the property if all its characters are usual. -/
theorem over_literal {cs : List Char} (h : cs.all isUsual = true) : Over P (String.ofList cs) :=
  over_ofList.mpr fun c hc => hUsual c (List.all_eq_true.mp h c hc)

theorem over_print (h : t.Every (Over P)) : Over P t.print :=
  over_ofList.mpr (h.forall_chars fun c hc => hUsual c (List.all_eq_true.mp rfl c hc))

theorem over_className (h : t.Every (Over P)) : Over P (className t) :=
  fun c hc => over_print hUsual h c (withoutArguments_subset t.print hc)

theorem over_creatorOf {name : String} (h : Over P name) : Over P (creatorOf name) := by
  rw [creatorOf]
  by_cases hName : name = "java.lang.CharSequence" ∨ name = "CharSequence"
  · rw [if_pos hName]
    exact over_literal hUsual rfl
  · rw [if_neg hName]
    exact over_append.mpr ⟨h, over_literal hUsual rfl⟩

theorem over_capitalized {name : String} (h : Over P name) : Over P (capitalized name) := by
  have hLetter : ∀ {c d : Char}, P c → d = c ∨ d.isAlpha = true → P d := by
    rintro c d hc (rfl | hAlpha)
    · exact hc
    · exact hUsual d (by rw [isUsual, hAlpha, Bool.true_or])
  rw [capitalized]
  split
  · exact over_literal hUsual rfl
  · rename_i c cs hName
    rw [Over, hName, List.forall_mem_cons] at h
    rw [over_ofList, List.forall_mem_cons]
    refine ⟨hLetter h.1 (toUpper_eq_or c), fun c' hc' => ?_⟩
    obtain ⟨d, hd, rfl⟩ := List.mem_map.mp hc'
    exact hLetter (h.2 d hd) (toLower_eq_or d)

namespace Scheme

theorem every_contentOf (h : t.Every (Over P)) : (contentOf t).Every (Over P) := by
  have hObject : Over P TypeName.object := over_literal hUsual rfl
  rw [contentOf]
  cases hContent : t.content? with
  | none => exact .mk hObject (by simp)
  | some u => exact h.content hObject hContent

/-- The words of a scheme have the characters of the type's names. -/
theorem every_of (h : t.Every (Over P)) (category : Category) (nature : String → Nature) :
    (of category t nature).Every (Over P) := by
  have hElement := every_elementOf h
  have hContent := every_contentOf hUsual h
  have hSimple : ∀ {u : TypeName}, u.Every (Over P) → Over P u.simpleName :=
    fun hu c hc => hu.base c (TypeName.simpleName_subset _ hc)
  have hKind : ∀ {u : TypeName} {word name : String}, Over P word → Over P name →
      Over P (if u.simpleName = "IBinder" then word else name) := by
    intro u word name hWord hName
    split
    · exact hWord
    · exact hName
  cases category with
  | object => exact h
  | array | uuidArray => exact hElement
  | list | uuidList => exact hContent
  | value => exact hKind (over_literal hUsual rfl) (over_capitalized hUsual (hSimple h))
  | valueArray =>
      exact ⟨hElement, hKind (over_literal hUsual rfl)
        (over_capitalized hUsual (hSimple hElement))⟩
  | valueList => exact ⟨hContent, hKind (over_literal hUsual rfl) (hSimple hContent)⟩
  | untypedCollection =>
      rw [of]
      split <;> trivial
  | parcelable | anyValue | intLike | boolean | uuid | sparseBooleanArray => trivial

end Scheme

end Words

end BinderIdl
