import Mathlib.Data.List.Forall2
import BinderIdl.Proofs.TypeName.Reading

/-! The parts of a text. A text is its parts with separators between them. Which texts can
be parts of one, next to each other, depends on their brackets and separators only, so parts
may be replaced by others that agree in these. -/
namespace BinderIdl

/-- One thing after another is read if each of them is. -/
theorem mapM_eq_ok_iff {α β ε : Type} {f : α → Except ε β} {xs : List α} {ys : List β} :
    xs.mapM f = .ok ys ↔ List.Forall₂ (fun x y => f x = .ok y) xs ys := by
  constructor
  · intro h
    induction xs generalizing ys with
    | nil =>
        rw [List.mapM_nil] at h
        cases h
        exact .nil
    | cons x xs ih =>
        rw [List.mapM_cons] at h
        cases hFirst : f x with
        | error fault =>
            rw [hFirst] at h
            cases h
        | ok y =>
            cases hRest : xs.mapM f with
            | error fault =>
                rw [hFirst, hRest] at h
                cases h
            | ok zs =>
                rw [hFirst, hRest] at h
                cases h
                exact .cons hFirst (ih hRest)
  · intro h
    induction h with
    | nil => rfl
    | cons hFirst _ ih =>
        rw [List.mapM_cons, hFirst, ih]
        rfl

namespace Brackets

variable {separator : Char} {depth depth' : Int} {cs ds part : List Char}
  {parts parts' : List (List Char)}

theorem splitAtDepth_ne_nil (separator : Char) (depth : Int) (cs : List Char) :
    splitAtDepth separator depth cs ≠ [] := by
  cases cs with
  | nil => simp [splitAtDepth]
  | cons c cs =>
      simp only [splitAtDepth]
      split
      · simp
      · split <;> simp

/-- Texts that stand side by side at a depth: no separator in them is outside brackets, and
behind each of them but the last the brackets are even. -/
def SideBySide (separator : Char) : Int → List (List Char) → Prop
  | _, [] => False
  | depth, [part] => (depthAfter? separator depth part).isSome
  | depth, part :: parts =>
      depthAfter? separator depth part = some 0 ∧ SideBySide separator 0 parts

theorem sideBySide_cons (hNil : parts ≠ []) :
    SideBySide separator depth (part :: parts) ↔
      depthAfter? separator depth part = some 0 ∧ SideBySide separator 0 parts := by
  cases parts with
  | nil => exact absurd rfl hNil
  | cons next parts => rfl

/-- One more character in front of the first text. -/
theorem SideBySide.cons_char {c : Char} (hNot : ¬(c = separator ∧ depth + weight c = 0))
    (h : SideBySide separator (depth + weight c) (part :: parts)) :
    SideBySide separator depth ((c :: part) :: parts) := by
  cases parts with
  | nil =>
      rw [SideBySide] at h ⊢
      rwa [depthAfter?, if_neg hNot]
  | cons next parts =>
      rw [sideBySide_cons (by simp)] at h ⊢
      rwa [depthAfter?, if_neg hNot]

section Separator

variable (hWeight : weight separator = 0)

include hWeight

/-- The parts of a text stand side by side. -/
theorem sideBySide_splitAtDepth (depth : Int) (cs : List Char) :
    SideBySide separator depth (splitAtDepth separator depth cs) := by
  induction cs generalizing depth with
  | nil => rfl
  | cons c cs ih =>
      obtain ⟨part, parts, hParts⟩ :=
        List.exists_cons_of_ne_nil (splitAtDepth_ne_nil separator (depth + weight c) cs)
      have hRest := ih (depth + weight c)
      simp only [splitAtDepth]
      split
      · rename_i hCut
        obtain ⟨rfl, hDepth⟩ := hCut
        rw [hDepth] at hRest ⊢
        rw [hWeight, Int.add_zero] at hDepth
        rw [sideBySide_cons (splitAtDepth_ne_nil _ _ _)]
        exact ⟨congrArg some hDepth, hRest⟩
      · rename_i hNot
        rw [hParts] at hRest ⊢
        exact hRest.cons_char hNot

/-- Texts side by side are the parts of the text that they form. -/
theorem SideBySide.splitAtDepth_intercalate (h : SideBySide separator depth parts) :
    splitAtDepth separator depth (List.intercalate [separator] parts) = parts := by
  induction parts generalizing depth with
  | nil => exact absurd h id
  | cons part parts ih =>
      cases parts with
      | nil =>
          obtain ⟨after, hAfter⟩ := Option.isSome_iff_exists.mp h
          have hSplit := splitAtDepth_append hAfter (rfl : splitAtDepth separator after [] = [[]])
          rw [List.append_nil] at hSplit
          rw [List.intercalate_singleton, hSplit]
      | cons next parts =>
          rw [sideBySide_cons (by simp)] at h
          have hCut : ∀ rest, splitAtDepth separator 0 (separator :: rest) =
              [] :: splitAtDepth separator 0 rest := by
            intro rest
            simp [splitAtDepth, hWeight]
          rw [List.intercalate_cons_cons, List.append_assoc, List.singleton_append,
            splitAtDepth_append h.1 (hCut _), ih h.2, List.append_nil]

end Separator

/-- The parts with separators between them are the text. -/
theorem intercalate_splitAtDepth (separator : Char) (depth : Int) (cs : List Char) :
    List.intercalate [separator] (splitAtDepth separator depth cs) = cs := by
  induction cs generalizing depth with
  | nil => rfl
  | cons c cs ih =>
      obtain ⟨part, parts, hParts⟩ :=
        List.exists_cons_of_ne_nil (splitAtDepth_ne_nil separator (depth + weight c) cs)
      have hRest := ih (depth + weight c)
      simp only [splitAtDepth]
      rw [hParts] at hRest ⊢
      split
      · rename_i hCut
        rw [List.intercalate_cons_cons, hRest, hCut.1]
        rfl
      · cases parts with
        | nil => simpa using hRest
        | cons next parts => simpa [List.intercalate_cons_cons] using hRest

/-- Texts that close what they open and have no separator outside brackets stand side by
side. -/
theorem sideBySide_of_forall (hNil : parts ≠ [])
    (h : ∀ part ∈ parts, depthAfter? separator 0 part = some 0) : SideBySide separator 0 parts := by
  induction parts with
  | nil => exact absurd rfl hNil
  | cons part parts ih =>
      rw [List.forall_mem_cons] at h
      cases parts with
      | nil => exact Option.isSome_iff_exists.mpr ⟨0, h.1⟩
      | cons next parts => exact ⟨h.1, ih (by simp) h.2⟩

/-- Whether a character is a bracket or a separator. -/
def isJoint (separator c : Char) : Bool := c == separator || c == '<' || c == '>'

theorem isJoint_eq_false {c : Char} :
    isJoint separator c = false ↔ c ≠ separator ∧ c ≠ '<' ∧ c ≠ '>' := by
  simp [isJoint, and_assoc]

/-- The brackets and separators of a text. -/
def skeleton (separator : Char) (cs : List Char) : List Char := cs.filter (isJoint separator)

@[simp] theorem skeleton_append :
    skeleton separator (cs ++ ds) = skeleton separator cs ++ skeleton separator ds :=
  List.filter_append ..

theorem skeleton_of_forall (h : ∀ c ∈ cs, c ≠ separator ∧ c ≠ '<' ∧ c ≠ '>') :
    skeleton separator cs = [] := by
  rw [skeleton, List.filter_eq_nil_iff]
  intro c hc
  rw [isJoint_eq_false.mpr (h c hc)]
  exact Bool.false_ne_true

/-- Only brackets and separators count for the depth. -/
theorem depthAfter?_skeleton (separator : Char) (depth : Int) (cs : List Char) :
    depthAfter? separator depth (skeleton separator cs) = depthAfter? separator depth cs := by
  induction cs generalizing depth with
  | nil => rfl
  | cons c cs ih =>
      cases hJoint : isJoint separator c with
      | true =>
          rw [skeleton, List.filter_cons_of_pos hJoint, depthAfter?, depthAfter?]
          split
          · rfl
          · exact ih _
      | false =>
          have hOther : depthAfter? separator depth [c] = some depth :=
            depthAfter?_of_forall (List.forall_mem_singleton.mpr (isJoint_eq_false.mp hJoint))
          rw [skeleton, List.filter_cons_of_neg (Bool.eq_false_iff.mp hJoint),
            ← List.singleton_append, depthAfter?_append_of hOther]
          exact ih depth

theorem depthAfter?_congr (h : skeleton separator cs = skeleton separator ds) (depth : Int) :
    depthAfter? separator depth cs = depthAfter? separator depth ds := by
  rw [← depthAfter?_skeleton, h, depthAfter?_skeleton]

/-- Texts with the same skeletons stand side by side as well. -/
theorem SideBySide.congr (h : SideBySide separator depth parts)
    (hSame : List.Forall₂ (fun part part' => skeleton separator part' = skeleton separator part)
      parts parts') : SideBySide separator depth parts' := by
  induction hSame generalizing depth with
  | nil => exact h
  | @cons part part' parts parts' hPart hParts ih =>
      cases hParts with
      | nil =>
          rw [SideBySide] at h ⊢
          rwa [depthAfter?_congr hPart]
      | cons hNext hMore =>
          rw [sideBySide_cons (by simp)] at h ⊢
          rw [depthAfter?_congr hPart]
          exact ⟨h.1, ih h.2⟩

/-- And what they form has the same skeleton. -/
theorem skeleton_intercalate
    (hSame : List.Forall₂ (fun part part' => skeleton separator part' = skeleton separator part)
      parts parts') :
    skeleton separator (List.intercalate [separator] parts') =
      skeleton separator (List.intercalate [separator] parts) := by
  induction hSame with
  | nil => rfl
  | @cons part part' parts parts' hPart hParts ih =>
      cases hParts with
      | nil => simpa using hPart
      | cons hNext hMore =>
          simp only [List.intercalate_cons_cons, skeleton_append, hPart]
          rw [ih]

end Brackets

end BinderIdl
