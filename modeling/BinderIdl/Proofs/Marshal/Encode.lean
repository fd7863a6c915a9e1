import BinderIdl.Marshal.Desk

/-! What encoding an argument does to the desk: it binds the argument if nothing
has bound it yet, and it counts the numbers for temporaries that the code takes.
Rules for encodings that may fail come first. -/
namespace BinderIdl

open Java

namespace Encoding

variable {β γ : Type} {d e : Desk} {Q : β → Desk → Prop} {F : Desk → Prop}

/-- From a desk, an encoding leads to an answer and a desk with a property, or it
fails at a desk with another one. -/
def Leads (x : Encoding β) (d : Desk) (Q : β → Desk → Prop) (F : Desk → Prop) : Prop :=
  match x d with
  | .ok b e => Q b e
  | .error _ e => F e

namespace Leads

theorem of_ok {x : Encoding β} {b : β} (h : Leads x d Q F) (hx : x d = .ok b e) : Q b e := by
  simpa [Leads, hx] using h

theorem self {x : Encoding β} :
    Leads x d (fun b e => x d = .ok b e) fun e => ∃ fault, x d = .error fault e := by
  unfold Leads
  split
  · assumption
  · exact ⟨_, ‹_›⟩

theorem mono {x : Encoding β} {R : β → Desk → Prop} {G : Desk → Prop} (h : Leads x d Q F)
    (hAnswer : ∀ b e, Q b e → R b e) (hFault : ∀ e, F e → G e) : Leads x d R G := by
  unfold Leads at *
  split at h
  · exact hAnswer _ _ h
  · exact hFault _ h

theorem pure {b : β} (h : Q b d) : Leads (pure b) d Q F := h

theorem throw {fault : EncodeFault} (h : F d) : Leads (throw fault : Encoding β) d Q F := h

theorem get {Q : Desk → Desk → Prop} (h : Q d d) : Leads MonadState.get d Q F := h

theorem modify {g : Desk → Desk} {Q : Unit → Desk → Prop} (h : Q () (g d)) :
    Leads (modify g) d Q F := h

theorem bind {x : Encoding γ} {f : γ → Encoding β}
    (h : Leads x d (fun c e => Leads (f c) e Q F) F) : Leads (x >>= f) d Q F := by
  unfold Leads at h
  split at h
  · rename_i hx
    simpa [Leads, Bind.bind, EStateM.bind, hx] using h
  · rename_i hx
    simpa [Leads, Bind.bind, EStateM.bind, hx] using h

/-- Encoding one thing after another leads through an invariant of the answers so
far. -/
theorem mapM {f : γ → Encoding β} (inv : List β → Desk → Prop) {xs : List γ} (hStart : inv [] d)
    (hStep : ∀ k x ys e, xs[k]? = some x → ys.length = k → inv ys e →
      Leads (f x) e (fun y e => inv (ys ++ [y]) e) F) :
    Leads (xs.mapM f) d (fun ys e => ys.length = xs.length ∧ inv ys e) F := by
  induction xs generalizing inv d with
  | nil => exact ⟨rfl, hStart⟩
  | cons x xs ih =>
      rw [List.mapM_cons]
      refine bind ((hStep 0 x [] d rfl rfl hStart).mono (fun y e hInv => ?_) fun _ h => h)
      have hRest := ih (fun ys => inv (y :: ys)) hInv fun k x ys e hx hLength hInv =>
        hStep (k + 1) x (y :: ys) e hx (congrArg (· + 1) hLength) hInv
      refine bind (hRest.mono (fun ys e h => ?_) fun _ h => h)
      exact pure ⟨congrArg (· + 1) h.1, h.2⟩

theorem ite {c : Desk → Bool} {x y : Encoding β} (hThen : c d = true → Leads x d Q F)
    (hElse : c d = false → Leads y d Q F) : Leads (fun d => if c d then x d else y d) d Q F := by
  cases h : c d with
  | true => simpa [Leads, h] using hThen h
  | false => simpa [Leads, h] using hElse h

end Leads

theorem get_bind {f : Desk → Encoding β} : (MonadState.get >>= f) d = f d d := rfl

theorem modify_bind {g : Desk → Desk} {f : Unit → Encoding β} :
    (modify g >>= f) d = f () (g d) := rfl

end Encoding

namespace Desk

theorem binding?_keep (d : Desk) (b : Binding) (slot slot' : Slot) :
    (d.keep slot b).binding? slot' = if slot' = slot then some b else d.binding? slot' := by
  rw [binding?, keep, List.lookup_cons]
  by_cases h : slot' = slot
  · simp [h]
  · simp [h, beq_eq_false_iff_ne.mpr h, binding?]

end Desk

namespace Binding

variable {b : Binding} {site : Site} {phase : Phase} {x : String} {n : Nat} {r : Fragment × Nat}

/-- The code of a cell is what the scheme emits there. -/
theorem emit?_cell_of_code (h : b.code site phase x n = .ok r) :
    (b.scheme.cell b.declared b.argument.direction site phase).emit? x n = some r := by
  rw [code] at h
  split at h
  · cases h
    assumption
  · cases h

theorem emit?_of_code (operation : Operation)
    (hOperation : Operation.of? site b.argument.direction phase = some operation)
    (h : b.code site phase x n = .ok r) :
    (b.scheme.perform b.declared (.of site phase) operation).emit? x n = some r := by
  have hCell := emit?_cell_of_code h
  rwa [Scheme.cell, hOperation] at hCell

/-- The last step of encoding: the code of a cell, which is counted. -/
def finish (b : Binding) (site : Site) (phase : Phase) (name : String) (d : Desk) :
    EStateM.Result EncodeFault Desk Fragment :=
  match b.code site phase name (d.counts b.owner) with
  | .ok (f, n) => .ok f (d.setCount b.owner n)
  | .error fault => .error fault d

theorem finish_of_ok {d : Desk} {f : Fragment} {n : Nat}
    (h : b.code site phase x (d.counts b.owner) = .ok (f, n)) :
    b.finish site phase x d = .ok f (d.setCount b.owner n) := by
  rw [finish, h]

theorem finish_of_error {d : Desk} {fault : EncodeFault}
    (h : b.code site phase x (d.counts b.owner) = .error fault) :
    b.finish site phase x d = .error fault d := by
  rw [finish, h]

/-- A binding has the owner and the argument that it was made for. -/
theorem of_make {owner : Nat} {context : Context} {a : Argument}
    (h : make owner context a = .ok b) : b.owner = owner ∧ b.argument = a := by
  rw [make] at h
  split at h
  · cases h
    exact ⟨rfl, rfl⟩
  · cases h

end Binding

namespace Writer

open Encoding

variable {w : Writer} {slot : Slot} {a : Argument} {site : Site} {phase : Phase} {name : String}
  {d : Desk}

/-- A desk on which an argument has a binding: the one that it had before, or else a
new one. -/
structure Binds (w : Writer) (slot : Slot) (a : Argument) (d : Desk) (b : Binding) (e : Desk) :
    Prop where
  origin : d.binding? slot = some b ∨
    d.binding? slot = none ∧ Binding.make w.number w.context a = .ok b
  bindings : ∀ s, e.binding? s = if s = slot then some b else d.binding? s

theorem heed_leads {obstacle : Option LookupFault} :
    Leads (heed obstacle) d (fun _ e => e = d) (· = d) := by
  cases obstacle <;> rfl

theorem bind_leads : Leads (w.bind slot a) d (fun b e => w.Binds slot a d b e ∧ e.counts = d.counts)
    (·.counts = d.counts) := by
  refine .bind (.get ?_)
  cases hSlot : d.binding? slot with
  | some b =>
      refine .pure ⟨⟨.inl hSlot, fun s => ?_⟩, rfl⟩
      by_cases hs : s = slot
      · rw [if_pos hs, hs, hSlot]
      · rw [if_neg hs]
  | none =>
      cases hMake : Binding.make w.number w.context a with
      | error fault => exact .throw rfl
      | ok b =>
          -- With or without a look at the sources, the new binding is kept.
          have hKeep : Leads (do modify fun d => (d.record b.report).keep slot b; return b) d
              (fun b e => w.Binds slot a d b e ∧ e.counts = d.counts) (·.counts = d.counts) :=
            .bind (.modify (.pure ⟨⟨.inr ⟨hSlot, hMake⟩, Desk.binding?_keep _ _ _⟩, rfl⟩))
          show Leads (if b.category ≠ .array then _ else _) _ _ _
          split
          · refine .bind (heed_leads.mono (fun _ e he => ?_) fun e he => by rw [he])
            rw [he]
            exact hKeep
          · exact hKeep

/-- The desk and the code after an argument was encoded. The code is that of the
argument's binding, which counts the temporaries, and other counts stay. -/
inductive Encoded (w : Writer) (slot : Slot) (a : Argument) (site : Site) (phase : Phase)
    (name : String) (d : Desk) (f : Fragment) (e : Desk) : Prop
  | intro (b : Binding) (count : Nat) (hBinds : w.Binds slot a d b e)
      (hCode : b.code site phase name (d.counts b.owner) = .ok (f, count))
      (hCounts : e.counts = (d.setCount b.owner count).counts)

/-- Encoding as binding, then perhaps a look at the elements, then the code. -/
theorem encode_eq (w : Writer) (slot : Slot) (a : Argument) (site : Site) (phase : Phase)
    (name : String) :
    w.encode slot a site phase name = w.bind slot a >>= fun b d =>
      if d.isToExamine slot b site phase then
        (heed b.obstacle? >>= fun _ e => b.finish site phase name (e.examine slot b)) d
      else b.finish site phase name d := by
  rw [encode]
  congr 1
  funext b d
  rw [get_bind]
  split
  · apply congrArg fun f : Unit → Encoding Fragment => (heed b.obstacle? >>= f) d
    funext _ e
    rw [modify_bind]
    dsimp only
    rw [get_bind, Binding.finish]
    cases b.code site phase name ((e.examine slot b).counts b.owner) <;> rfl
  · dsimp only
    rw [get_bind, Binding.finish]
    cases b.code site phase name (d.counts b.owner) <;> rfl

/-- Encoding an argument that fails leaves all counts as they are. -/
theorem encode_leads : Leads (w.encode slot a site phase name) d
    (w.Encoded slot a site phase name d) (·.counts = d.counts) := by
  rw [encode_eq]
  refine .bind (bind_leads.mono (fun b e hBound => ?_) fun _ h => h)
  obtain ⟨hBinds, hCounts⟩ := hBound
  have hFinish : ∀ e : Desk, w.Binds slot a d b e → e.counts = d.counts →
      Leads (b.finish site phase name) e (w.Encoded slot a site phase name d)
        (·.counts = d.counts) := by
    intro e hBinds hCounts
    unfold Leads
    cases hCode : b.code site phase name (d.counts b.owner) with
    | error fault =>
        rw [Binding.finish_of_error (hCounts ▸ hCode)]
        exact hCounts
    | ok answer =>
        rw [Binding.finish_of_ok (hCounts ▸ hCode)]
        refine ⟨b, answer.2, ⟨hBinds.origin, hBinds.bindings⟩, hCode, ?_⟩
        simp only [Desk.setCount, hCounts]
  -- Reporting on the elements of an array changes neither bindings nor counts.
  refine .ite (fun _ => ?_) fun _ => hFinish e hBinds hCounts
  refine .bind (heed_leads.mono (fun _ e' he => ?_) fun e' he => by rw [he, hCounts])
  rw [he]
  exact hFinish (e.examine slot b) ⟨hBinds.origin, hBinds.bindings⟩ hCounts

end Writer

end BinderIdl
