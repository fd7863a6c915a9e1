import BinderIdl.Proofs.Stub.SharedInterface
import BinderIdl.Proofs.Registry.Precedence
import BinderIdl.Proofs.Token.Identifier
import BinderIdl.Proofs.Interface.Positions
import BinderIdl.Proofs.Token.Places

/-! Why an interface has no code. Whatever its types are, the reason is a diagnostic that
has a place in the source, or a source of the project that cannot be looked for. -/
namespace BinderIdl

open Java

theorem Source.isSome_tokenAt? {s : Source} (h : s.tokens ≠ []) (n : Nat) :
    (s.tokenAt? n).isSome := by
  have hLength : 0 < s.tokens.length := List.length_pos_iff.mpr h
  rw [tokenAt?_natCast, List.getElem?_eq_getElem (by omega)]
  rfl

/-- A complaint has a place unless its position is before the first token. -/
theorem EncodeFault.at_located (complaint : Complaint) (message : String) (s : Source) (n : Nat) :
    ∃ d, EncodeFault.at complaint message (some s) (some n) = .located d := by
  have hSome : (Diagnostic.at? complaint message (some s) (some n)).isSome := by
    simp only [Diagnostic.at?]
    split
    · rfl
    · rename_i hTokens
      rw [Option.isSome_map]
      exact s.isSome_tokenAt? (by simpa using hTokens) n
  obtain ⟨d, hd⟩ := Option.isSome_iff_exists.mp hSome
  exact ⟨d, by rw [EncodeFault.at, hd]⟩

/-- Why a query of a writer has no answer. -/
inductive Writer.Fails (w : Writer) (q : Query) : EncodeFault → Prop
  /-- The nature of the type cannot be found out. -/
  | obstructed {b : Binding} {fault : LookupFault}
      (hMake : Binding.make w.number w.context q.argument = .ok b)
      (hObstacle : b.obstacle? = some fault) : w.Fails q (.lookup fault)
  /-- The query has a fault of its own. -/
  | own {fault : EncodeFault} (hFault : w.fault? q = some fault) : w.Fails q fault

namespace Encoding

variable {β γ : Type} {d e : Desk} {fault : EncodeFault}

theorem bind_eq_error {x : Encoding γ} {f : γ → Encoding β} (h : (x >>= f) d = .error fault e) :
    x d = .error fault e ∨ ∃ c d', x d = .ok c d' ∧ f c d' = .error fault e := by
  cases hx : x d with
  | error fault' d' =>
      rw [bind_of_error hx] at h
      cases h
      exact .inl rfl
  | ok c d' =>
      rw [bind_of_ok hx] at h
      exact .inr ⟨c, d', rfl, h⟩

end Encoding

namespace Writer

open Encoding

variable {w : Writer} {args : Slot → Argument} {slot : Slot} {site : Site} {phase : Phase}
  {name : String} {q : Query} {d e : Desk} {fault : EncodeFault}

theorem heed_eq_error {obstacle : Option LookupFault} (h : heed obstacle d = .error fault e) :
    ∃ f, obstacle = some f ∧ fault = .lookup f := by
  cases obstacle with
  | none => cases h
  | some f =>
      cases h
      exact ⟨f, rfl, rfl⟩

theorem bind_fails (h : w.bind q.slot q.argument d = .error fault e) : w.Fails q fault := by
  rw [Writer.bind, get_bind] at h
  cases hSlot : d.binding? q.slot with
  | some b =>
      rw [hSlot] at h
      cases h
  | none =>
      rw [hSlot] at h
      cases hMake : Binding.make w.number w.context q.argument with
      | error fault' =>
          rw [hMake] at h
          cases h
          exact .own (by rw [fault?, codeFor, hMake])
      | ok b =>
          rw [hMake] at h
          dsimp only at h
          split at h
          · rcases bind_eq_error h with hHeed | ⟨_, _, _, hKeep⟩
            · obtain ⟨f, hObstacle, rfl⟩ := heed_eq_error hHeed
              exact .obstructed hMake hObstacle
            · cases hKeep
          · cases h

/-- Every binding that a writer uses at a desk of its own is one that it makes. -/
theorem make_of_bind {b : Binding} (hKeeps : d.Keeps w args)
    (h : w.bind slot (args slot) d = .ok b e) :
    Binding.make w.number w.context (args slot) = .ok b := by
  rcases (bind_leads.of_ok h).1.origin with hBound | ⟨_, hMake⟩
  · exact hKeeps slot b hBound
  · exact hMake

theorem finish_fails {b : Binding} (hMake : Binding.make w.number w.context q.argument = .ok b)
    (h : b.finish q.site q.phase q.name d = .error fault e) : w.Fails q fault := by
  cases hCode : b.code q.site q.phase q.name (d.counts b.owner) with
  | ok answer =>
      rw [Binding.finish_of_ok hCode] at h
      cases h
  | error fault' =>
      rw [Binding.finish_of_error hCode] at h
      cases h
      rw [← codeFor_of_make hMake] at hCode
      exact .own (codeFor_eq_error_iff.mp hCode)

theorem ask_fails (hKeeps : d.Keeps w args) (hq : args q.slot = q.argument)
    (h : w.ask q d = .error fault e) : w.Fails q fault := by
  rw [ask, encode_eq] at h
  rcases bind_eq_error h with hBind | ⟨b, d₁, hBind, h⟩
  · exact bind_fails hBind
  · have hMake : Binding.make w.number w.context q.argument = .ok b :=
      hq ▸ make_of_bind hKeeps (hq ▸ hBind)
    split at h
    · rcases bind_eq_error h with hHeed | ⟨_, d₂, _, h⟩
      · obtain ⟨f, hObstacle, rfl⟩ := heed_eq_error hHeed
        exact .obstructed hMake hObstacle
      · exact finish_fails hMake h
    · exact finish_fails hMake h

theorem keeps_of_encode {f : Fragment} (hKeeps : d.Keeps w args)
    (h : w.encode slot (args slot) site phase name d = .ok f e) : e.Keeps w args := by
  obtain ⟨b, _, hBinds, _, _⟩ := encode_leads.of_ok h
  intro s b' hb'
  rw [hBinds.bindings] at hb'
  split at hb'
  · rename_i hs
    cases hb'
    rw [hs]
    rcases hBinds.origin with hBound | ⟨_, hMake⟩
    · exact hKeeps slot _ hBound
    · exact hMake
  · exact hKeeps s b' hb'

end Writer

/-- A pass fails because one of its queries does. -/
theorem Poses.fails {β : Type} {x : Writer → Encoding β} {qs : List Query} {w : Writer}
    {args : Slot → Argument} {d e : Desk} {fault : EncodeFault} (hx : Poses x qs)
    (hArgs : ∀ q ∈ qs, args q.slot = q.argument) (hKeeps : d.Keeps w args)
    (h : x w d = .error fault e) : ∃ q ∈ qs, w.Fails q fault := by
  induction hx generalizing d with
  | done b => cases h
  | @ask next qs q _ ih =>
      have hq := hArgs q List.mem_cons_self
      rcases Encoding.bind_eq_error h with hAsk | ⟨f, d', hAsk, hNext⟩
      · exact ⟨q, List.mem_cons_self, Writer.ask_fails hKeeps hq hAsk⟩
      · rw [Writer.ask, ← hq] at hAsk
        obtain ⟨q', hMem, hFails⟩ := ih f (fun q hq => hArgs q (List.mem_cons_of_mem _ hq))
          (Writer.keeps_of_encode hKeeps hAsk) hNext
        exact ⟨q', List.mem_cons_of_mem _ hMem, hFails⟩

/-- What is in a slot of an interface that comes from a source is declared there, in front of its
own name or, as a result, in front of the name of its method. -/
theorem Interface.declared_of_argument? {s : Source} {i : Interface}
    (h : Interface.ofSource s = .ok (some i)) {slot : Slot} {a : Argument}
    (hSlot : i.argument? slot = some a) : ∃ m ∈ i.methods, ∃ name,
      (a ∈ m.arguments ∧ name = a.name ∨ a ∈ m.result ∧ name = m.name) ∧
        a.Declared s.tokens name := by
  obtain ⟨t, ht, rfl⟩ := exists_tree_of_ofSource h
  have hStands : StandsAt s.tokens 0 t.tokens := by
    rw [ht]
    exact List.prefix_refl _
  obtain ⟨m, hMethod, ha⟩ := Option.bind_eq_some_iff.mp hSlot
  have hm := List.mem_of_getElem? hMethod
  have hDeclared := t.declared hStands m hm
  refine ⟨m, hm, ?_⟩
  split at ha
  · have ha := List.mem_of_getElem? ha
    exact ⟨a.name, .inl ⟨ha, rfl⟩, hDeclared.arguments a ha⟩
  · exact ⟨m.name, .inr ⟨ha, rfl⟩, hDeclared.result a ha⟩

/-- What keeps a binding from being used is a type that cannot be looked for. -/
theorem Binding.exists_natureObstacle? {owner : Nat} {context : Context} {a : Argument}
    {b : Binding} {f : LookupFault} (hMake : make owner context a = .ok b)
    (hObstacle : b.obstacle? = some f) : ∃ type, context.natureObstacle? type = some f := by
  obtain ⟨type, _, rfl⟩ := make_eq_ok_iff.mp hMake
  obtain ⟨subject, _, hNature⟩ := Option.bind_eq_some_iff.mp hObstacle
  exact ⟨subject, hNature⟩

namespace Writer

variable {w : Writer} {q : Query} {fault : EncodeFault}

/-- A query with a fault of its own complains at the position of its argument: that the type
cannot be read, or that it cannot travel in the direction of the argument. -/
theorem eq_at_of_fault? (h : w.fault? q = some fault) : ∃ complaint message,
    fault = EncodeFault.at complaint message w.context.source q.argument.position ∧
      (complaint = .unsupported → message =
        "Cannot marshall '" ++ q.argument.direction.word ++ " " ++ q.argument.type ++ "'.") := by
  have hCode : w.codeFor q.argument q.site q.phase q.name 0 = .error fault :=
    codeFor_eq_error_iff.mpr h
  cases hMake : Binding.make w.number w.context q.argument with
  | error fault' =>
      rw [codeFor, hMake] at hCode
      cases hCode
      rw [Binding.make] at hMake
      split at hMake
      · cases hMake
      · cases hMake
        exact ⟨_, _, rfl, (absurd · (by decide))⟩
  | ok b =>
      rw [codeFor_of_make hMake] at hCode
      rw [(Binding.code_eq_error_iff.mp hCode).2]
      obtain ⟨type, _, rfl⟩ := Binding.make_eq_ok_iff.mp hMake
      exact ⟨_, _, rfl, fun _ => rfl⟩

theorem Fails.located_or_lookup (h : w.Fails q fault) {s : Source} {n : Nat}
    (hSource : w.context.source = some s) (hPosition : q.argument.position = some (n : Int)) :
    (∃ d, fault = .located d) ∨
      ∃ f type, fault = .lookup f ∧ w.context.natureObstacle? type = some f := by
  cases h with
  | @obstructed b f hMake hObstacle =>
      obtain ⟨type, hType⟩ := Binding.exists_natureObstacle? hMake hObstacle
      exact .inr ⟨f, type, rfl, hType⟩
  | own hFault =>
      obtain ⟨complaint, message, rfl, _⟩ := eq_at_of_fault? hFault
      rw [hSource, hPosition]
      exact .inl (EncodeFault.at_located _ _ s n)

/-- A writer has no code for an interface because one of the queries has no answer. -/
theorem encodeInterface_fails {i : Interface} {banner : Banner} {e : Desk}
    (h : w.encodeInterface i banner {} = .error fault e) : ∃ q ∈ i.queries, w.Fails q fault := by
  have hArgs : ∀ q ∈ i.queries, i.argumentAt q.slot = q.argument := by
    intro q hq
    rw [Interface.argumentAt, Interface.argument?_of_mem_queries hq, Option.getD_some]
  cases hPass : w.pass i (Desk.setCount {} w.number 0) with
  | ok ms d =>
      rw [encodeInterface_of_pass banner hPass] at h
      cases h
  | error fault' d =>
      rw [encodeInterface_of_fault banner hPass] at h
      cases h
      exact (poses_pass i).fails hArgs (Desk.keeps_setCount w _ _ _) hPass

/-- An interface that comes from a source has code unless there is a diagnostic with a
place, or a type that cannot be looked for. -/
theorem encodeInterface_fault {i : Interface} {s : Source} {banner : Banner} {e : Desk}
    (hInterface : Interface.ofSource s = .ok (some i)) (hSource : w.context.source = some s)
    (h : w.encodeInterface i banner {} = .error fault e) :
    (∃ d, fault = .located d) ∨
      ∃ f type, fault = .lookup f ∧ w.context.natureObstacle? type = some f := by
  obtain ⟨q, hq, hFails⟩ := encodeInterface_fails h
  obtain ⟨_, _, _, _, n, _, _, hPosition, _⟩ :=
    Interface.declared_of_argument? hInterface (Interface.argument?_of_mem_queries hq)
  exact hFails.located_or_lookup hSource hPosition

end Writer

end BinderIdl
