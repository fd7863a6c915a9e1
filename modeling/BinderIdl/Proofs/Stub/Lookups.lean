import BinderIdl.Proofs.Stub.Faults

/-! The code of an interface depends on the sources of the project only as far as it asks
for them: two contexts that differ in what they find, but not for the names that the
arguments ask for, give the same file or the same fault. -/
namespace BinderIdl

open Java

/-- A scheme depends on the nature of one name at most. -/
theorem Scheme.of_congr {category : Category} {t : TypeName} {nature nature' : String → Nature}
    (h : ∀ subject, Scheme.subject? category t = some subject →
      nature' subject = nature subject) :
    Scheme.of category t nature' = Scheme.of category t nature := by
  cases category <;> simp only [Scheme.of] <;> rw [h _ rfl]

/-- A context that knows as much about an argument as another. -/
structure Context.Answers (c c' : Context) (a : Argument) : Prop where
  typeParameters : c'.typeParameters = c.typeParameters
  source : c'.source = c.source
  subject : ∀ type subject, TypeName.parse (c.meaning a.type) = .ok type →
    Scheme.subject? (Category.of type) type = some subject →
    c'.nature subject = c.nature subject ∧ c'.natureObstacle? subject = c.natureObstacle? subject

theorem Context.Answers.parameter? {c c' : Context} {a : Argument} (h : c.Answers c' a) :
    c'.parameter? = c.parameter? := by
  funext type
  rw [Context.parameter?, Context.parameter?, h.typeParameters]

theorem Context.Answers.meaning {c c' : Context} {a : Argument} (h : c.Answers c' a) :
    c'.meaning = c.meaning := by
  funext type
  rw [Context.meaning, Context.meaning, h.parameter?]

namespace Binding

variable {owner : Nat} {c c' : Context} {a : Argument} {b : Binding}

/-- The same argument in another context. -/
def within (b : Binding) (c : Context) : Binding := { b with context := c }

theorem make_within (h : c.Answers c' a) :
    make owner c' a = (make owner c a).map (·.within c') := by
  rw [make, make, h.meaning, h.source]
  cases TypeName.parse (c.meaning a.type) with
  | ok type => rfl
  | error fault => rfl

theorem obstacle?_within (h : c.Answers c' a) (hMake : make owner c a = .ok b) :
    (b.within c').obstacle? = b.obstacle? := by
  obtain ⟨type, hType, rfl⟩ := make_eq_ok_iff.mp hMake
  rw [obstacle?, obstacle?]
  show (Scheme.subject? (Category.of type) type).bind c'.natureObstacle? =
    (Scheme.subject? (Category.of type) type).bind c.natureObstacle?
  cases hSubject : Scheme.subject? (Category.of type) type with
  | none => rfl
  | some subject => exact (h.subject type subject hType hSubject).2

theorem code_within (h : c.Answers c' a) (hMake : make owner c a = .ok b) (site : Site)
    (phase : Phase) (name : String) (n : Nat) :
    (b.within c').code site phase name n = b.code site phase name n := by
  obtain ⟨type, hType, rfl⟩ := make_eq_ok_iff.mp hMake
  have hScheme : Scheme.of (Category.of type) type c'.nature =
      Scheme.of (Category.of type) type c.nature :=
    Scheme.of_congr fun subject hSubject => (h.subject type subject hType hSubject).1
  simp only [code, scheme, category, declared, refusal, within, hScheme, h.parameter?, h.source]

end Binding

/-- A desk with the bindings of another in another context. -/
structure Desk.Mirrors (d d' : Desk) (c : Context) : Prop where
  counts : d'.counts = d.counts
  examined : d'.examined = d.examined
  bindings : ∀ slot, d'.binding? slot = (d.binding? slot).map (·.within c)

theorem Desk.Mirrors.keep {d d' : Desk} {c : Context} (h : d.Mirrors d' c) (slot : Slot)
    (b : Binding) (events events' : List Event) :
    ((d.record events).keep slot b).Mirrors ((d'.record events').keep slot (b.within c)) c := by
  refine ⟨h.counts, h.examined, fun s => ?_⟩
  rw [Desk.binding?_keep, Desk.binding?_keep]
  split
  · rfl
  · exact h.bindings s

/-- Two ends of an encoding, with related answers or with the same fault. -/
inductive Mirrored {β γ : Type} (c : Context) (R : β → γ → Prop) :
    EStateM.Result EncodeFault Desk β → EStateM.Result EncodeFault Desk γ → Prop
  | ok {b : β} {b' : γ} {e e' : Desk} (hAnswer : R b b') (hDesk : e.Mirrors e' c) :
      Mirrored c R (.ok b e) (.ok b' e')
  | error {fault : EncodeFault} {e e' : Desk} : Mirrored c R (.error fault e) (.error fault e')

namespace Mirrored

open Encoding

variable {β β' γ γ' : Type} {c : Context} {R : β → β' → Prop} {S : γ → γ' → Prop} {d d' : Desk}

theorem bind {x : Encoding β} {x' : Encoding β'} {f : β → Encoding γ} {f' : β' → Encoding γ'}
    (hx : Mirrored c R (x d) (x' d'))
    (hf : ∀ b b' e e', x d = .ok b e → R b b' → e.Mirrors e' c →
      Mirrored c S (f b e) (f' b' e')) : Mirrored c S ((x >>= f) d) ((x' >>= f') d') := by
  cases hResult : x d with
  | error fault e =>
      cases hResult' : x' d' with
      | error fault' e' =>
          rw [hResult, hResult'] at hx
          rw [bind_of_error hResult, bind_of_error hResult']
          cases hx
          exact .error
      | ok b' e' =>
          rw [hResult, hResult'] at hx
          cases hx
  | ok b e =>
      cases hResult' : x' d' with
      | error fault' e' =>
          rw [hResult, hResult'] at hx
          cases hx
      | ok b' e' =>
          rw [hResult, hResult'] at hx
          rw [bind_of_ok hResult, bind_of_ok hResult']
          cases hx with
          | ok hAnswer hDesk => exact hf b b' e e' hResult hAnswer hDesk

theorem heed (obstacle : Option LookupFault) (h : d.Mirrors d' c) :
    Mirrored c Eq (Writer.heed obstacle d) (Writer.heed obstacle d') := by
  cases obstacle with
  | none => exact .ok rfl h
  | some fault => exact .error

end Mirrored

namespace Writer

open Encoding

variable {w : Writer} {args : Slot → Argument} {c : Context} {slot : Slot} {site : Site}
  {phase : Phase} {name : String} {d d' : Desk}

theorem bind_mirrored (hAnswers : w.context.Answers c (args slot)) (h : d.Mirrors d' c) :
    Mirrored c (fun b b' => b' = b.within c) (w.bind slot (args slot) d)
      ((⟨w.number, c⟩ : Writer).bind slot (args slot) d') := by
  rw [Writer.bind, Writer.bind, get_bind, get_bind, h.bindings, Binding.make_within hAnswers]
  cases d.binding? slot with
  | some b => exact .ok rfl h
  | none =>
      cases hMake : Binding.make w.number w.context (args slot) with
      | error fault => exact .error
      | ok b =>
          have hObstacle := Binding.obstacle?_within hAnswers hMake
          by_cases hArray : b.category = .array
          · have hArray' : (b.within c).category = .array := hArray
            simp only [Except.map, hArray, hArray', ne_eq, not_true_eq_false, if_false]
            exact .ok rfl (h.keep slot b _ _)
          · have hArray' : (b.within c).category ≠ .array := hArray
            simp only [Except.map, hArray, hArray', ne_eq, not_false_eq_true, if_true, hObstacle]
            exact .bind (.heed b.obstacle? h) fun _ _ e e' _ _ hMirrors =>
              .ok rfl (hMirrors.keep slot b _ _)

theorem finish_mirrored {b : Binding} (hAnswers : w.context.Answers c (args slot))
    (hMake : Binding.make w.number w.context (args slot) = .ok b) (h : d.Mirrors d' c) :
    Mirrored c Eq (b.finish site phase name d) ((b.within c).finish site phase name d') := by
  have hOwner : (b.within c).owner = b.owner := rfl
  rw [Binding.finish, Binding.finish, Binding.code_within hAnswers hMake, h.counts, hOwner]
  cases b.code site phase name (d.counts b.owner) with
  | error fault => exact .error
  | ok answer =>
      refine .ok rfl ⟨?_, h.examined, h.bindings⟩
      simp only [Desk.setCount, h.counts]

theorem encode_mirrored (hKeeps : d.Keeps w args) (hAnswers : w.context.Answers c (args slot))
    (h : d.Mirrors d' c) :
    Mirrored c Eq (w.encode slot (args slot) site phase name d)
      ((⟨w.number, c⟩ : Writer).encode slot (args slot) site phase name d') := by
  rw [encode_eq, encode_eq]
  refine .bind (bind_mirrored hAnswers h) ?_
  rintro b _ e e' hBind rfl hMirrors
  have hMake := make_of_bind hKeeps hBind
  have hExamine : e'.isToExamine slot (b.within c) site phase = e.isToExamine slot b site phase := by
    rw [Desk.isToExamine, Desk.isToExamine, hMirrors.examined]
    rfl
  rw [hExamine]
  split
  · rw [Binding.obstacle?_within hAnswers hMake]
    refine .bind (.heed b.obstacle? hMirrors) fun _ _ u u' _ _ hu => ?_
    have hExamined : (u.examine slot b).Mirrors (u'.examine slot (b.within c)) c := by
      refine ⟨hu.counts, ?_, hu.bindings⟩
      simp only [Desk.examine, hu.examined]
    exact finish_mirrored hAnswers hMake hExamined
  · exact finish_mirrored hAnswers hMake hMirrors

end Writer

/-- What one query does alike, a pass does alike. -/
theorem Poses.mirrored {β : Type} {x : Writer → Encoding β} {qs : List Query} {w : Writer}
    {args : Slot → Argument} {c : Context} {d d' : Desk} (hx : Poses x qs)
    (hArgs : ∀ q ∈ qs, args q.slot = q.argument) (hKeeps : d.Keeps w args)
    (hAnswers : ∀ q ∈ qs, w.context.Answers c q.argument) (h : d.Mirrors d' c) :
    Mirrored c Eq (x w d) (x ⟨w.number, c⟩ d') := by
  induction hx generalizing d d' with
  | done b => exact .ok rfl h
  | @ask next qs q _ ih =>
      have hq := hArgs q List.mem_cons_self
      have hFirst : w.context.Answers c (args q.slot) := by
        rw [hq]
        exact hAnswers q List.mem_cons_self
      have hAsk : Mirrored c Eq (w.ask q d) (Writer.ask ⟨w.number, c⟩ q d') := by
        rw [Writer.ask, Writer.ask, ← hq]
        exact Writer.encode_mirrored hKeeps hFirst h
      refine .bind hAsk ?_
      rintro f _ e e' hEncode rfl hMirrors
      rw [Writer.ask, ← hq] at hEncode
      exact ih f (fun q hq => hArgs q (List.mem_cons_of_mem _ hq))
        (Writer.keeps_of_encode hKeeps hEncode)
        (fun q hq => hAnswers q (List.mem_cons_of_mem _ hq)) hMirrors

/-- The file of an interface, or the fault that keeps it from having one, is the same in
every context that answers for its arguments alike. -/
theorem Writer.encodeInterface_answer_congr {w : Writer} {c : Context} {i : Interface}
    (hAnswers : ∀ q ∈ i.queries, w.context.Answers c q.argument) (banner : Banner) :
    ((⟨w.number, c⟩ : Writer).encodeInterface i banner).answer {} =
      (w.encodeInterface i banner).answer {} := by
  have hArgs : ∀ q ∈ i.queries, i.argumentAt q.slot = q.argument := by
    intro q hq
    rw [Interface.argumentAt, Interface.argument?_of_mem_queries hq, Option.getD_some]
  have hPass := (poses_pass i).mirrored hArgs (Desk.keeps_setCount w _ _ _) hAnswers
    (show (Desk.setCount {} w.number 0).Mirrors (Desk.setCount {} w.number 0) c from
      ⟨rfl, rfl, fun _ => rfl⟩)
  cases hOwn : w.pass i (Desk.setCount {} w.number 0) with
  | ok ms d =>
      rw [hOwn] at hPass
      generalize hOther : Writer.pass ⟨w.number, c⟩ i (Desk.setCount {} w.number 0) = r at hPass
      cases hPass with
      | ok hAnswer hDesk =>
          subst hAnswer
          rw [Encoding.answer_of_ok (encodeInterface_of_pass banner hOwn),
            Encoding.answer_of_ok (encodeInterface_of_pass (v := ⟨w.number, c⟩) banner hOther)]
  | error fault d =>
      rw [hOwn] at hPass
      generalize hOther : Writer.pass ⟨w.number, c⟩ i (Desk.setCount {} w.number 0) = r at hPass
      cases hPass with
      | error =>
          rw [Encoding.answer_of_error (encodeInterface_of_fault banner hOwn),
            Encoding.answer_of_error (encodeInterface_of_fault (v := ⟨w.number, c⟩) banner hOther)]

end BinderIdl
