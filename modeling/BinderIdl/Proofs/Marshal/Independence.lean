import BinderIdl.Proofs.Marshal.Encode

/-! Bindings are a memory that changes no answer. Whatever was asked of a desk before,
and whether or not it failed, the code for an argument is that of a copy which nothing
has bound, on a new desk with the same count. An argument is bound by the first request
for it, and never if its type cannot be read. Where the sources of the project decide about
the type of an argument, they are taken to be readable. -/
namespace BinderIdl

open Java

namespace Encoding

variable {β γ : Type} {d e : Desk}

/-- What an encoding gives at a desk. -/
def answer (x : Encoding β) (d : Desk) : Except EncodeFault β :=
  match x d with
  | .ok b _ => .ok b
  | .error fault _ => .error fault

/-- The desk that an encoding leaves, also when it fails. -/
def desk (x : Encoding β) (d : Desk) : Desk :=
  match x d with
  | .ok _ e | .error _ e => e

theorem answer_of_ok {x : Encoding β} {b : β} (h : x d = .ok b e) : x.answer d = .ok b := by
  rw [answer, h]

theorem answer_of_error {x : Encoding β} {fault : EncodeFault} (h : x d = .error fault e) :
    x.answer d = .error fault := by
  rw [answer, h]

/-- Work that gives an answer ends well. -/
theorem exists_of_answer {x : Encoding β} (h : (x.answer d).toBool = true) :
    ∃ b e, x d = .ok b e := by
  rw [answer] at h
  cases hResult : x d with
  | ok b e => exact ⟨b, e, rfl⟩
  | error fault e =>
      rw [hResult] at h
      cases h

theorem desk_of_ok {x : Encoding β} {b : β} (h : x d = .ok b e) : x.desk d = e := by
  rw [desk, h]

theorem desk_of_error {x : Encoding β} {fault : EncodeFault} (h : x d = .error fault e) :
    x.desk d = e := by
  rw [desk, h]

theorem bind_of_ok {x : Encoding γ} {f : γ → Encoding β} {c : γ} (h : x d = .ok c e) :
    (x >>= f) d = f c e := by
  simp [Bind.bind, EStateM.bind, h]

theorem bind_of_error {x : Encoding γ} {f : γ → Encoding β} {fault : EncodeFault}
    (h : x d = .error fault e) : (x >>= f) d = .error fault e := by
  simp [Bind.bind, EStateM.bind, h]

theorem answer_bind_of_ok {x : Encoding γ} {f : γ → Encoding β} {c : γ} (h : x d = .ok c e) :
    (x >>= f).answer d = (f c).answer e := by
  rw [answer, bind_of_ok h, answer]

end Encoding

/-- Nothing keeps the sources from being looked up that decide about a declared type. -/
def Context.Clear (c : Context) (type : String) : Prop :=
  ∀ t, TypeName.parse (c.meaning type) = .ok t →
    ∀ subject ∈ Scheme.subject? (Category.of t) t, c.natureObstacle? subject = none

/-- Where all sources can be looked up, every type is clear. -/
theorem Context.clear_of_obstacle? {c : Context}
    (h : ∀ name package, c.obstacle? name package = none) (type : String) : c.Clear type := by
  intro t _ subject _
  rw [natureObstacle?]
  split
  · rfl
  · exact h _ _

namespace Binding

variable {owner : Nat} {context : Context} {a : Argument} {b : Binding} {site : Site}
  {phase : Phase} {name : String} {d : Desk}

theorem make_eq_ok_iff : make owner context a = .ok b ↔
    ∃ type, TypeName.parse (context.meaning a.type) = .ok type ∧ b = ⟨owner, context, a, type⟩ := by
  rw [make]
  cases TypeName.parse (context.meaning a.type) with
  | ok type => simp [eq_comm]
  | error fault => simp

theorem obstacle?_of_make (hClear : context.Clear a.type) (h : make owner context a = .ok b) :
    b.obstacle? = none := by
  obtain ⟨type, hType, rfl⟩ := make_eq_ok_iff.mp h
  rw [obstacle?, Option.bind_eq_none_iff]
  exact hClear type hType

end Binding

namespace Writer

open Encoding

variable {v w : Writer} {slot : Slot} {a : Argument} {b : Binding} {site : Site} {phase : Phase}
  {name : String} {d e : Desk} {fault : EncodeFault}

theorem bind_of_bound (h : d.binding? slot = some b) : v.bind slot a d = .ok b d := by
  rw [Writer.bind, get_bind, h]
  rfl

theorem bind_of_make (hNone : d.binding? slot = none)
    (hMake : Binding.make v.number v.context a = .ok b) (hClear : b.obstacle? = none) :
    v.bind slot a d = .ok b ((d.record b.report).keep slot b) := by
  rw [Writer.bind, get_bind, hNone, hMake]
  simp only [hClear]
  split <;> rfl

theorem encode_of_malformed (hNone : d.binding? slot = none)
    (hMake : Binding.make v.number v.context a = .error fault) :
    v.encode slot a site phase name d = .error fault d := by
  apply bind_of_error
  rw [Writer.bind, get_bind, hNone, hMake]
  rfl

/-- Behind its binding, encoding may report on the elements of an array. That changes
neither bindings nor counts. -/
theorem encode_of_bind (site : Site) (phase : Phase) (name : String)
    (hBind : v.bind slot a d = .ok b e) (hClear : b.obstacle? = none) :
    ∃ e' : Desk, e'.bindings = e.bindings ∧ e'.counts = e.counts ∧
      v.encode slot a site phase name d = b.finish site phase name e' := by
  have hEncode := (congrFun (encode_eq v slot a site phase name) d).trans (bind_of_ok hBind)
  by_cases hExamine : e.isToExamine slot b site phase = true
  · refine ⟨e.examine slot b, rfl, rfl, hEncode.trans ?_⟩
    rw [if_pos hExamine, hClear]
    rfl
  · exact ⟨e, rfl, rfl, hEncode.trans (if_neg hExamine)⟩

theorem encode_of_bound (v : Writer) (a : Argument) (site : Site) (phase : Phase) (name : String)
    (hBound : d.binding? slot = some b) (hClear : b.obstacle? = none) :
    ∃ e : Desk, e.bindings = d.bindings ∧ e.counts = d.counts ∧
      v.encode slot a site phase name d = b.finish site phase name e :=
  encode_of_bind site phase name (bind_of_bound hBound) hClear

end Writer

/-- Every binding of the desk is the one that the writer makes for the argument in its
slot. -/
def Desk.Keeps (d : Desk) (w : Writer) (args : Slot → Argument) : Prop :=
  ∀ slot b, d.binding? slot = some b → Binding.make w.number w.context (args slot) = .ok b

theorem Desk.keeps_setCount (w : Writer) (args : Slot → Argument) (owner n : Nat) :
    (({} : Desk).setCount owner n).Keeps w args := by
  intro _ _ h
  cases h

namespace Writer

variable {w : Writer} {args : Slot → Argument} {slot : Slot} {site : Site} {phase : Phase}
  {name : String} {d : Desk}

/-- All that a request can do at a desk of the writer's own bindings. -/
theorem encode_cases (slot : Slot) (site : Site) (phase : Phase) (name : String)
    (hClear : w.context.Clear (args slot).type) (hKeeps : d.Keeps w args) :
    (∃ fault, Binding.make w.number w.context (args slot) = .error fault ∧
      d.binding? slot = none ∧
      w.encode slot (args slot) site phase name d = .error fault d) ∨
    ∃ (b : Binding) (e : Desk), Binding.make w.number w.context (args slot) = .ok b ∧
      e.counts = d.counts ∧
      (d.binding? slot = some b ∧ e.bindings = d.bindings ∨
        d.binding? slot = none ∧ e.bindings = (slot, b) :: d.bindings) ∧
      w.encode slot (args slot) site phase name d = b.finish site phase name e := by
  cases hSlot : d.binding? slot with
  | some b =>
      have hMake := hKeeps slot b hSlot
      obtain ⟨e, hBindings, hCounts, hEncode⟩ :=
        encode_of_bound w (args slot) site phase name hSlot (Binding.obstacle?_of_make hClear hMake)
      exact .inr ⟨b, e, hMake, hCounts, .inl ⟨rfl, hBindings⟩, hEncode⟩
  | none =>
      cases hMake : Binding.make w.number w.context (args slot) with
      | error fault => exact .inl ⟨fault, rfl, rfl, encode_of_malformed hSlot hMake⟩
      | ok b =>
          have hObstacle := Binding.obstacle?_of_make hClear hMake
          obtain ⟨e, hBindings, hCounts, hEncode⟩ :=
            encode_of_bind site phase name (bind_of_make hSlot hMake hObstacle) hObstacle
          exact .inr ⟨b, e, rfl, hCounts, .inr ⟨rfl, hBindings⟩, hEncode⟩

/-- The code for an argument that nothing has bound, by a writer that has counted to a
number. -/
def codeFor (w : Writer) (a : Argument) (site : Site) (phase : Phase) (name : String) (n : Nat) :
    Except EncodeFault (Fragment × Nat) :=
  match Binding.make w.number w.context a with
  | .ok b => b.code site phase name n
  | .error fault => .error fault

theorem codeFor_of_make {a : Argument} {b : Binding}
    (h : Binding.make w.number w.context a = .ok b) :
    w.codeFor a site phase name = b.code site phase name := by
  funext n
  rw [codeFor, h]

theorem answer_encode (hClear : w.context.Clear (args slot).type) (hKeeps : d.Keeps w args) :
    (w.encode slot (args slot) site phase name).answer d =
      (w.codeFor (args slot) site phase name (d.counts w.number)).map Prod.fst := by
  obtain ⟨fault, hMake, -, hEncode⟩ | ⟨b, e, hMake, hCounts, -, hEncode⟩ :=
    encode_cases slot site phase name hClear hKeeps
  · rw [Encoding.answer_of_error hEncode, codeFor, hMake]
    rfl
  · rw [codeFor_of_make hMake, ← (Binding.of_make hMake).1, ← hCounts]
    cases hCode : b.code site phase name (e.counts b.owner) with
    | ok r => exact Encoding.answer_of_ok (hEncode.trans (Binding.finish_of_ok hCode))
    | error fault => exact Encoding.answer_of_error (hEncode.trans (Binding.finish_of_error hCode))

/-- The owner of a binding has no part in its code. -/
theorem codeFor_congr {v : Writer} (h : v.context = w.context) (a : Argument) (site : Site)
    (phase : Phase) (name : String) (n : Nat) :
    v.codeFor a site phase name n = w.codeFor a site phase name n := by
  rw [codeFor, codeFor, Binding.make, Binding.make, h]
  cases TypeName.parse (w.context.meaning a.type) <;> rfl

end Writer

/-- A request at a desk: the code for the argument in a slot, or a new start of the
count. -/
inductive Request where
  | code (slot : Slot) (site : Site) (phase : Phase) (name : String)
  | restart

/-- The request is for the argument in a slot. -/
def Request.asks (slot : Slot) : Request → Bool
  | code s .. => s == slot
  | restart => false

/-- The desk after a request, also after one that failed. -/
def Writer.serve (w : Writer) (args : Slot → Argument) (d : Desk) : Request → Desk
  | .code slot site phase name => (w.encode slot (args slot) site phase name).desk d
  | .restart => w.restart.desk d

/-- A request binds its argument if it can, and once only. -/
theorem Writer.bindings_serve {w : Writer} {args : Slot → Argument} {d : Desk} (slot : Slot)
    (site : Site) (phase : Phase) (name : String) (hClear : w.context.Clear (args slot).type)
    (hKeeps : d.Keeps w args) (hNodup : (d.bindings.map Prod.fst).Nodup) :
    (∀ s, (w.serve args d (.code slot site phase name)).binding? s =
      if s = slot then (Binding.make w.number w.context (args slot)).toOption
      else d.binding? s) ∧
    ((w.serve args d (.code slot site phase name)).bindings.map Prod.fst).Nodup := by
  obtain ⟨fault, hMake, hNone, hEncode⟩ | ⟨b, e, hMake, -, hBindings, hEncode⟩ :=
    encode_cases slot site phase name hClear hKeeps
  · rw [serve, Encoding.desk_of_error hEncode, hMake]
    refine ⟨fun s => ?_, hNodup⟩
    split
    · rename_i hs
      rw [hs, hNone]
      rfl
    · rfl
  · have hDesk : (w.serve args d (.code slot site phase name)).bindings = e.bindings := by
      cases hCode : b.code site phase name (e.counts b.owner) with
      | ok r =>
          rw [serve, Encoding.desk_of_ok (hEncode.trans (Binding.finish_of_ok hCode))]
          rfl
      | error fault =>
          rw [serve, Encoding.desk_of_error (hEncode.trans (Binding.finish_of_error hCode))]
    rw [hMake, hDesk]
    obtain ⟨hSome, hSame⟩ | ⟨hNone, hNew⟩ := hBindings
    · rw [hSame]
      refine ⟨fun s => ?_, hNodup⟩
      rw [Desk.binding?, hDesk, hSame]
      split
      · rename_i hs
        rw [hs]
        exact hSome
      · rfl
    · rw [hNew]
      refine ⟨fun s => ?_, List.nodup_cons.mpr ⟨fun hMem => ?_, hNodup⟩⟩
      · rw [Desk.binding?, hDesk, hNew]
        exact d.binding?_keep b slot s
      · obtain ⟨p, hp, hKey⟩ := List.mem_map.mp hMem
        have := List.lookup_eq_none_iff.mp hNone p hp
        simp [hKey] at this

/-- What requests have left on a desk: the arguments that were asked for and whose types
can be read are bound, each once. -/
structure Desk.After (d : Desk) (w : Writer) (args : Slot → Argument) (rs : List Request) :
    Prop where
  binding? : ∀ slot, d.binding? slot =
    if rs.any (Request.asks slot) then (Binding.make w.number w.context (args slot)).toOption
    else none
  nodup : (d.bindings.map Prod.fst).Nodup

namespace Desk.After

variable {d e : Desk} {w : Writer} {args : Slot → Argument} {rs : List Request}

theorem keeps (h : d.After w args rs) : d.Keeps w args := by
  intro slot b hb
  rw [h.binding?] at hb
  split at hb
  · cases hMake : Binding.make w.number w.context (args slot) with
    | ok b' => simpa [hMake, Except.toOption] using hb
    | error fault => simp [hMake, Except.toOption] at hb
  · cases hb

theorem of_bindings (h : d.After w args rs) (he : e.bindings = d.bindings) :
    e.After w args rs := by
  refine ⟨fun slot => ?_, he ▸ h.nodup⟩
  rw [← h.binding?, Desk.binding?, Desk.binding?, he]

/-- A request binds its argument if it can and changes no other binding. -/
theorem step (h : d.After w args rs) (hClear : ∀ slot, w.context.Clear (args slot).type)
    (r : Request) :
    (w.serve args d r).After w args (rs ++ [r]) := by
  cases r with
  | restart =>
      have hSame : (w.serve args d .restart).After w args rs := h.of_bindings rfl
      refine ⟨fun s => ?_, hSame.nodup⟩
      rw [hSame.binding?]
      simp [Request.asks]
  | code slot site phase name =>
      obtain ⟨hBinding, hNodup⟩ :=
        Writer.bindings_serve slot site phase name (hClear slot) h.keeps h.nodup
      refine ⟨fun s => ?_, hNodup⟩
      rw [hBinding, h.binding?]
      by_cases hs : s = slot
      · simp [hs, Request.asks]
      · simp [hs, Ne.symm hs, Request.asks]

theorem run (h : d.After w args rs) (hClear : ∀ slot, w.context.Clear (args slot).type)
    (more : List Request) :
    (more.foldl (w.serve args) d).After w args (rs ++ more) := by
  induction more generalizing d rs with
  | nil => simpa using h
  | cons r more ih => simpa using ih (h.step hClear r)

end Desk.After

/-- The code for an argument does not depend on the history of the desk, and a fresh
writer with the same context and count gives the same. The first request for an argument
binds it, if its type can be read, and no later one does. If its type cannot be read, it is
never bound, and all requests for it fail alike. -/
theorem encode_history_independent (w : Writer) (args : Slot → Argument)
    (hClear : ∀ slot, w.context.Clear (args slot).type) (start : Nat → Nat) (rs : List Request) :
    let d := rs.foldl (w.serve args) { counts := start }
    (∀ (slot : Slot) (site : Site) (phase : Phase) (name : String) (fresh : Writer) (copy : Slot),
      fresh.context = w.context →
      (w.encode slot (args slot) site phase name).answer d =
        (fresh.encode copy (args slot) site phase name).answer
          (({} : Desk).setCount fresh.number (d.counts w.number))) ∧
    (d.bindings.map Prod.fst).Nodup ∧
    ∀ slot, match TypeName.parse (w.context.meaning (args slot).type) with
      | .ok type => d.binding? slot =
          if rs.any (Request.asks slot) then some ⟨w.number, w.context, args slot, type⟩ else none
      | .error fault => d.binding? slot = none ∧ ∀ site phase name,
          (w.encode slot (args slot) site phase name).answer d = .error
            (EncodeFault.at .malformed fault.message w.context.source (args slot).position) := by
  intro d
  have hStart : ({ counts := start } : Desk).After w args [] := ⟨fun _ => rfl, List.nodup_nil⟩
  have hAfter : d.After w args rs := hStart.run hClear rs
  refine ⟨fun slot site phase name fresh copy hFresh => ?_, hAfter.nodup, fun slot => ?_⟩
  · have hEmpty : (({} : Desk).setCount fresh.number (d.counts w.number)).Keeps fresh
        fun _ => args slot := by
      intro _ _ h
      cases h
    have hCount : (({} : Desk).setCount fresh.number (d.counts w.number)).counts fresh.number =
        d.counts w.number := if_pos rfl
    rw [Writer.answer_encode (hClear slot) hAfter.keeps,
      Writer.answer_encode (hFresh ▸ hClear slot) hEmpty, hCount, Writer.codeFor_congr hFresh]
  · have hMake : Binding.make w.number w.context (args slot) =
        match TypeName.parse (w.context.meaning (args slot).type) with
        | .ok type => .ok ⟨w.number, w.context, args slot, type⟩
        | .error fault => .error
            (EncodeFault.at .malformed fault.message w.context.source (args slot).position) := rfl
    have hBinding := hAfter.binding? slot
    split
    · rename_i type hType
      rw [hBinding, hMake, hType]
      rfl
    · rename_i fault hType
      rw [hType] at hMake
      refine ⟨?_, fun site phase name => ?_⟩
      · rw [hBinding, hMake]
        exact ite_self none
      · rw [Writer.answer_encode (hClear slot) hAfter.keeps, Writer.codeFor, hMake]
        rfl

/-- Identifiers in an array, a type that cannot be read, and a number that does not come
back. -/
private def mixedArguments : Slot → Argument
  | ⟨_, some 0⟩ => ⟨.inout, "UUID[]", "ids", none⟩
  | ⟨_, some 1⟩ => ⟨.into, "List<int", "names", none⟩
  | _ => ⟨.out, "int", "count", none⟩

private def mixedRequests : List Request :=
  [.code ⟨0, some 0⟩ .dispatcher .pre "_arg0", .code ⟨0, some 1⟩ .proxy .pre "names",
    .code ⟨0, some 2⟩ .proxy .post "count", .code ⟨0, some 0⟩ .proxy .pre "ids", .restart,
    .code ⟨0, some 1⟩ .dispatcher .pre "_arg1", .code ⟨0, some 0⟩ .dispatcher .post "_arg0"]

theorem encode_history_independent_mixed :
    let d := mixedRequests.foldl (Writer.serve ⟨0, {}⟩ mixedArguments) {}
    d.counts 0 = 1 ∧
    (∀ k, (Writer.encode ⟨0, {}⟩ ⟨0, some k⟩ (mixedArguments ⟨0, some k⟩) .proxy .post
        "x").answer d =
      (Writer.encode ⟨7, {}⟩ ⟨0, none⟩ (mixedArguments ⟨0, some k⟩) .proxy .post "x").answer
        (({} : Desk).setCount 7 1)) ∧
    (d.bindings.map Prod.fst) = [⟨0, some 2⟩, ⟨0, some 0⟩] := by
  have hCount : (mixedRequests.foldl (Writer.serve ⟨0, {}⟩ mixedArguments) {}).counts 0 = 1 := by
    decide +kernel
  have hAnswers := encode_history_independent ⟨0, {}⟩ mixedArguments
    (fun _ => Context.clear_of_obstacle? (fun _ _ => rfl) _) (fun _ => 0) mixedRequests
  refine ⟨hCount, fun k => ?_, by decide +kernel⟩
  have hFresh := hAnswers.1 ⟨0, some k⟩ .proxy .post "x" ⟨7, {}⟩ ⟨0, none⟩ rfl
  exact hCount ▸ hFresh

end BinderIdl
