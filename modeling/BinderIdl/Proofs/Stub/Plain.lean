import BinderIdl.Proofs.Interface.Plain
import BinderIdl.Proofs.Stub.ParcelOrder

/-! The code of a plain interface is plain. A desk that served only one interface has only
bindings of its arguments, each call keeps it so, and so every fragment that a pass gives
is the code of a plain binding. -/
namespace BinderIdl

open Java

theorem Interface.Plain.argument {i : Interface} {slot : Slot} {a : Argument} (h : i.Plain)
    (ha : i.argument? slot = some a) : a.Plain := by
  obtain ⟨m, hMethod, ha⟩ := Option.bind_eq_some_iff.mp ha
  have hPlain := h.methods m (List.mem_of_getElem? hMethod)
  split at ha
  · exact hPlain.arguments a (List.mem_of_getElem? ha)
  · exact hPlain.result a ha

/-- Every binding of the desk is one of the argument of the interface in its slot, in a
context with the interface's type parameters. -/
def Desk.Serves (d : Desk) (i : Interface) : Prop :=
  ∀ slot b, d.binding? slot = some b → ∃ a owner context, i.argument? slot = some a ∧
    context.typeParameters = i.typeParameters ∧ Binding.make owner context a = .ok b

theorem Desk.serves_empty (i : Interface) : Desk.Serves {} i := nofun

section Calls

variable {w : Writer} {i : Interface} {d e : Desk} {c : Call} {cs : List Call}

/-- A call keeps to the interface of its argument. -/
theorem Writer.Encoded.serves (hContext : w.context.typeParameters = i.typeParameters)
    (hServes : d.Serves i) (hSlot : i.argument? c.slot = some c.argument)
    (h : w.Encoded c.slot c.argument c.site c.phase c.name d c.code e) : e.Serves i := by
  obtain ⟨b, count, hBinds, -, -⟩ := h
  intro slot b' hb'
  rw [hBinds.bindings] at hb'
  by_cases hs : slot = c.slot
  · rw [if_pos hs] at hb'
    cases hb'
    rw [hs]
    obtain hOld | ⟨-, hNew⟩ := hBinds.origin
    · exact hServes c.slot b hOld
    · exact ⟨c.argument, w.number, w.context, hSlot, hContext, hNew⟩
  · rw [if_neg hs] at hb'
    exact hServes slot b' hb'

/-- The bindings of a desk that serves a plain interface are plain. -/
theorem Desk.Serves.plain {slot : Slot} {b : Binding} (h : d.Serves i) (hPlain : i.Plain)
    (hb : d.binding? slot = some b) : b.Plain := by
  obtain ⟨a, owner, context, ha, hContext, hMake⟩ := h slot b hb
  refine Binding.plain_make hMake (hPlain.argument ha).type fun p hp => ?_
  rw [hContext] at hp
  exact (hPlain.typeParameters p hp).bounds

theorem Writer.Encoded.plain (hPlain : i.Plain) (hServes : e.Serves i) (hName : Java.Plain c.name)
    (h : w.Encoded c.slot c.argument c.site c.phase c.name d c.code e) : c.code.Plain := by
  obtain ⟨b, count, hBinds, hCode, -⟩ := h
  have hBinding : e.binding? c.slot = some b := by rw [hBinds.bindings, if_pos rfl]
  exact (hServes.plain hPlain hBinding).code hName hCode

/-- What the calls of a pass give is plain. -/
theorem Calls.plain (h : Calls w d cs e) (hPlain : i.Plain)
    (hContext : w.context.typeParameters = i.typeParameters) (hServes : d.Serves i)
    (hSlots : ∀ c ∈ cs, i.argument? c.slot = some c.argument)
    (hNames : ∀ c ∈ cs, Java.Plain c.name) : ∀ c ∈ cs, c.code.Plain := by
  induction h with
  | nil => simp
  | cons hCall hRest ih =>
      rw [List.forall_mem_cons] at hSlots hNames ⊢
      have hNext := hCall.serves hContext hServes hSlots.1
      exact ⟨hCall.plain hPlain hNext hNames.1, ih hNext hSlots.2 hNames.2⟩

end Calls

structure ArgumentCode.Plain (a : ArgumentCode) : Prop where
  argument : a.argument.Plain
  receive : a.receive.Plain
  send : a.send.Plain
  giveBack : a.giveBack.Plain
  takeBack : a.takeBack.Plain

structure ResultCode.Plain (r : ResultCode) : Prop where
  argument : r.argument.Plain
  giveBack : r.giveBack.Plain
  takeBack : r.takeBack.Plain

/-- The code of a method whose words and fragments are plain. -/
structure MethodCode.Plain (m : MethodCode) : Prop where
  method : m.method.Plain
  transaction : Java.Plain m.transaction
  arguments : ∀ a ∈ m.arguments, a.Plain
  result : ∀ r ∈ m.result, r.Plain

theorem plain_argumentLocal (index : Nat) : Java.Plain (argumentLocal index) :=
  plain_append.mpr ⟨plain_literal rfl, plain_toString index⟩

theorem plain_transactionName {name : String} (h : Java.Plain name) (earlier : Nat) :
    Java.Plain (transactionName name earlier) := by
  refine plain_append.mpr ⟨plain_append.mpr ⟨plain_literal rfl, h⟩, ?_⟩
  by_cases hFirst : earlier = 0
  · rw [if_pos hFirst]
    exact plain_literal rfl
  · rw [if_neg hFirst]
    exact plain_append.mpr ⟨plain_literal rfl, plain_toString earlier⟩

theorem plain_transactionNamesAfter (seen : List String) {names : List String}
    (h : ∀ name ∈ names, Java.Plain name) :
    ∀ t ∈ transactionNamesAfter seen names, Java.Plain t := by
  induction names generalizing seen with
  | nil => simp [transactionNamesAfter]
  | cons name names ih =>
      rw [List.forall_mem_cons] at h
      rw [transactionNamesAfter, List.forall_mem_cons]
      exact ⟨plain_transactionName h.1 _, ih _ h.2⟩

theorem Interface.Plain.transactions {i : Interface} (h : i.Plain) :
    ∀ t ∈ i.transactions, Java.Plain t := by
  apply plain_transactionNamesAfter
  rw [List.forall_mem_map]
  exact fun m hm => (h.methods m hm).name

namespace MethodCode

variable {i : Interface} {ms : List MethodCode} {m : MethodCode}

/-- Every argument of the code is one of its method. -/
theorem Complete.mem_arguments (h : m.Complete) :
    ∀ a ∈ m.arguments, a.argument ∈ m.method.arguments := by
  intro a ha
  have hEntry : (a.argument, a.index) ∈ m.method.arguments.zipIdx :=
    h.arguments ▸ List.mem_map_of_mem ha
  exact List.mem_of_getElem? (List.mk_mem_zipIdx_iff_getElem?.mp hEntry)

theorem Complete.mem_result (h : m.Complete) : ∀ r ∈ m.result, r.argument ∈ m.method.result := by
  intro r hr
  rw [← h.result, hr]
  rfl

theorem Complete.plain_names (h : m.Complete) (hPlain : m.method.Plain) :
    ∀ c ∈ m.calls, Java.Plain c.name := by
  intro c hc
  simp only [calls, List.mem_append, List.mem_flatMap, argumentCalls, ResultCode.calls,
    List.mem_cons, List.not_mem_nil, or_false] at hc
  obtain (⟨a, ha, rfl | rfl⟩ | ⟨r, hr, rfl | rfl⟩) | ⟨a, ha, rfl | rfl⟩ := hc
  · exact plain_argumentLocal a.index
  · exact (hPlain.arguments _ (h.mem_arguments a ha)).name
  · exact (hPlain.result _ (h.mem_result r (Option.mem_toList.mp hr))).name
  · exact (hPlain.result _ (h.mem_result r (Option.mem_toList.mp hr))).name
  · exact plain_argumentLocal a.index
  · exact (hPlain.arguments _ (h.mem_arguments a ha)).name

/-- Complete code is plain if its method is and what its calls gave is. -/
theorem Complete.plain (h : m.Complete) (hPlain : m.method.Plain)
    (hTransaction : Java.Plain m.transaction) (hCodes : ∀ c ∈ m.calls, c.code.Plain) : m.Plain := by
  simp only [calls, List.forall_mem_append, List.forall_mem_flatMap, argumentCalls,
    ResultCode.calls, List.forall_mem_cons] at hCodes
  obtain ⟨⟨hRequest, hResult⟩, hReply⟩ := hCodes
  refine ⟨hPlain, hTransaction, fun a ha => ?_, fun r hr => ?_⟩
  · obtain ⟨hReceive, hSend, -⟩ := hRequest a ha
    obtain ⟨hGive, hTake, -⟩ := hReply a ha
    exact ⟨hPlain.arguments _ (h.mem_arguments a ha), hReceive, hSend, hGive, hTake⟩
  · obtain ⟨hGive, hTake, -⟩ := hResult r (Option.mem_toList.mpr hr)
    exact ⟨hPlain.result _ (h.mem_result r hr), hGive, hTake⟩

theorem Covers.mem_methods (h : Covers ms i) (hMem : m ∈ ms) :
    m.method ∈ i.methods ∧ m.transaction ∈ i.transactions := by
  have hEntry : ((m.method, m.transaction), m.index) ∈ (i.methods.zip i.transactions).zipIdx :=
    h.methods ▸ List.mem_map_of_mem hMem
  obtain ⟨hMethod, hTransaction⟩ :=
    List.getElem?_zip_eq_some.mp (List.mk_mem_zipIdx_iff_getElem?.mp hEntry)
  exact ⟨List.mem_of_getElem? hMethod, List.mem_of_getElem? hTransaction⟩

end MethodCode

/-- The code of a plain interface is plain. -/
theorem Writer.plain_of_encodeMethods {w : Writer} {i : Interface} {d e : Desk}
    {ms : List MethodCode} (hPlain : i.Plain)
    (hContext : w.context.typeParameters = i.typeParameters) (hServes : d.Serves i)
    (h : w.encodeMethods i d = .ok ms e) : ∀ m ∈ ms, m.Plain := by
  obtain ⟨hCovers, e', hCalls, -⟩ := (w.encodeMethods_leads i d).of_ok h
  have hCodes := hCalls.plain hPlain hContext hServes
    (List.forall_mem_flatMap.mpr fun m hm => hCovers.argument? hm)
    (List.forall_mem_flatMap.mpr fun m hm =>
      (hCovers.complete m hm).plain_names (hPlain.methods _ (hCovers.mem_methods hm).1))
  intro m hm
  obtain ⟨hMethod, hTransaction⟩ := hCovers.mem_methods hm
  exact (hCovers.complete m hm).plain (hPlain.methods _ hMethod)
    (hPlain.transactions _ hTransaction) fun c hc => hCodes c (List.mem_flatMap.mpr ⟨m, hm, hc⟩)

end BinderIdl
