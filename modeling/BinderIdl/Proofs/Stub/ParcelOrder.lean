import BinderIdl.Proofs.Interface.Checked
import BinderIdl.Proofs.Marshal.Independence
import BinderIdl.Proofs.Marshal.Reads
import BinderIdl.Proofs.Stub.Calls

/-! The order of a method's parcels. On the way to the callee, what the proxy sends
for an argument is empty exactly if the dispatcher takes nothing for it; on the
way back, both ends handle the result and then the arguments that come back. So
leaving out empty code never shifts one end against the other. -/
namespace BinderIdl

open Java

/-- What is not only sent has something done with it after the call, at both ends. -/
theorem Operation.exists_post (site : Site) {direction : Direction} (h : direction ≠ .into) :
    ∃ operation, of? site direction .post = some operation ∧ operation ≠ .writeBufferInfo := by
  cases direction with
  | into => exact absurd rfl h
  | out | inout | result => cases site <;> exact ⟨_, rfl, by decide⟩

namespace Binding

variable {b : Binding} {x y : String} {m n m' n' : Nat} {f g : Fragment}

/-- Code is empty exactly if it is nothing. -/
theorem text_of_code {site : Site} {phase : Phase} (h : b.code site phase x n = .ok (f, n')) :
    f.text = "" ↔ f.isNothing = true := by
  have hEmit := emit?_cell_of_code h
  obtain hCell | hTidy := b.scheme.cell_cases b.declared b.argument.direction site phase
  · rw [hCell] at hEmit
    cases hEmit
    exact ⟨fun _ => rfl, fun _ => rfl⟩
  · have hCode := hTidy.hasCode hEmit
    simp [Fragment.text_of_hasCode hCode, Fragment.isNothing_of_hasCode hCode]

/-- What comes back has code at both ends. -/
theorem isNothing_of_post {site : Site} (h : b.code site .post x n = .ok (f, n')) :
    f.isNothing = decide (b.argument.direction = .into) := by
  by_cases hInto : b.argument.direction = .into
  · have hEmit := emit?_cell_of_code h
    rw [hInto] at hEmit
    rw [decide_eq_true hInto]
    cases site <;> cases hEmit <;> rfl
  · obtain ⟨operation, hOperation, hNot⟩ := Operation.exists_post site hInto
    have hTidy := b.scheme.tidy_perform b.declared (.of site .post) hNot
    rw [decide_eq_false hInto]
    exact Fragment.isNothing_of_hasCode (hTidy.hasCode (emit?_of_code operation hOperation h))

/-- The proxy sends something exactly if the dispatcher takes something. -/
theorem isNothing_of_pre (hReceive : b.code .dispatcher .pre x n = .ok (f, n'))
    (hSend : b.code .proxy .pre y m = .ok (g, m')) : g.isNothing = !f.reads .data := by
  cases hDirection : b.argument.direction with
  | into | inout =>
      have hEmit := emit?_of_code .create (by rw [hDirection]; rfl) hReceive
      have hReads : f.reads .data = true := Scheme.reads_of_create hEmit
      have hEmit := emit?_of_code .write (by rw [hDirection]; rfl) hSend
      have hCode := (b.scheme.tidy_write _).hasCode hEmit
      rw [Fragment.isNothing_of_hasCode hCode, hReads, Bool.not_true]
  | out =>
      have hEmit := emit?_of_code .createBuffer (by rw [hDirection]; rfl) hReceive
      have hReads : f.reads .data = b.scheme.sendsLength := Scheme.reads_of_createBuffer hEmit
      have hEmit := emit?_of_code .writeBufferInfo (by rw [hDirection]; rfl) hSend
      rw [hReads]
      cases hLength : b.scheme.sendsLength with
      | true =>
          have hCode := (Scheme.tidy_writeBufferInfo _ hLength).hasCode hEmit
          exact Fragment.isNothing_of_hasCode hCode
      | false =>
          rw [Scheme.perform, Scheme.writeBufferInfo_eq_nothing _ hLength] at hEmit
          cases hEmit
          rfl
  | result =>
      have hReceive := emit?_cell_of_code hReceive
      have hSend := emit?_cell_of_code hSend
      rw [hDirection] at hReceive hSend
      cases hReceive
      cases hSend
      rfl

end Binding

/-- The argument of an interface in a slot. -/
def Interface.argument? (i : Interface) (slot : Slot) : Option Argument :=
  i.methods[slot.method]?.bind fun m =>
    match slot.argument with
    | some k => m.arguments[k]?
    | none => m.result

/-- A desk has no binding of another argument in a slot of the interface. A desk that
was used for nothing, or only for this interface, is such a desk. -/
def Desk.Suits (d : Desk) (i : Interface) : Prop :=
  ∀ slot a b, i.argument? slot = some a → d.binding? slot = some b → b.argument = a

/-- What a call gave is the code of the binding that the desk has for its slot. -/
def Call.Stands (c : Call) (e : Desk) : Prop :=
  ∃ b n n', e.binding? c.slot = some b ∧ b.argument = c.argument ∧
    b.code c.site c.phase c.name n = .ok (c.code, n')

section Calls

variable {w : Writer} {i : Interface} {d e : Desk} {cs : List Call} {c : Call}

/-- A call binds its own slot, to its own argument, and leaves other bindings. -/
theorem Writer.Encoded.stands (hSuits : d.Suits i) (hSlot : i.argument? c.slot = some c.argument)
    (h : w.Encoded c.slot c.argument c.site c.phase c.name d c.code e) :
    c.Stands e ∧ e.Suits i ∧ ∀ slot b, d.binding? slot = some b → e.binding? slot = some b := by
  obtain ⟨b, count, hBinds, hCode, -⟩ := h
  have hArgument : b.argument = c.argument := by
    obtain hOld | ⟨-, hNew⟩ := hBinds.origin
    · exact hSuits _ _ _ hSlot hOld
    · exact (Binding.of_make hNew).2
  refine ⟨⟨b, _, _, by rw [hBinds.bindings, if_pos rfl], hArgument, hCode⟩, ?_, ?_⟩
  · intro slot a b' ha hb'
    rw [hBinds.bindings] at hb'
    by_cases hs : slot = c.slot
    · rw [if_pos hs] at hb'
      cases hb'
      rw [hs, hSlot] at ha
      exact hArgument.trans (Option.some.inj ha)
    · rw [if_neg hs] at hb'
      exact hSuits slot a b' ha hb'
  · intro slot b' hb'
    rw [hBinds.bindings]
    by_cases hs : slot = c.slot
    · rw [if_pos hs]
      obtain hOld | ⟨hNone, -⟩ := hBinds.origin
      · rw [← hOld, ← hs, hb']
      · rw [hs, hNone] at hb'
        cases hb'
    · rw [if_neg hs, hb']

/-- At the end of a pass, what its calls gave is the code of the bindings. -/
theorem Calls.stands (h : Calls w d cs e) (hSuits : d.Suits i)
    (hSlots : ∀ c ∈ cs, i.argument? c.slot = some c.argument) :
    (∀ c ∈ cs, c.Stands e) ∧ e.Suits i ∧
      ∀ slot b, d.binding? slot = some b → e.binding? slot = some b := by
  induction h with
  | nil => exact ⟨by simp, hSuits, fun _ _ hb => hb⟩
  | cons hCall hRest ih =>
      obtain ⟨hStands, hNext, hKept⟩ := hCall.stands hSuits (hSlots _ List.mem_cons_self)
      obtain ⟨hAll, hLast, hMore⟩ := ih hNext fun c hc => hSlots c (List.mem_cons_of_mem _ hc)
      refine ⟨fun c hc => ?_, hLast, fun slot b hb => hMore slot b (hKept slot b hb)⟩
      obtain rfl | hc := List.mem_cons.mp hc
      · obtain ⟨b, n, n', hBinding, hCode⟩ := hStands
        exact ⟨b, n, n', hMore _ _ hBinding, hCode⟩
      · exact hAll c hc

end Calls

namespace MethodCode

variable {i : Interface} {ms : List MethodCode} {m : MethodCode}

/-- Every call of a pass is for the argument in its slot. -/
theorem Covers.argument? (h : Covers ms i) (hMem : m ∈ ms) :
    ∀ c ∈ m.calls, i.argument? c.slot = some c.argument := by
  have hMethod : i.methods[m.index]? = some m.method := by
    have hEntry : ((m.method, m.transaction), m.index) ∈ (i.methods.zip i.transactions).zipIdx :=
      h.methods ▸ List.mem_map_of_mem hMem
    exact (List.getElem?_zip_eq_some.mp (List.mk_mem_zipIdx_iff_getElem?.mp hEntry)).1
  obtain ⟨hArguments, hResult⟩ := h.complete m hMem
  have hArgument : ∀ a ∈ m.arguments,
      i.argument? ⟨m.index, some a.index⟩ = some a.argument := by
    intro a ha
    have hEntry : (a.argument, a.index) ∈ m.method.arguments.zipIdx :=
      hArguments ▸ List.mem_map_of_mem ha
    simpa [Interface.argument?, hMethod] using List.mk_mem_zipIdx_iff_getElem?.mp hEntry
  have hReturned : ∀ r ∈ m.result.toList, i.argument? ⟨m.index, none⟩ = some r.argument := by
    intro r hr
    rw [Option.mem_toList.mp hr] at hResult
    simpa [Interface.argument?, hMethod] using hResult.symm
  intro c hc
  simp only [calls, List.mem_append, List.mem_flatMap, argumentCalls, ResultCode.calls,
    List.mem_cons, List.not_mem_nil, or_false] at hc
  obtain (⟨a, ha, rfl | rfl⟩ | ⟨r, hr, rfl | rfl⟩) | ⟨a, ha, rfl | rfl⟩ := hc
  · exact hArgument a ha
  · exact hArgument a ha
  · exact hReturned r hr
  · exact hReturned r hr
  · exact hArgument a ha
  · exact hArgument a ha

end MethodCode

/-- What a step does with a parcel, on the way to the callee or on the way back. -/
inductive Transfer (β : Type) where
  | request (part : β)
  | reply (code : Fragment)

/-- What a step of the dispatcher does with a parcel. -/
def DispatchStep.transfer? : DispatchStep → Option (Transfer ArgumentCode)
  | receive a => some (.request a)
  | giveBack code => some (.reply code)
  | _ => none

/-- What a step of the proxy does with a parcel. -/
def RequestStep.transfer? : RequestStep → Option (Transfer Fragment)
  | send code => some (.request code)
  | result _ _ code | takeBack code => some (.reply code)
  | _ => none

section Steps

variable {α β γ : Type} {l : List α} {f : α → β} {h : α → γ}

theorem filterMap_map_some {g : β → Option γ} (hSome : ∀ a, g (f a) = some (h a)) :
    (l.map f).filterMap g = l.map h := by
  rw [List.filterMap_map, show g ∘ f = some ∘ h from funext hSome, List.filterMap_eq_map]

theorem flatMap_map_singleton {g : β → List γ} (hSingle : ∀ a, g (f a) = [h a]) :
    (l.map f).flatMap g = l.map h := by
  rw [List.flatMap_map, List.map_eq_flatMap, funext hSingle]

end Steps

namespace MethodCode

/-- What the dispatcher sends back, the result first. -/
def allGivenBack (m : MethodCode) : List Fragment :=
  present (m.result.toList.map ResultCode.giveBack) ++ m.givenBack

/-- What the dispatcher does between receiving the arguments and sending something back.
None of it has code for an argument. -/
def callSteps (m : MethodCode) : List DispatchStep :=
  (if m.method.isMainthread then [.task (boxed m.method.returnType) m.taskBody] else []) ++
    m.result.toList.map (fun r => .declareResult m.method.returnType r.argument.name) ++
    [if m.method.isLocalthrow || m.method.isOneway then .unguarded m.call else .guarded m.call] ++
    (if m.method.isOneway then [] else [.confirm])

theorem dispatch_eq (m : MethodCode) : m.dispatch =
    [.enforce] ++ m.arguments.map .receive ++ m.callSteps ++ m.allGivenBack.map .giveBack ++
      [.finish] := by
  rw [dispatch, callSteps, allGivenBack]
  cases m.result <;> simp [present]

theorem filterMap_callSteps (m : MethodCode) :
    m.callSteps.filterMap DispatchStep.transfer? = [] := by
  refine List.filterMap_eq_nil_iff.mpr fun step hStep => ?_
  simp only [callSteps, List.mem_append, List.mem_map, List.mem_ite_nil_right,
    List.mem_ite_nil_left, List.mem_singleton] at hStep
  obtain ((⟨-, rfl⟩ | ⟨r, -, rfl⟩) | rfl) | ⟨-, rfl⟩ := hStep
  · rfl
  · rfl
  · split <;> rfl
  · rfl

/-- The dispatcher receives all arguments and then sends back what it has. -/
theorem filterMap_dispatch (m : MethodCode) :
    m.dispatch.filterMap DispatchStep.transfer? =
      m.arguments.map .request ++ m.allGivenBack.map .reply := by
  have hReceive : (m.arguments.map DispatchStep.receive).filterMap DispatchStep.transfer? =
      m.arguments.map .request := filterMap_map_some fun _ => rfl
  have hGive : (m.allGivenBack.map DispatchStep.giveBack).filterMap DispatchStep.transfer? =
      m.allGivenBack.map .reply := filterMap_map_some fun _ => rfl
  simp only [dispatch_eq, List.filterMap_append, filterMap_callSteps, hReceive, hGive]
  simp [DispatchStep.transfer?, List.filterMap_cons]

/-- What the proxy takes back, the result first. -/
def allTakenBack (m : MethodCode) : List Fragment :=
  if m.method.isOneway then [] else m.result.toList.map ResultCode.takeBack ++ m.takenBack

/-- What the proxy does between sending the arguments and taking something back. -/
def transactSteps (m : MethodCode) : List RequestStep :=
  if m.method.isOneway then [.post m.transaction] else [.transact m.transaction, .rethrow]

/-- What the proxy does with the answer. -/
def answerSteps (m : MethodCode) : List RequestStep :=
  if m.method.isOneway then []
  else m.result.toList.map (fun r => .result m.method.returnType r.argument.name r.takeBack) ++
    m.takenBack.map .takeBack ++ m.result.toList.map (fun r => .give r.argument.name)

theorem request_eq (m : MethodCode) :
    m.request = [.token] ++ m.sent.map .send ++ m.transactSteps ++ m.answerSteps := by
  rw [request, transactSteps, answerSteps]
  cases m.method.isOneway with
  | true => simp
  | false => cases hr : m.result <;> simp [response, hr]

/-- The proxy sends what it has to send and then takes back what there is. -/
theorem filterMap_request (m : MethodCode) :
    m.request.filterMap RequestStep.transfer? =
      m.sent.map .request ++ m.allTakenBack.map .reply := by
  have hSend : (m.sent.map RequestStep.send).filterMap RequestStep.transfer? =
      m.sent.map .request := filterMap_map_some fun _ => rfl
  have hTake : (m.takenBack.map RequestStep.takeBack).filterMap RequestStep.transfer? =
      m.takenBack.map .reply := filterMap_map_some fun _ => rfl
  simp only [request_eq, transactSteps, answerSteps, allTakenBack, List.filterMap_append, hSend]
  cases m.method.isOneway with
  | true => simp [RequestStep.transfer?, List.filterMap_cons]
  | false =>
      cases m.result <;> simp [RequestStep.transfer?, List.filterMap_cons, hTake]

/-- The lines of the dispatcher's case, in front of and behind those of the call. -/
theorem caseLines_eq (m : MethodCode) : m.caseLines =
    [lineAt 4 ("case " ++ m.transaction ++ ": \x7b"),
      lineAt 5 "data.enforceInterface(DESCRIPTOR);"] ++
    m.arguments.map (fun a =>
      fragmentAt 5 ("final " ++ a.argument.type ++ " " ++ a.localName) a.receive) ++
    m.callSteps.flatMap DispatchStep.lines ++ m.allGivenBack.map (fragmentAt 5 "") ++
    [lineAt 5 "return true;", lineAt 4 "\x7d"] := by
  have hReceive : (m.arguments.map DispatchStep.receive).flatMap DispatchStep.lines =
      m.arguments.map fun a =>
        fragmentAt 5 ("final " ++ a.argument.type ++ " " ++ a.localName) a.receive :=
    flatMap_map_singleton fun _ => rfl
  have hGive : (m.allGivenBack.map DispatchStep.giveBack).flatMap DispatchStep.lines =
      m.allGivenBack.map (fragmentAt 5 "") := flatMap_map_singleton fun _ => rfl
  simp only [MethodCode.caseLines, dispatch_eq, List.flatMap_append, hReceive, hGive]
  simp [DispatchStep.lines, DispatchStep.depth]

/-- The lines of the proxy's method up to the one that says for which interface it is. -/
def proxyOpening (m : MethodCode) : List String :=
  ["", lineAt 3 "@Override", lineAt 3 (m.signature ++ " \x7b"),
    lineAt 4 "final android.os.Parcel _data = android.os.Parcel.obtain();"] ++
  (if m.method.isOneway then []
    else [lineAt 4 "final android.os.Parcel _reply = android.os.Parcel.obtain();"]) ++
  [lineAt 4 "try \x7b", lineAt 5 "_data.writeInterfaceToken(DESCRIPTOR);"]

/-- The lines of the proxy's method that recycle its parcels. -/
def proxyClosing (m : MethodCode) : List String :=
  [lineAt 4 "\x7d finally \x7b"] ++
  (if m.method.isOneway then [] else [lineAt 5 "_reply.recycle();"]) ++
  [lineAt 5 "_data.recycle();", lineAt 4 "\x7d", lineAt 3 "\x7d"]

/-- The lines of the proxy's method, in front of and behind those of the call. -/
theorem proxyLines_eq (m : MethodCode) : m.proxyLines =
    m.proxyOpening ++ m.sent.map (fragmentAt 5 "") ++
      m.transactSteps.flatMap RequestStep.lines ++ m.answerSteps.flatMap RequestStep.lines ++
      m.proxyClosing := by
  have hSend : (m.sent.map RequestStep.send).flatMap RequestStep.lines =
      m.sent.map (fragmentAt 5 "") := flatMap_map_singleton fun _ => rfl
  simp only [MethodCode.proxyLines, request_eq, List.flatMap_append, hSend, proxyOpening,
    proxyClosing]
  cases m.method.isOneway <;> simp [RequestStep.lines, RequestStep.depth]

/-- The arguments that come back. -/
def returned (m : MethodCode) : List ArgumentCode :=
  m.arguments.filter fun a => a.argument.direction ≠ .into

/-- The arguments for which the dispatcher takes something. -/
def taken (m : MethodCode) : List ArgumentCode :=
  m.arguments.filter fun a => a.receive.reads .data

/-- The lines of a case that receives all arguments and, behind the call, sends the result and
then what comes back. -/
def orderedCase (m : MethodCode) : List String :=
  [lineAt 4 ("case " ++ m.transaction ++ ": \x7b"),
    lineAt 5 "data.enforceInterface(DESCRIPTOR);"] ++
  m.arguments.map (fun a =>
    fragmentAt 5 ("final " ++ a.argument.type ++ " " ++ a.localName) a.receive) ++
  m.callSteps.flatMap DispatchStep.lines ++
  (m.result.toList.map ResultCode.giveBack ++ m.returned.map ArgumentCode.giveBack).map
    (fragmentAt 5 "") ++
  [lineAt 5 "return true;", lineAt 4 "\x7d"]

/-- The lines of a proxy's method that sends what the dispatcher takes and, behind the call,
takes the result and then what comes back. -/
def orderedProxy (m : MethodCode) : List String :=
  m.proxyOpening ++ (m.taken.map ArgumentCode.send).map (fragmentAt 5 "") ++
  m.transactSteps.flatMap RequestStep.lines ++
  m.result.toList.map (fun r =>
    fragmentAt 5 ("final " ++ m.method.returnType ++ " " ++ r.argument.name) r.takeBack) ++
  (m.returned.map ArgumentCode.takeBack).map (fragmentAt 5 "") ++
  m.result.toList.map (fun r => lineAt 5 ("return " ++ r.argument.name ++ ";")) ++
  m.proxyClosing

/-- Both ends of a call handle what travels in one order. -/
structure InOrder (m : MethodCode) : Prop where
  /-- The dispatcher receives the arguments, then sends the result and what comes back. -/
  dispatch : m.dispatch.filterMap DispatchStep.transfer? = m.arguments.map .request ++
    (m.result.toList.map ResultCode.giveBack ++ m.returned.map ArgumentCode.giveBack).map .reply
  /-- The proxy sends what the dispatcher takes, then takes what the dispatcher sends. -/
  request : m.request.filterMap RequestStep.transfer? =
    (m.taken.map ArgumentCode.send).map .request ++
      (m.result.toList.map ResultCode.takeBack ++ m.returned.map ArgumentCode.takeBack).map .reply
  caseLines : m.caseLines = m.orderedCase
  proxyLines : m.proxyLines = m.orderedProxy
  /-- Only a method that gives nothing back has no result. -/
  result : m.result.isSome = !m.method.isVoid
  send_text : ∀ a ∈ m.arguments, a.send.text ≠ "" ↔ a.receive.reads .data = true
  back_text : ∀ a ∈ m.arguments, (a.giveBack.text ≠ "" ↔ a.argument.direction ≠ .into) ∧
    (a.takeBack.text ≠ "" ↔ a.argument.direction ≠ .into)
  result_text : ∀ r ∈ m.result, r.giveBack.text ≠ "" ∧ r.takeBack.text ≠ ""

end MethodCode

/-- Which of the code for an argument is nothing. -/
structure ArgumentCode.Agrees (a : ArgumentCode) : Prop where
  send : a.send.isNothing = !a.receive.reads .data
  giveBack : a.giveBack.isNothing = decide (a.argument.direction = .into)
  takeBack : a.takeBack.isNothing = decide (a.argument.direction = .into)
  text : ∀ f ∈ [a.send, a.giveBack, a.takeBack], f.text = "" ↔ f.isNothing = true

namespace MethodCode

variable {m : MethodCode} {e : Desk}

theorem mem_calls_of_request {a : ArgumentCode} (ha : a ∈ m.arguments) :
    ∀ c ∈ argumentCalls m.index .pre (a.argument, a.index) (a.receive, a.send), c ∈ m.calls :=
  fun _ hc => List.mem_append_left _ (List.mem_append_left _ (List.mem_flatMap.mpr ⟨a, ha, hc⟩))

theorem agrees_of_stands (h : ∀ c ∈ m.calls, c.Stands e) {a : ArgumentCode} (ha : a ∈ m.arguments) :
    a.Agrees := by
  have hPre : ∀ c ∈ argumentCalls m.index .pre (a.argument, a.index) (a.receive, a.send),
      c.Stands e := fun c hc => h c (mem_calls_of_request ha c hc)
  have hPost : ∀ c ∈ argumentCalls m.index .post (a.argument, a.index) (a.giveBack, a.takeBack),
      c.Stands e := fun c hc => h c (List.mem_append_right _ (List.mem_flatMap.mpr ⟨a, ha, hc⟩))
  obtain ⟨b, _, _, hb, hArgument, hReceive⟩ := hPre _ List.mem_cons_self
  obtain ⟨b', _, _, hb', -, hSend⟩ := hPre _ (List.mem_cons_of_mem _ List.mem_cons_self)
  obtain ⟨g, _, _, -, hGiver, hGive⟩ := hPost _ List.mem_cons_self
  obtain ⟨t, _, _, -, hTaker, hTake⟩ := hPost _ (List.mem_cons_of_mem _ List.mem_cons_self)
  -- The two ends have their code from one binding.
  obtain rfl : b = b' := Option.some.inj (hb.symm.trans hb')
  refine ⟨Binding.isNothing_of_pre hReceive hSend, ?_, ?_, ?_⟩
  · rw [← show g.argument = a.argument from hGiver]
    exact Binding.isNothing_of_post hGive
  · rw [← show t.argument = a.argument from hTaker]
    exact Binding.isNothing_of_post hTake
  · intro f hf
    simp only [List.mem_cons, List.not_mem_nil, or_false] at hf
    obtain rfl | rfl | rfl := hf
    · exact Binding.text_of_code hSend
    · exact Binding.text_of_code hGive
    · exact Binding.text_of_code hTake

/-- The result has code at both ends. -/
theorem result_of_stands (h : ∀ c ∈ m.calls, c.Stands e) {r : ResultCode} (hr : r ∈ m.result)
    (hDirection : r.argument.direction = .result) :
    r.giveBack.isNothing = false ∧ r.giveBack.text ≠ "" ∧ r.takeBack.text ≠ "" := by
  have hBoth : ∀ c ∈ r.calls m.index, c.Stands e := fun c hc => h c (List.mem_append_left _
    (List.mem_append_right _ (List.mem_flatMap.mpr ⟨r, Option.mem_toList.mpr hr, hc⟩)))
  obtain ⟨g, _, _, -, hGiver, hGive⟩ := hBoth _ List.mem_cons_self
  obtain ⟨t, _, _, -, hTaker, hTake⟩ := hBoth _ (List.mem_cons_of_mem _ List.mem_cons_self)
  have hGiven : r.giveBack.isNothing = false := by
    rw [Binding.isNothing_of_post hGive, show g.argument = r.argument from hGiver, hDirection]
    rfl
  have hTaken : r.takeBack.isNothing = false := by
    rw [Binding.isNothing_of_post hTake, show t.argument = r.argument from hTaker, hDirection]
    rfl
  refine ⟨hGiven, fun hEmpty => ?_, fun hEmpty => ?_⟩
  · exact absurd ((Binding.text_of_code hGive).mp hEmpty) (by simp [hGiven])
  · exact absurd ((Binding.text_of_code hTake).mp hEmpty) (by simp [hTaken])

/-- The code of some arguments that is present is that of those which have some. -/
theorem present_map {code : ArgumentCode → Fragment} {p : ArgumentCode → Bool}
    {as : List ArgumentCode} (h : ∀ a ∈ as, (code a).isNothing = !p a) :
    present (as.map code) = (as.filter p).map code := by
  rw [present, List.filter_map]
  refine congrArg _ (List.filter_congr fun a ha => ?_)
  simp [h a ha]

/-- A oneway method has nothing to take back. -/
theorem Complete.oneway (h : m.Complete) (hChecked : m.method.Checked)
    (hOneway : m.method.isOneway = true) : m.result = none ∧ m.returned = [] := by
  constructor
  · have hNone : m.method.result.isSome = false := by
      rw [hChecked.isSome_result, hChecked.oneway_void hOneway]
      rfl
    rw [← h.result, Option.isSome_map] at hNone
    exact Option.not_isSome_iff_eq_none.mp (by simp [hNone])
  · refine List.filter_eq_nil_iff.mpr fun a ha => ?_
    have hEntry : (a.argument, a.index) ∈ m.method.arguments.zipIdx :=
      h.arguments ▸ List.mem_map_of_mem ha
    have hMem := List.mem_of_getElem? (List.mk_mem_zipIdx_iff_getElem?.mp hEntry)
    simp [hChecked.oneway_into hOneway _ hMem]

/-- The lines for an answer are those for the result and for what comes back. -/
theorem flatMap_answerSteps (h : m.method.isOneway = true → m.result = none ∧ m.takenBack = []) :
    m.answerSteps.flatMap RequestStep.lines =
      m.result.toList.map (fun r =>
        fragmentAt 5 ("final " ++ m.method.returnType ++ " " ++ r.argument.name) r.takeBack) ++
      m.takenBack.map (fragmentAt 5 "") ++
      m.result.toList.map (fun r => lineAt 5 ("return " ++ r.argument.name ++ ";")) := by
  have hTake : (m.takenBack.map RequestStep.takeBack).flatMap RequestStep.lines =
      m.takenBack.map (fragmentAt 5 "") := flatMap_map_singleton fun _ => rfl
  by_cases hOneway : m.method.isOneway = true
  · obtain ⟨hResult, hTaken⟩ := h hOneway
    simp [answerSteps, hOneway, hResult, hTaken]
  · simp only [answerSteps, if_neg hOneway, List.flatMap_append, hTake]
    cases m.result <;> simp [RequestStep.lines, RequestStep.depth]

/-- The code of a method that follows the rules has both ends in one order. -/
theorem Complete.inOrder (h : m.Complete) (hChecked : m.method.Checked)
    (hStands : ∀ c ∈ m.calls, c.Stands e) : m.InOrder := by
  have hAgrees : ∀ a ∈ m.arguments, a.Agrees := fun a ha => agrees_of_stands hStands ha
  have hResult : ∀ r ∈ m.result,
      r.giveBack.isNothing = false ∧ r.giveBack.text ≠ "" ∧ r.takeBack.text ≠ "" := by
    intro r hr
    refine result_of_stands hStands hr (hChecked.direction_result _ ?_)
    rw [← h.result, Option.mem_def.mp hr]
    rfl
  have hSent : m.sent = m.taken.map ArgumentCode.send :=
    present_map fun a ha => (hAgrees a ha).send
  have hGiven : m.givenBack = m.returned.map ArgumentCode.giveBack :=
    present_map fun a ha => by rw [(hAgrees a ha).giveBack]; simp
  have hTaken : m.takenBack = m.returned.map ArgumentCode.takeBack :=
    present_map fun a ha => by rw [(hAgrees a ha).takeBack]; simp
  have hAll : m.allGivenBack =
      m.result.toList.map ResultCode.giveBack ++ m.returned.map ArgumentCode.giveBack := by
    have hPresent : present (m.result.toList.map ResultCode.giveBack) =
        m.result.toList.map ResultCode.giveBack := by
      refine List.filter_eq_self.mpr fun f hf => ?_
      obtain ⟨r, hr, rfl⟩ := List.mem_map.mp hf
      simp [(hResult r (Option.mem_toList.mp hr)).1]
    rw [allGivenBack, hPresent, hGiven]
  have hSilent : m.method.isOneway = true → m.result = none ∧ m.takenBack = [] := by
    intro hOneway
    obtain ⟨hNone, hNothing⟩ := h.oneway hChecked hOneway
    exact ⟨hNone, by rw [hTaken, hNothing, List.map_nil]⟩
  refine ⟨?_, ?_, ?_, ?_, ?_, ?_, ?_, fun r hr => (hResult r hr).2⟩
  · rw [filterMap_dispatch, hAll]
  · rw [filterMap_request, hSent, ← hTaken, allTakenBack]
    by_cases hOneway : m.method.isOneway = true
    · obtain ⟨hNone, hNothing⟩ := hSilent hOneway
      simp [hOneway, hNone, hNothing]
    · rw [if_neg hOneway]
  · rw [caseLines_eq, hAll, orderedCase]
  · rw [proxyLines_eq, flatMap_answerSteps hSilent, hSent, hTaken, orderedProxy]
    simp only [List.append_assoc]
  · rw [← hChecked.isSome_result, ← h.result, Option.isSome_map]
  · intro a ha
    obtain ⟨hSend, -, -, hText⟩ := hAgrees a ha
    rw [ne_eq, hText _ (by simp), hSend]
    simp
  · intro a ha
    obtain ⟨-, hGive, hTake, hText⟩ := hAgrees a ha
    constructor
    · rw [ne_eq, hText _ (by simp), hGive]
      simp
    · rw [ne_eq, hText _ (by simp), hTake]
      simp

end MethodCode

namespace Interface

/-- The lines of a file up to the dispatcher's cases for methods. -/
def untilCases (i : Interface) : List String :=
  i.headerLines ++ docLines 0 i.javadoc ++
    ["public interface " ++ i.name ++ i.typeBlockText ++ " extends android.os.IInterface \x7b"] ++
    i.stubHead ++ i.asInterfaceHead ++ i.asInterfaceBody ++ dispatcherHead

/-- The lines of a file between the dispatcher's cases and the proxy's methods. -/
def untilProxies (i : Interface) : List String :=
  dispatcherTail ++ (if i.methods.any Method.isMainthread then mainThreadLines else []) ++ [""] ++
    i.proxyHead

/-- The lines of a file behind the proxy's methods. -/
def afterProxies (ms : List MethodCode) : List String :=
  [lineAt 2 "\x7d"] ++ ms.flatMap constantLines ++ [lineAt 1 "\x7d"] ++
    ms.flatMap declarationLines ++ ["\x7d"]

/-- Both ends of the methods stand in a file in the order of the methods. -/
theorem codeLines_eq_ends (i : Interface) (ms : List MethodCode) : i.codeLines ms =
    i.untilCases ++ ms.flatMap MethodCode.caseLines ++
      i.untilProxies ++ ms.flatMap MethodCode.proxyLines ++ afterProxies ms := by
  simp only [codeLines, stubLines, untilCases, untilProxies, afterProxies, List.append_assoc]

end Interface

/-- The order of the parcels of every method of an interface that was read and for
which there is a file. The desk may have been used before for the interface, by
whatever writer. -/
theorem inOrder_of_encodeInterface {tokens : List Token} {i : Interface}
    (hTokens : Interface.ofTokens tokens = .ok (some i)) (w : Writer) {banner : Banner} {d e : Desk}
    {text : String} (hDesk : d.Suits i) (hFile : w.encodeInterface i banner d = .ok text e) :
    ∃ ms, text = i.fileText banner ms ∧
      i.codeLines ms = i.untilCases ++ ms.flatMap MethodCode.caseLines ++
        i.untilProxies ++ ms.flatMap MethodCode.proxyLines ++ Interface.afterProxies ms ∧
      ms.map MethodCode.method = i.methods ∧ (∀ m ∈ ms, m.Complete ∧ m.InOrder) ∧ e.Suits i := by
  obtain ⟨ms, hMethods, rfl⟩ := Writer.encodeMethods_of_encodeInterface hFile
  obtain ⟨hCovers, e', hCalls, rfl⟩ := (w.encodeMethods_leads i d).of_ok hMethods
  have hSlots : ∀ c ∈ ms.flatMap MethodCode.calls, i.argument? c.slot = some c.argument := by
    intro c hc
    obtain ⟨m, hMem, hc⟩ := List.mem_flatMap.mp hc
    exact hCovers.argument? hMem c hc
  obtain ⟨hStands, hSuits, -⟩ := hCalls.stands hDesk hSlots
  refine ⟨ms, rfl, i.codeLines_eq_ends ms, hCovers.map_method,
    fun m hMem => ⟨hCovers.complete m hMem, ?_⟩, hSuits⟩
  have hMethod : m.method ∈ i.methods := hCovers.map_method ▸ List.mem_map_of_mem hMem
  exact (hCovers.complete m hMem).inOrder (Interface.checked_of_ofTokens hTokens _ hMethod)
    fun c hc => hStands c (List.mem_flatMap.mpr ⟨m, hMem, hc⟩)

/-- A definition with arguments of all directions. The places for identifiers in a list
need no length, and nothing comes back from the second method. -/
private def indexTokens : List Token :=
  (Scan.place .start (Scan.lexemes (
    "package demo; interface IIndex \x7b" ++
    "  int find(in String[] words, out int[] lines, out List<UUID> pages, inout List<UUID> seen);" ++
    "  oneway void forget(in UUID[] pages);" ++
    "\x7d").toList).1).1

theorem inOrder_of_encodeInterface_index : ∃ i text e ms,
    Interface.ofTokens indexTokens = .ok (some i) ∧
    Writer.encodeInterface ⟨0, {}⟩ i {} {} = .ok text e ∧ text = i.fileText {} ms ∧
    ms.map MethodCode.method = i.methods ∧ (∀ m ∈ ms, m.Complete ∧ m.InOrder) ∧ e.Suits i := by
  have hRun : (Interface.ofTokens indexTokens).toOption.join.map (fun i =>
      ((Writer.encodeInterface ⟨0, {}⟩ i {}).answer {}).toBool) = some true := by
    decide +kernel
  obtain ⟨i, hTokens, hAnswer⟩ := Interface.exists_of_run hRun
  obtain ⟨text, e, hFile⟩ := Encoding.exists_of_answer hAnswer
  have hDesk : Desk.Suits {} i := fun _ _ _ _ h => by cases h
  obtain ⟨ms, hText, -, hAll⟩ := inOrder_of_encodeInterface hTokens ⟨0, {}⟩ hDesk hFile
  exact ⟨i, text, e, ms, hTokens, hFile, hText, hAll⟩

end BinderIdl
