import BinderIdl.Proofs.Marshal.Names
import BinderIdl.Proofs.Stub.Parameters
import BinderIdl.Proofs.Stub.ParcelOrder

/-! Calls that nobody waits for. A method is oneway if it or its interface says so.
Then nothing comes back from it: it has no result, its arguments have no code for the
way back, and neither end of the call works on a parcel for the answer. -/
namespace BinderIdl

open Java

theorem Modifier.mem_join {inherited own : List Modifier} {m : Modifier} :
    m ∈ join inherited own ↔ m ∈ inherited ∨ m ∈ own := by
  rw [join, List.mem_append, List.mem_eraseDups, List.mem_filter]
  by_cases hInherited : m ∈ inherited <;> simp [hInherited]

theorem length_methodsFrom (inherited : List Modifier) (start : Nat) (ts : List MethodTree) :
    (methodsFrom inherited start ts).length = ts.length := by
  induction ts generalizing start with
  | nil => rfl
  | cons t ts ih => rw [methodsFrom, List.length_cons, ih, List.length_cons]

/-- A method has the modifiers that its interface or its own declaration names. -/
theorem isOneway_methodsFrom (inherited : List Modifier) (start : Nat) (ts : List MethodTree) :
    ∀ p ∈ ts.zip (methodsFrom inherited start ts), p.2.isOneway = true ↔
      .oneway ∈ inherited ∨ .oneway ∈ p.1.modifiers.map Leaf.meaning := by
  induction ts generalizing start with
  | nil => simp [methodsFrom]
  | cons t ts ih =>
      rw [methodsFrom, List.zip_cons_cons, List.forall_mem_cons]
      refine ⟨?_, ih _⟩
      rw [Method.isOneway, List.contains_iff_mem]
      exact Modifier.mem_join

namespace MethodCode

/-- A dispatcher's case that receives the arguments, makes the call and leaves it at that. -/
def onewayCase (m : MethodCode) : List String :=
  [lineAt 4 ("case " ++ m.transaction ++ ": \x7b"),
    lineAt 5 "data.enforceInterface(DESCRIPTOR);"] ++
  m.arguments.map (fun a =>
    fragmentAt 5 ("final " ++ a.argument.type ++ " " ++ a.localName) a.receive) ++
  (if m.method.isMainthread then
    (DispatchStep.task (boxed m.method.returnType) m.taskBody).lines ++
      [lineAt 5 "runOnMainThread(_task);"]
    else [lineAt 5 ("this." ++ m.method.name ++ "(" ++ m.localNames ++ ");")]) ++
  [lineAt 5 "return true;", lineAt 4 "\x7d"]

/-- A proxy's method with one parcel, which it obtains, sends and recycles. -/
def onewayProxy (m : MethodCode) : List String :=
  ["", lineAt 3 "@Override", lineAt 3 (m.signature ++ " \x7b"),
    lineAt 4 "final android.os.Parcel _data = android.os.Parcel.obtain();",
    lineAt 4 "try \x7b", lineAt 5 "_data.writeInterfaceToken(DESCRIPTOR);"] ++
  m.sent.map (fragmentAt 5 "") ++
  [lineAt 5 ("mRemote.transact(Stub." ++ m.transaction ++
      ", _data, null, android.os.IBinder.FLAG_ONEWAY);"),
    lineAt 4 "\x7d finally \x7b", lineAt 5 "_data.recycle();", lineAt 4 "\x7d", lineAt 3 "\x7d"]

/-- A method from which nothing comes back. -/
structure Unanswered (m : MethodCode) : Prop where
  result : m.method.result = none ∧ m.result = none
  back : ∀ a ∈ m.arguments, a.giveBack.text = "" ∧ a.takeBack.text = ""
  nothing : m.givenBack = [] ∧ m.takenBack = []
  caseLines : m.caseLines = m.onewayCase
  /-- The dispatcher does not touch the answer to receive an argument. -/
  receive : ∀ a ∈ m.arguments, Parcel.reply.name ∉ a.receive.names
  proxyLines : m.proxyLines = m.onewayProxy
  /-- The proxy has no variable for the answer, and where its code has the name of one,
  the name is that of the argument which is being sent. -/
  locals : Parcel.proxyReply.name ∉ m.proxyLocals
  send : ∀ a ∈ m.arguments, Parcel.proxyReply.name ∈ a.send.names →
    a.argument.name = Parcel.proxyReply.name

variable {m : MethodCode} {e : Desk}

theorem caseLines_oneway (hOneway : m.method.isOneway = true) (hResult : m.result = none)
    (hGiven : m.givenBack = []) : m.caseLines = m.onewayCase := by
  have hNothing : m.allGivenBack = [] := by
    rw [allGivenBack, hResult, hGiven]
    rfl
  simp only [caseLines_eq, callSteps, hOneway, hResult, hNothing, call]
  cases hMain : m.method.isMainthread with
  | false =>
      have hCall : "this." ++ m.method.name ++ "(" ++ m.localNames ++ ")" ++ ";" =
          "this." ++ m.method.name ++ "(" ++ m.localNames ++ ");" := String.append_assoc ..
      simp [DispatchStep.lines, onewayCase, hMain, DispatchStep.depth, hCall]
  | true => simp [DispatchStep.lines, onewayCase, hMain, DispatchStep.depth]

theorem proxyLines_oneway (hOneway : m.method.isOneway = true) : m.proxyLines = m.onewayProxy := by
  simp [proxyLines_eq, proxyOpening, transactSteps, answerSteps, proxyClosing, hOneway, onewayProxy,
    RequestStep.lines, RequestStep.depth]

theorem present_eq_nil {fs : List Fragment} (h : ∀ f ∈ fs, f.isNothing = true) :
    present fs = [] := by
  refine List.filter_eq_nil_iff.mpr fun f hf => ?_
  rw [h f hf]
  decide

theorem reply_ne_argumentLocal (index : Nat) : Parcel.reply.name ≠ argumentLocal index := by
  intro hName
  have hStem := congrArg nameStem hName
  rw [nameStem_argumentLocal] at hStem
  exact absurd hStem (by decide)

/-- Nothing comes back from a oneway method that follows the rules. -/
theorem Complete.unanswered (h : m.Complete) (hChecked : m.method.Checked)
    (hOneway : m.method.isOneway = true) (hStands : ∀ c ∈ m.calls, c.Stands e)
    (hDeclared : ∀ c ∈ m.calls, ∀ x ∈ c.code.declared, ∃ k r, x = (Temporaries.after k).name r) :
    m.Unanswered := by
  obtain ⟨hResult, hReturned⟩ := h.oneway hChecked hOneway
  have hInto : ∀ a ∈ m.arguments, a.argument.direction = .into := by
    intro a ha
    simpa using List.filter_eq_nil_iff.mp hReturned a ha
  have hBack : ∀ a ∈ m.arguments, a.giveBack.isNothing = true ∧ a.takeBack.isNothing = true := by
    intro a ha
    have hAgrees := agrees_of_stands hStands ha
    rw [hAgrees.giveBack, hAgrees.takeBack, hInto a ha]
    exact ⟨rfl, rfl⟩
  have hGiven : m.givenBack = [] :=
    present_eq_nil (List.forall_mem_map.mpr fun a ha => (hBack a ha).1)
  have hTaken : m.takenBack = [] :=
    present_eq_nil (List.forall_mem_map.mpr fun a ha => (hBack a ha).2)
  refine ⟨⟨?_, hResult⟩, ?_, ⟨hGiven, hTaken⟩, caseLines_oneway hOneway hResult hGiven, ?_,
    proxyLines_oneway hOneway, ?_, ?_⟩
  · rw [← h.result, hResult, Option.map_none]
  · intro a ha
    have hText := (agrees_of_stands hStands ha).text
    exact ⟨(hText _ (by simp)).mpr (hBack a ha).1, (hText _ (by simp)).mpr (hBack a ha).2⟩
  · intro a ha hMem
    obtain ⟨b, n, n', -, -, hCode⟩ := hStands _ (mem_calls_of_request ha _ List.mem_cons_self)
    rcases Binding.eq_of_mem_names hCode hMem with hParcel | hName
    · cases hParcel
    · exact reply_ne_argumentLocal _ hName
  · rw [proxyLocals, if_pos hOneway, List.mem_append, List.mem_singleton, mem_declared_request]
    rintro (hName | ⟨hWaits, -⟩ | hMem)
    · exact absurd hName (by decide)
    · rw [hOneway] at hWaits
      cases hWaits
    · obtain ⟨f, hf, hName⟩ := List.mem_flatMap.mp hMem
      obtain ⟨c, hc, rfl⟩ := exists_call_of_mem hf
      obtain ⟨k, r, hName⟩ := hDeclared c hc _ hName
      exact Temporaries.parcel_ne_name k r .proxyReply hName
  · intro a ha hMem
    obtain ⟨b, n, n', -, -, hCode⟩ :=
      hStands _ (mem_calls_of_request ha _ (List.mem_cons_of_mem _ List.mem_cons_self))
    rcases Binding.eq_of_mem_names hCode hMem with hParcel | hName
    · cases hParcel
    · exact hName.symm

end MethodCode

/-- What is oneway by its own modifiers or by those of its interface is not answered. -/
theorem unanswered_of_encodeInterface {s : Source} {i : Interface}
    (hParse : Interface.ofSource s = .ok (some i)) (w : Writer) {banner : Banner} {d e : Desk}
    {text : String} (hDesk : d.Suits i) (hFile : w.encodeInterface i banner d = .ok text e) :
    ∃ (t : DefinitionTree) (ms : List MethodCode),
      t.tokens = s.tokens ∧ i = t.interface ∧ text = i.fileText banner ms ∧
      ms.map MethodCode.method = i.methods ∧ ms.length = t.methods.length ∧
      ∀ p ∈ t.methods.zip ms,
        (p.2.method.isOneway = true ↔ .oneway ∈ t.modifiers.map Leaf.meaning ∨
          .oneway ∈ p.1.modifiers.map Leaf.meaning) ∧
        (p.2.method.isOneway = true → p.2.Unanswered) := by
  obtain ⟨t, hTree, rfl⟩ := Interface.exists_tree_of_ofSource hParse
  obtain ⟨ms, hMethods, rfl⟩ := Writer.encodeMethods_of_encodeInterface hFile
  obtain ⟨hCovers, e', hCalls, -⟩ := (w.encodeMethods_leads t.interface d).of_ok hMethods
  have hSlots : ∀ c ∈ ms.flatMap MethodCode.calls, t.interface.argument? c.slot = some c.argument := by
    intro c hc
    obtain ⟨m, hMem, hc⟩ := List.mem_flatMap.mp hc
    exact hCovers.argument? hMem c hc
  obtain ⟨hStands, -⟩ := hCalls.stands hDesk hSlots
  refine ⟨t, ms, hTree, rfl, rfl, hCovers.map_method, ?_, fun p hp => ⟨?_, fun hOneway => ?_⟩⟩
  · have hLength := congrArg List.length hCovers.map_method
    rw [List.length_map] at hLength
    exact hLength.trans (length_methodsFrom ..)
  · have hPair : (p.1, p.2.method) ∈ t.methods.zip t.interface.methods := by
      rw [← hCovers.map_method, List.zip_map_right]
      exact List.mem_map_of_mem hp
    have hModifiers : Modifier.oneway ∈ t.interfaceModifiers ↔
        .oneway ∈ t.modifiers.map Leaf.meaning := by
      rw [DefinitionTree.interfaceModifiers, Modifier.mem_join]
      simp
    rw [isOneway_methodsFrom t.interfaceModifiers t.bodyStart t.methods _ hPair, hModifiers]
  · have hMem : p.2 ∈ ms := (List.of_mem_zip hp).2
    have hMethod : p.2.method ∈ t.interface.methods :=
      hCovers.map_method ▸ List.mem_map_of_mem hMem
    have hOwn : ∀ c ∈ p.2.calls, c ∈ ms.flatMap MethodCode.calls :=
      fun c hc => List.mem_flatMap.mpr ⟨p.2, hMem, hc⟩
    exact (hCovers.complete p.2 hMem).unanswered
      (Interface.checked_of_ofTokens (Interface.ofTokens_of_ofSource hParse) _ hMethod) hOneway
      (fun c hc => hStands c (hOwn c hc)) fun c hc => hCalls.exists_name c (hOwn c hc)

private def signals : String :=
  "package demo; oneway interface ISignals \x7b
    mainthread void raise(in UUID[] _reply, in List<IBinder> more);
    void clear();
  \x7d"

set_option maxRecDepth 2000 in
private def signalsChars : { cs : List Char // signals = String.ofList cs } := ⟨_, rfl⟩

private def signalsSource : Source :=
  ⟨none, signals, (Scan.place .start (Scan.lexemes signalsChars.1).1).1⟩

/-- Both methods are oneway by their interface, and an argument of the first one has the name
of the parcel that there is none of. -/
theorem unanswered_of_encodeInterface_signals : ∃ i text e ms,
    Source.read none signals = .ok signalsSource ∧
    Interface.ofSource signalsSource = .ok (some i) ∧ Desk.Suits {} i ∧
    Writer.encodeInterface ⟨0, {}⟩ i {} {} = .ok text e ∧ text = i.fileText {} ms ∧
    i.modifiers = [.oneway] ∧ ms.length = 2 ∧ ∀ m ∈ ms, m.Unanswered := by
  have hLexed : (Scan.lexemes signalsChars.1).2 = none := by decide +kernel
  have hRun : (Interface.ofTokens signalsSource.tokens).toOption.join.map (fun i =>
      (i.modifiers, i.methods.map Method.isOneway,
        ((Writer.encodeInterface ⟨0, {}⟩ i {}).answer {}).toBool)) =
      some ([.oneway], [true, true], true) := by
    decide +kernel
  obtain ⟨i, hTokens, hParts⟩ := Interface.exists_of_run hRun
  simp only [Prod.mk.injEq] at hParts
  obtain ⟨hModifiers, hOneways, hAnswer⟩ := hParts
  obtain ⟨text, e, hFile⟩ := Encoding.exists_of_answer hAnswer
  have hParse := Interface.ofSource_of_ofTokens hTokens
  have hDesk : Desk.Suits {} i := fun _ _ _ _ h => by cases h
  obtain ⟨t, ms, -, -, hText, hMethods, hLength, hAll⟩ :=
    unanswered_of_encodeInterface hParse ⟨0, {}⟩ hDesk hFile
  have hOneway : ∀ m ∈ ms, m.method.isOneway = true := by
    intro m hm
    have hMem : m.method.isOneway ∈ i.methods.map Method.isOneway := by
      rw [← hMethods, List.map_map]
      exact List.mem_map_of_mem hm
    rw [hOneways] at hMem
    simpa using hMem
  refine ⟨i, text, e, ms, Source.read_of_lexemes signalsChars.2 hLexed none, hParse, hDesk, hFile,
    hText, hModifiers, ?_, fun m hm => ?_⟩
  · have hCount := congrArg List.length hOneways
    rwa [← hMethods, List.length_map, List.length_map] at hCount
  · have hSecond : (t.methods.zip ms).map Prod.snd = ms := List.map_snd_zip (Nat.le_of_eq hLength)
    have hPaired := hm
    rw [← hSecond] at hPaired
    obtain ⟨p, hp, rfl⟩ := List.mem_map.mp hPaired
    exact (hAll p hp).2 (hOneway _ hm)

end BinderIdl
