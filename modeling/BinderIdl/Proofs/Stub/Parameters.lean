import BinderIdl.Proofs.Interface.Plain
import BinderIdl.Proofs.Stub.Banner
import BinderIdl.Proofs.Stub.TemporaryNames

/-! The variables of the proxy's methods. The body of a method declares its parcels, the
variable of the result and the temporaries of its code in the scope of the parameters, whose
names the definition chooses. Which parameters clash with them is said exactly; none does
whose name starts with another character than theirs. -/
namespace BinderIdl

open Java

/-- The variables that a step of the proxy declares, in order. -/
def RequestStep.declared : RequestStep → List String
  | send code | takeBack code => code.declared
  | result _ name code => name :: code.declared
  | token | post _ | transact _ | rethrow | give _ => []

theorem Temporaries.head?_name (n : Nat) (r : Role) : ((after n).name r).toList.head? = some '_' := by
  rw [name, named_after, String.append_assoc, String.toList_append]
  rfl

/-- The code of a pass declares only temporaries. -/
theorem Calls.exists_name {w : Writer} {d e : Desk} {cs : List Call} (h : Calls w d cs e) :
    ∀ c ∈ cs, ∀ x ∈ c.code.declared, ∃ k r, x = (Temporaries.after k).name r := by
  induction h with
  | nil => simp
  | cons hCall hRest ih =>
      obtain ⟨b, -, hTakes, -⟩ := hCall.takes
      refine List.forall_mem_cons.mpr ⟨fun x hx => ?_, ih⟩
      obtain ⟨r, hName⟩ := hTakes.exists_name hx
      exact ⟨_, r, hName⟩

/-- All results that a derivation names have one name. -/
theorem name_result_methodsFrom (inherited : List Modifier) (start : Nat) (ts : List MethodTree) :
    ∀ m ∈ methodsFrom inherited start ts, ∀ r ∈ m.result, r.name = Argument.resultName := by
  induction ts generalizing start with
  | nil => simp [methodsFrom]
  | cons t ts ih =>
      rw [methodsFrom, List.forall_mem_cons]
      refine ⟨fun r hr => ?_, ih _⟩
      obtain ⟨-, rfl⟩ : ¬t.type.text = "void" ∧ _ = r := by simpa [MethodTree.method] using hr
      rfl

namespace MethodCode

variable {m : MethodCode}

/-- The variables that the body of the proxy's method declares, in order. -/
def proxyLocals (m : MethodCode) : List String :=
  "_data" :: (if m.method.isOneway then [] else ["_reply"]) ++
    m.request.flatMap RequestStep.declared

/-- The temporaries of the proxy's code. -/
def proxyTemporaries (m : MethodCode) : List String :=
  (m.sent ++ m.allTakenBack).flatMap Fragment.declared

theorem flatMap_send (fs : List Fragment) :
    (fs.map RequestStep.send).flatMap RequestStep.declared = fs.flatMap Fragment.declared := by
  rw [List.flatMap_map]
  rfl

theorem flatMap_takeBack (fs : List Fragment) :
    (fs.map RequestStep.takeBack).flatMap RequestStep.declared = fs.flatMap Fragment.declared := by
  rw [List.flatMap_map]
  rfl

/-- On the way back the proxy declares the variable of the result and temporaries. -/
theorem flatMap_response (m : MethodCode) :
    m.response.flatMap RequestStep.declared =
      m.result.toList.map (fun r => r.argument.name) ++
        (m.result.toList.map ResultCode.takeBack ++ m.takenBack).flatMap Fragment.declared := by
  cases hResult : m.result with
  | none =>
      simp only [response, hResult, List.flatMap_append, flatMap_takeBack]
      simp [RequestStep.declared]
  | some r =>
      simp only [response, hResult, List.flatMap_append, flatMap_takeBack]
      simp [RequestStep.declared]

theorem mem_declared_request {x : String} :
    x ∈ m.request.flatMap RequestStep.declared ↔
      (m.method.isOneway = false ∧ ∃ r ∈ m.result, r.argument.name = x) ∨ x ∈ m.proxyTemporaries := by
  simp only [request, proxyTemporaries, allTakenBack, List.flatMap_append, flatMap_send]
  cases m.method.isOneway with
  | true => simp [RequestStep.declared]
  | false => simp [RequestStep.declared, flatMap_response, or_left_comm]

/-- The variables of a method are its parcels, its result and temporaries. -/
theorem Complete.mem_proxyLocals (h : m.Complete) (hChecked : m.method.Checked)
    (hName : ∀ r ∈ m.method.result, r.name = Argument.resultName) {x : String} :
    x ∈ m.proxyLocals ↔ x = "_data" ∨ (x = "_reply" ∧ m.method.isOneway = false) ∨
      (x = "_result" ∧ m.method.isVoid = false) ∨ x ∈ m.proxyTemporaries := by
  have hReply : x ∈ (if m.method.isOneway then [] else ["_reply"] : List String) ↔
      x = "_reply" ∧ m.method.isOneway = false := by
    cases m.method.isOneway <;> simp
  have hResult : (m.method.isOneway = false ∧ ∃ r ∈ m.result, r.argument.name = x) ↔
      x = "_result" ∧ m.method.isVoid = false := by
    have hSome := hChecked.isSome_result
    rw [← h.result] at hName hSome
    cases hCode : m.result with
    | none =>
        rw [hCode] at hSome
        have hVoid : m.method.isVoid = true := by simpa using hSome
        simp [hVoid]
    | some r =>
        rw [hCode] at hName hSome
        have hVoid : m.method.isVoid = false := by simpa using hSome
        have hWaits : m.method.isOneway = false := by
          rw [Bool.eq_false_iff]
          intro hOneway
          rw [hChecked.oneway_void hOneway] at hVoid
          cases hVoid
        have hr : r.argument.name = "_result" := hName r.argument rfl
        simp [hVoid, hWaits, hr, eq_comm]
  rw [proxyLocals, List.mem_append, List.mem_cons, hReply, mem_declared_request, hResult, or_assoc]

/-- The code that the proxy runs was encoded for it. -/
theorem exists_call_of_mem {f : Fragment} (h : f ∈ m.sent ++ m.allTakenBack) :
    ∃ c ∈ m.calls, c.code = f := by
  have hPresent : ∀ {code : ArgumentCode → Fragment}, f ∈ present (m.arguments.map code) →
      ∃ a ∈ m.arguments, code a = f := fun hMem =>
    List.mem_map.mp (List.mem_filter.mp hMem |>.1)
  rw [List.mem_append, allTakenBack] at h
  simp only [calls, List.mem_append, List.mem_flatMap, argumentCalls, ResultCode.calls]
  rcases h with h | h
  · obtain ⟨a, ha, rfl⟩ := hPresent h
    exact ⟨_, .inl (.inl ⟨a, ha, List.mem_cons_of_mem _ List.mem_cons_self⟩), rfl⟩
  · split at h
    · cases h
    · rcases List.mem_append.mp h with h | h
      · obtain ⟨r, hr, rfl⟩ := List.mem_map.mp h
        exact ⟨_, .inl (.inr ⟨r, hr, List.mem_cons_of_mem _ List.mem_cons_self⟩), rfl⟩
      · obtain ⟨a, ha, rfl⟩ := hPresent h
        exact ⟨_, .inr ⟨a, ha, List.mem_cons_of_mem _ List.mem_cons_self⟩, rfl⟩

end MethodCode

theorem Interface.name_result_of_ofSource {s : Source} {i : Interface}
    (h : Interface.ofSource s = .ok (some i)) :
    ∀ m ∈ i.methods, ∀ r ∈ m.result, r.name = Argument.resultName := by
  obtain ⟨t, -, rfl⟩ := Interface.exists_tree_of_ofSource h
  exact name_result_methodsFrom _ _ _

/-- The parameters of the proxy's methods that have the name of a variable of the body. -/
theorem mem_proxyLocals_of_encodeInterface {s : Source} {i : Interface} {w : Writer} {banner : Banner}
    {d e : Desk} {text : String} (hParse : Interface.ofSource s = .ok (some i))
    (hFile : w.encodeInterface i banner d = .ok text e) :
    ∃ ms, text = i.fileText banner ms ∧ ms.map MethodCode.method = i.methods ∧
      ∀ m ∈ ms, m.Complete ∧ ∀ a ∈ m.method.arguments,
        (a.name ∈ m.proxyLocals ↔ a.name = "_data" ∨ (a.name = "_reply" ∧ m.method.isOneway = false) ∨
          (a.name = "_result" ∧ m.method.isVoid = false) ∨ a.name ∈ m.proxyTemporaries) ∧
        (a.name ∈ m.proxyTemporaries → ∃ k r, a.name = (Temporaries.after k).name r) ∧
        (a.name.toList.head? ≠ some '_' → a.name ∉ m.proxyLocals) := by
  obtain ⟨ms, hMethods, rfl⟩ := Writer.encodeMethods_of_encodeInterface hFile
  obtain ⟨hCovers, e', hCalls, -⟩ := (w.encodeMethods_leads i d).of_ok hMethods
  refine ⟨ms, rfl, hCovers.map_method, fun m hm => ⟨hCovers.complete m hm, fun a _ => ?_⟩⟩
  have hMethod : m.method ∈ i.methods := hCovers.map_method ▸ List.mem_map_of_mem hm
  have hLocals := (hCovers.complete m hm).mem_proxyLocals (x := a.name)
    (Interface.checked_of_ofTokens (Interface.ofTokens_of_ofSource hParse) _ hMethod)
    (Interface.name_result_of_ofSource hParse _ hMethod)
  have hTemporary : a.name ∈ m.proxyTemporaries → ∃ k r, a.name = (Temporaries.after k).name r := by
    intro hMem
    obtain ⟨f, hf, hDeclared⟩ := List.mem_flatMap.mp hMem
    obtain ⟨c, hc, rfl⟩ := MethodCode.exists_call_of_mem hf
    exact hCalls.exists_name c (List.mem_flatMap.mpr ⟨m, hm, hc⟩) _ hDeclared
  refine ⟨hLocals, hTemporary, fun hFirst hMem => hFirst ?_⟩
  rcases hLocals.mp hMem with hName | ⟨hName, -⟩ | ⟨hName, -⟩ | hMem
  · rw [hName]; decide
  · rw [hName]; decide
  · rw [hName]; decide
  · obtain ⟨k, r, hName⟩ := hTemporary hMem
    rw [hName]
    exact Temporaries.head?_name k r

private def counterText : String :=
  "package demo; interface ICounter \x7b
    oneway void drop(in UUID[] _reply, in UUID[] ids);
    UUID[] find(in UUID[] ids, out UUID[] more);
  \x7d"

set_option maxRecDepth 2000 in
private def counterChars : { cs : List Char // counterText = String.ofList cs } := ⟨_, rfl⟩

private def counterSource : Source := ⟨none, counterText, (Scan.place .start (Scan.lexemes counterChars.1).1).1⟩

/-- A call that nobody waits for has no parcel for the answer. -/
theorem mem_proxyLocals_of_encodeInterface_counter : ∃ i text e ms,
    Source.read none counterText = .ok counterSource ∧ Interface.ofSource counterSource = .ok (some i) ∧
    Writer.encodeInterface ⟨0, {}⟩ i {} {} = .ok text e ∧ text = i.fileText {} ms ∧
    ms.map MethodCode.method = i.methods ∧
    ∀ m ∈ ms, ∀ a ∈ m.method.arguments, a.name ∉ m.proxyLocals := by
  have hLexed : (Scan.lexemes counterChars.1).2 = none := by decide +kernel
  have hRun : (Interface.ofTokens counterSource.tokens).toOption.join.map (fun i =>
      (decide (∀ m ∈ i.methods, ∀ a ∈ m.arguments,
          a.name.toList.head? ≠ some '_' ∨ a.name = "_reply" ∧ m.isOneway = true),
        ((Writer.encodeInterface ⟨0, {}⟩ i {}).answer {}).toBool)) = some (true, true) := by
    decide +kernel
  obtain ⟨i, hTokens, hParts⟩ := Interface.exists_of_run hRun
  have hNames := of_decide_eq_true (congrArg Prod.fst hParts)
  obtain ⟨text, e, hFile⟩ := Encoding.exists_of_answer (congrArg Prod.snd hParts)
  have hParse := Interface.ofSource_of_ofTokens hTokens
  obtain ⟨ms, hText, hMethods, hAll⟩ := mem_proxyLocals_of_encodeInterface hParse hFile
  refine ⟨i, text, e, ms, Source.read_of_lexemes counterChars.2 hLexed none, hParse, hFile, hText,
    hMethods, fun m hm a ha => ?_⟩
  obtain ⟨hLocals, hTemporary, hFirst⟩ := (hAll m hm).2 a ha
  rcases hNames m.method (hMethods ▸ List.mem_map_of_mem hm) a ha with hName | ⟨hName, hOneway⟩
  · exact hFirst hName
  · rw [hLocals, hName]
    rintro (h | ⟨-, h⟩ | ⟨h, -⟩ | h)
    · exact absurd h (by decide)
    · rw [hOneway] at h
      cases h
    · exact absurd h (by decide)
    · obtain ⟨k, r, h⟩ := hTemporary (hName ▸ h)
      exact Temporaries.parcel_ne_name k r .proxyReply (hName.symm.trans h)

theorem Encoding.exists_of_answer_map {β γ : Type} {x : Encoding β} {d : Desk} {f : β → γ} {c : γ}
    (h : (x.answer d).toOption.map f = some c) : ∃ b e, x d = .ok b e ∧ f b = c := by
  rw [answer] at h
  cases hResult : x d with
  | ok b e =>
      rw [hResult] at h
      exact ⟨b, e, rfl, Option.some.inj h⟩
  | error fault e =>
      rw [hResult] at h
      cases h

private def vault : String := "package demo; interface IVault \x7b void put(in int _data); \x7d"

private def vaultChars : { cs : List Char // vault = String.ofList cs } := ⟨_, rfl⟩

private def vaultSource : Source :=
  ⟨none, vault, (Scan.place .start (Scan.lexemes vaultChars.1).1).1⟩

/-- A parameter with the name of the parcel that the proxy sends. -/
theorem proxyLocals_clash : ∃ i ms e,
    Source.read none vault = .ok vaultSource ∧ Interface.ofSource vaultSource = .ok (some i) ∧
    Writer.encodeInterface ⟨0, {}⟩ i {} {} = .ok (i.fileText {} ms) e ∧
    ms.map (fun m => (m.proxyLines.drop 2).take 2) =
      [[lineAt 3 "public void put(int _data) throws android.os.RemoteException \x7b",
        lineAt 4 "final android.os.Parcel _data = android.os.Parcel.obtain();"]] ∧
    ms.map MethodCode.proxyLocals = [["_data", "_reply"]] ∧
    ∃ m ∈ ms, ∃ a ∈ m.method.arguments, a.name ∈ m.proxyLocals := by
  have hLexed : (Scan.lexemes vaultChars.1).2 = none := by decide +kernel
  have hRun : (Interface.ofTokens vaultSource.tokens).toOption.join.map (fun i =>
      ((Writer.encodeMethods ⟨0, {}⟩ i).answer {}).toOption.map fun ms =>
        (ms.map (fun m => (m.proxyLines.drop 2).take 2), ms.map MethodCode.proxyLocals,
          decide (∃ m ∈ ms, ∃ a ∈ m.method.arguments, a.name ∈ m.proxyLocals))) =
      some (some ([[lineAt 3 "public void put(int _data) throws android.os.RemoteException \x7b",
        lineAt 4 "final android.os.Parcel _data = android.os.Parcel.obtain();"]],
        [["_data", "_reply"]], true)) := by
    decide +kernel
  obtain ⟨i, hTokens, hAnswer⟩ := Interface.exists_of_run hRun
  obtain ⟨ms, e, hMethods, hParts⟩ := Encoding.exists_of_answer_map hAnswer
  simp only [Prod.mk.injEq, decide_eq_true_eq] at hParts
  have hFile : Writer.encodeInterface ⟨0, {}⟩ i {} {} = .ok (i.fileText {} ms) e := by
    rw [Writer.encodeInterface, Encoding.bind_of_ok hMethods]
    rfl
  exact ⟨i, ms, e, Source.read_of_lexemes vaultChars.2 hLexed none,
    Interface.ofSource_of_ofTokens hTokens, hFile, hParts⟩

end BinderIdl
