import BinderIdl.Proofs.Interface.Checked
import BinderIdl.Proofs.Marshal.Temporary
import BinderIdl.Proofs.Stub.Calls
import Mathlib.Data.List.Nodup
import Mathlib.Data.Set.Function

/-! The constants for methods. A constant has the name of its method and, behind the
first method of that name, a number. Numbered names are told apart by their last part,
but a method can have the very name that the number gives to another one: the constants
differ exactly if there is no such method. -/
namespace BinderIdl

/-- The number behind the last low line and the name before it can be read back. -/
theorem append_number_inj {x y : String} {m n : Nat}
    (h : x ++ "_" ++ toString m = y ++ "_" ++ toString n) : x = y ∧ m = n := by
  have hEnd : ∀ z : String, endsInDigit (z ++ "_") = false := by simp [endsInDigit]
  have hStem : ∀ (z : String) (k : Nat),
      nameStem (z ++ "_" ++ toString k) = (z ++ "_").toList := by
    intro z k
    rw [nameStem_append_digits _ _ fun c hc => isDigit_of_mem_toString hc]
    exact nameStem_of_no_digit _ (hEnd z)
  have hNames : x ++ "_" = y ++ "_" := by
    rw [← String.toList_inj, ← hStem x m, h, hStem y n]
  have hNumbers : m = n := by
    rw [← nameNumber_append_toString _ m (hEnd x), h, nameNumber_append_toString _ n (hEnd y)]
  exact ⟨by simpa using hNames, hNumbers⟩

/-- Two constants of different methods share a name only if one method is the first of
its name, and that name is the numbered name of the other. -/
theorem transactionName_eq_iff {x y : String} {m n : Nat} :
    transactionName x m = transactionName y n ↔ x = y ∧ m = n ∨
      m = 0 ∧ 0 < n ∧ x = y ++ "_" ++ toString n ∨ n = 0 ∧ 0 < m ∧ y = x ++ "_" ++ toString m := by
  rw [transactionName, transactionName, String.append_assoc, String.append_assoc,
    String.append_right_inj]
  by_cases hm : m = 0 <;> by_cases hn : n = 0
  · subst hm hn
    simp
  · subst hm
    simp [hn, Ne.symm hn, Nat.pos_of_ne_zero hn, String.append_assoc]
  · subst hn
    simp [hm, Nat.pos_of_ne_zero hm, String.append_assoc, eq_comm]
  · rw [if_neg hm, if_neg hn, ← String.append_assoc, ← String.append_assoc]
    constructor
    · intro h
      exact .inl (append_number_inj h)
    · rintro (⟨rfl, rfl⟩ | ⟨rfl, -⟩ | ⟨rfl, -⟩)
      · rfl
      · exact absurd rfl hm
      · exact absurd rfl hn

/-- The names that methods get constants for, each with the number of methods of that
name before it. -/
def numberedAfter (seen names : List String) : Set (String × Nat) :=
  {p | seen.count p.1 ≤ p.2 ∧ p.2 < seen.count p.1 + names.count p.1}

theorem numberedAfter_cons (seen : List String) (name : String) (names : List String) :
    numberedAfter seen (name :: names) =
      insert (name, seen.count name) (numberedAfter (name :: seen) names) := by
  ext ⟨x, k⟩
  simp only [numberedAfter, Set.mem_ofPred_eq, Set.mem_insert_iff, Prod.mk.injEq, List.count_cons]
  by_cases hx : name = x
  · subst hx
    simp
    omega
  · simp [hx, Ne.symm hx]

theorem not_mem_numberedAfter (seen : List String) (name : String) (names : List String) :
    (name, seen.count name) ∉ numberedAfter (name :: seen) names := by
  simp [numberedAfter]

theorem mem_transactionNamesAfter (seen names : List String) (x : String) :
    x ∈ transactionNamesAfter seen names ↔
      x ∈ (fun p => transactionName p.1 p.2) '' numberedAfter seen names := by
  induction names generalizing seen with
  | nil =>
      simp [transactionNamesAfter, numberedAfter]
  | cons name names ih =>
      rw [transactionNamesAfter, List.mem_cons, ih, numberedAfter_cons, Set.image_insert_eq,
        Set.mem_insert_iff]

/-- The constants differ if names and numbers can be read back from them. -/
theorem nodup_transactionNamesAfter (seen names : List String) :
    (transactionNamesAfter seen names).Nodup ↔
      Set.InjOn (fun p => transactionName p.1 p.2) (numberedAfter seen names) := by
  induction names generalizing seen with
  | nil =>
      simp [transactionNamesAfter, numberedAfter, Set.InjOn]
  | cons name names ih =>
      rw [transactionNamesAfter, List.nodup_cons, ih, mem_transactionNamesAfter,
        numberedAfter_cons, Set.injOn_insert (not_mem_numberedAfter seen name names), and_comm]

/-- No method has a name that is the numbered name of a method with earlier namesakes. -/
def Interface.FreeOfNumbered (i : Interface) : Prop :=
  ∀ name k, 0 < k → k < (i.methods.map Method.name).count name →
    name ++ "_" ++ toString k ∉ i.methods.map Method.name

theorem Interface.nodup_transactions (i : Interface) : i.transactions.Nodup ↔ i.FreeOfNumbered := by
  have hRange : ∀ p : String × Nat, p ∈ numberedAfter [] (i.methods.map Method.name) ↔
      p.2 < (i.methods.map Method.name).count p.1 := by
    intro p
    simp [numberedAfter]
  rw [transactions, nodup_transactionNamesAfter]
  constructor
  · intro hInj name k hk hCount hMem
    have hClash : transactionName (name ++ "_" ++ toString k) 0 = transactionName name k :=
      transactionName_eq_iff.mpr (.inr (.inl ⟨rfl, hk, rfl⟩))
    have hSame := hInj ((hRange (_, 0)).mpr (List.count_pos_iff.mpr hMem))
      ((hRange (name, k)).mpr hCount) hClash
    have hZero : 0 = k := congrArg Prod.snd hSame
    omega
  · rintro hFree ⟨x, m⟩ hx ⟨y, n⟩ hy hSame
    have hm : m < (i.methods.map Method.name).count x := (hRange (x, m)).mp hx
    have hn : n < (i.methods.map Method.name).count y := (hRange (y, n)).mp hy
    obtain ⟨rfl, rfl⟩ | ⟨-, hPos, rfl⟩ | ⟨-, hPos, rfl⟩ := transactionName_eq_iff.mp hSame
    · rfl
    · exact absurd (List.count_pos_iff.mp (Nat.zero_lt_of_lt hm)) (hFree y n hPos hn)
    · exact absurd (List.count_pos_iff.mp (Nat.zero_lt_of_lt hn)) (hFree x m hPos hm)

/-- The constant that a step of the proxy calls with. -/
def RequestStep.transaction? : RequestStep → Option String
  | post transaction | transact transaction => some transaction
  | _ => none

/-- The proxy makes one call, with the constant of its own method. -/
theorem MethodCode.filterMap_transaction (m : MethodCode) :
    m.request.filterMap RequestStep.transaction? = [m.transaction] := by
  have hSend : (m.sent.map RequestStep.send).filterMap RequestStep.transaction? = [] := by
    simp [List.filterMap_map, Function.comp_def, RequestStep.transaction?]
  have hTake : (m.takenBack.map RequestStep.takeBack).filterMap RequestStep.transaction? = [] := by
    simp [List.filterMap_map, Function.comp_def, RequestStep.transaction?]
  rw [request, List.filterMap_append, List.filterMap_append, hSend]
  cases m.method.isOneway with
  | true => rfl
  | false =>
      cases hResult : m.result <;>
        simp [response, hResult, RequestStep.transaction?, List.filterMap_cons, hTake]

theorem MethodCode.Covers.map_transaction {i : Interface} {ms : List MethodCode}
    (h : Covers ms i) : ms.map MethodCode.transaction = i.transactions := by
  have hLength : i.transactions.length = i.methods.length := by
    rw [Interface.transactions, length_transactionNamesAfter, List.length_map]
  calc
    _ = ((ms.map fun m => ((m.method, m.transaction), m.index)).map Prod.fst).map Prod.snd := by
      rw [List.map_map, List.map_map]
      rfl
    _ = i.transactions := by
      rw [h.methods, List.zipIdx_map_fst, List.map_snd_zip (Nat.le_of_eq hLength)]

/-- The constants of an interface, and what they are in its file. There is one constant
for each method. They differ exactly if no method has the numbered name of another; then
no case of the dispatcher but the method's own has the constant that the proxy's method
calls with. -/
theorem transactions_distinct_iff (i : Interface) :
    i.transactions.length = i.methods.length ∧ (i.transactions.Nodup ↔ i.FreeOfNumbered) ∧
    ∀ (w : Writer) (banner : Banner) (d : Desk), Encoding.Leads (w.encodeInterface i banner) d
      (fun text _ => ∃ ms, text = i.fileText banner ms ∧
        ms.map MethodCode.transaction = i.transactions ∧
        (∀ m ∈ ms, m.request.filterMap RequestStep.transaction? = [m.transaction]) ∧
        (i.FreeOfNumbered → ∀ m ∈ ms, ∀ m' ∈ ms,
          m'.transaction ∈ m.request.filterMap RequestStep.transaction? → m' = m))
      fun _ => True := by
  refine ⟨?_, i.nodup_transactions, fun w banner d => ?_⟩
  · rw [Interface.transactions, length_transactionNamesAfter, List.length_map]
  · refine .bind ((w.encodeMethods_leads i d).mono (fun ms e h => ?_) fun _ h => h)
    have hConstants := h.1.map_transaction
    refine .pure ⟨ms, rfl, hConstants, fun m _ => m.filterMap_transaction, ?_⟩
    intro hFree m hm m' hm' hCall
    rw [m.filterMap_transaction, List.mem_singleton] at hCall
    have hNodup : (ms.map MethodCode.transaction).Nodup := by
      rw [hConstants]
      exact i.nodup_transactions.mpr hFree
    exact List.inj_on_of_nodup_map hNodup hm' hm hCall

/-- A definition with three methods of one name, and another method whose name looks
numbered but is not a number that is given. -/
private def shelfTokens : List Token :=
  (Scan.place .start (Scan.lexemes (
    "package demo; interface IShelf \x7b" ++
    "  void put(in int a); void put(in long a); void put(in String a); void put_3(in UUID a);" ++
    "\x7d").toList).1).1

theorem transactions_distinct_iff_shelf : ∃ i, Interface.ofTokens shelfTokens = .ok (some i) ∧
    i.transactions =
      ["TRANSACTION_put", "TRANSACTION_put_1", "TRANSACTION_put_2", "TRANSACTION_put_3"] ∧
    i.FreeOfNumbered := by
  have hRun : (Interface.ofTokens shelfTokens).toOption.join.map Interface.transactions = some
      ["TRANSACTION_put", "TRANSACTION_put_1", "TRANSACTION_put_2", "TRANSACTION_put_3"] := by
    decide +kernel
  obtain ⟨i, hTokens, hNames⟩ := Interface.exists_of_run hRun
  refine ⟨i, hTokens, hNames, (transactions_distinct_iff i).2.1.mp ?_⟩
  rw [hNames]
  decide

/-- A definition whose third method has the numbered name of the second. -/
private def storeTokens : List Token :=
  (Scan.place .start (Scan.lexemes (
    "package demo; interface IStore \x7b" ++
    "  void put(in int a); void put(in long a); void put_1(in int a);" ++
    "\x7d").toList).1).1

theorem transactions_clash : ∃ i, Interface.ofTokens storeTokens = .ok (some i) ∧
    i.transactions = ["TRANSACTION_put", "TRANSACTION_put_1", "TRANSACTION_put_1"] ∧
    ¬ i.transactions.Nodup := by
  have hRun : (Interface.ofTokens storeTokens).toOption.join.map Interface.transactions = some
      ["TRANSACTION_put", "TRANSACTION_put_1", "TRANSACTION_put_1"] := by
    decide +kernel
  obtain ⟨i, hTokens, hNames⟩ := Interface.exists_of_run hRun
  refine ⟨i, hTokens, hNames, ?_⟩
  rw [hNames]
  decide

end BinderIdl
