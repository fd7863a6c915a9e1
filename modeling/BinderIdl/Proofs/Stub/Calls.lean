import BinderIdl.Proofs.Marshal.Encode
import BinderIdl.Stub.Text

/-! The pass over an interface as the calls of the encoder that it makes, in order.
What a pass does follows from what a call does, by induction over its calls. -/
namespace BinderIdl

open Java Encoding

/-- A call of the encoder, with the code that it gave. -/
structure Call where
  slot : Slot
  argument : Argument
  site : Site
  phase : Phase
  name : String
  code : Fragment

/-- From a desk, calls that succeed one after another lead to a desk. -/
inductive Calls (w : Writer) : Desk → List Call → Desk → Prop
  | nil {d : Desk} : Calls w d [] d
  | cons {d e e' : Desk} {c : Call} {cs : List Call}
      (hCall : w.Encoded c.slot c.argument c.site c.phase c.name d c.code e)
      (hRest : Calls w e cs e') : Calls w d (c :: cs) e'

theorem Calls.append {w : Writer} {d e e' : Desk} {cs cs' : List Call} (h : Calls w d cs e)
    (h' : Calls w e cs' e') : Calls w d (cs ++ cs') e' := by
  induction h with
  | nil => exact h'
  | cons hCall _ ih => exact .cons hCall (ih h')

/-- The calls for an argument in a phase. -/
def argumentCalls (method : Nat) (phase : Phase) (entry : Argument × Nat)
    (code : Fragment × Fragment) : List Call :=
  [⟨⟨method, some entry.2⟩, entry.1, .dispatcher, phase, argumentLocal entry.2, code.1⟩,
    ⟨⟨method, some entry.2⟩, entry.1, .proxy, phase, entry.1.name, code.2⟩]

/-- The calls for a result. -/
def ResultCode.calls (method : Nat) (r : ResultCode) : List Call :=
  [⟨⟨method, none⟩, r.argument, .dispatcher, .post, r.argument.name, r.giveBack⟩,
    ⟨⟨method, none⟩, r.argument, .proxy, .post, r.argument.name, r.takeBack⟩]

namespace MethodCode

/-- The calls for a method. -/
def calls (m : MethodCode) : List Call :=
  m.arguments.flatMap
      (fun a => argumentCalls m.index .pre (a.argument, a.index) (a.receive, a.send)) ++
    m.result.toList.flatMap (·.calls m.index) ++
    m.arguments.flatMap
      fun a => argumentCalls m.index .post (a.argument, a.index) (a.giveBack, a.takeBack)

/-- The code has all parts of its method, each in its place. -/
structure Complete (m : MethodCode) : Prop where
  arguments : m.arguments.map (fun a => (a.argument, a.index)) = m.method.arguments.zipIdx
  result : m.result.map ResultCode.argument = m.method.result

end MethodCode

/-- A pair more in both lists is a pair more in the zipped list. -/
theorem zip_append_singleton {β γ : Type} {xs : List β} {ys : List γ} {x : β} {y : γ}
    (h : xs[ys.length]? = some x) : xs.zip (ys ++ [y]) = xs.zip ys ++ [(x, y)] := by
  induction ys generalizing xs with
  | nil =>
      cases xs with
      | nil => cases h
      | cons x' xs => cases h; simp
  | cons y' ys ih =>
      cases xs with
      | nil => cases h
      | cons x' xs => simpa using ih h

theorem zip_eq_map_zip_zip {β γ δ : Type} (xs : List β) {ys : List γ} {zs : List δ}
    (h : ys.length = zs.length) :
    xs.zip ys = (xs.zip (ys.zip zs)).map (Prod.map id Prod.fst) ∧
      xs.zip zs = (xs.zip (ys.zip zs)).map (Prod.map id Prod.snd) := by
  rw [← List.zip_map_right, ← List.zip_map_right, List.map_fst_zip (by omega),
    List.map_snd_zip (by omega)]
  exact ⟨rfl, rfl⟩

namespace Writer

variable {w : Writer} {d : Desk}

/-- Encoding one thing after another makes the calls for each, one after another. -/
theorem mapM_calls {β γ : Type} {f : γ → Encoding β} (xs : List γ) (calls : γ → β → List Call)
    (P : γ → β → Prop)
    (hStep : ∀ x e, Leads (f x) e (fun y e' => Calls w e (calls x y) e' ∧ P x y) fun _ => True) :
    Leads (xs.mapM f) d (fun ys e => ys.length = xs.length ∧
      Calls w d ((xs.zip ys).flatMap fun p => calls p.1 p.2) e ∧ ∀ p ∈ xs.zip ys, P p.1 p.2)
      fun _ => True := by
  refine .mapM (fun ys e => Calls w d ((xs.zip ys).flatMap fun p => calls p.1 p.2) e ∧
    ∀ p ∈ xs.zip ys, P p.1 p.2) ?_ ?_
  · rw [List.zip_nil_right]
    exact ⟨.nil, by simp⟩
  · rintro k x ys e hx rfl ⟨hCalls, hAll⟩
    refine (hStep x e).mono (fun y e' hMore => ?_) fun _ h => h
    rw [zip_append_singleton hx, List.flatMap_append, List.flatMap_singleton]
    refine ⟨hCalls.append hMore.1, fun p hp => ?_⟩
    obtain hp | hp := List.mem_append.mp hp
    · exact hAll p hp
    · rw [List.mem_singleton.mp hp]
      exact hMore.2

/-- Encoding the arguments of a method for a phase. -/
theorem encodeArguments_leads (index : Nat) (phase : Phase) (entries : List (Argument × Nat)) :
    Leads (entries.mapM fun (a, i) => do
        let f ← w.encode ⟨index, some i⟩ a .dispatcher phase (argumentLocal i)
        let g ← w.encode ⟨index, some i⟩ a .proxy phase a.name
        return (f, g)) d
      (fun ps e => ps.length = entries.length ∧
        Calls w d ((entries.zip ps).flatMap fun p => argumentCalls index phase p.1 p.2) e)
      fun _ => True := by
  refine (mapM_calls entries (argumentCalls index phase) (fun _ _ => True) fun entry d => ?_).mono
    (fun _ _ h => ⟨h.1, h.2.1⟩) fun _ h => h
  refine .bind (encode_leads.mono (fun f e hFirst => ?_) fun _ _ => trivial)
  refine .bind (encode_leads.mono (fun g e' hSecond => ?_) fun _ _ => trivial)
  exact .pure ⟨.cons hFirst (.cons hSecond .nil), trivial⟩

theorem encodeResult_leads (index : Nat) (m : Method) :
    Leads (w.encodeResult index m) d (fun r e => r.map ResultCode.argument = m.result ∧
      Calls w d (r.toList.flatMap (·.calls index)) e) fun _ => True := by
  unfold encodeResult
  cases m.result with
  | none => exact .pure ⟨rfl, .nil⟩
  | some r =>
      refine .bind (encode_leads.mono (fun f e hFirst => ?_) fun _ _ => trivial)
      refine .bind (encode_leads.mono (fun g e' hSecond => ?_) fun _ _ => trivial)
      exact .pure ⟨rfl, .cons hFirst (.cons hSecond .nil)⟩

/-- Encoding a method makes its calls and gives code for all of its parts. -/
theorem encodeMethod_leads (index : Nat) (transaction : String) (m : Method) :
    Leads (w.encodeMethod index transaction m) d
      (fun code e => Calls w d code.calls e ∧ code.Complete ∧ code.method = m ∧ code.index = index ∧
        code.transaction = transaction) fun _ => True := by
  refine .bind ((encodeArguments_leads index .pre _).mono (fun request e₁ hRequest => ?_) fun _ h => h)
  refine .bind ((encodeResult_leads index m).mono (fun result e₂ hResult => ?_) fun _ h => h)
  refine .bind ((encodeArguments_leads index .post _).mono (fun reply e₃ hReply => ?_) fun _ h => h)
  have hLength : request.length = reply.length := hRequest.1.trans hReply.1.symm
  obtain ⟨hFirst, hSecond⟩ := zip_eq_map_zip_zip m.arguments.zipIdx hLength
  refine .pure ⟨?_, ⟨?_, hResult.1⟩, rfl, rfl, rfl⟩
  · rw [hFirst, List.flatMap_map] at hRequest
    rw [hSecond, List.flatMap_map] at hReply
    rw [MethodCode.calls, List.flatMap_map, List.flatMap_map]
    exact (hRequest.2.append hResult.2).append hReply.2
  · rw [List.map_map]
    exact List.map_fst_zip (by rw [List.length_zip]; omega)

end Writer

/-- The code of all methods of an interface, in their order. -/
structure MethodCode.Covers (ms : List MethodCode) (i : Interface) : Prop where
  methods : ms.map (fun m => ((m.method, m.transaction), m.index)) =
    (i.methods.zip i.transactions).zipIdx
  complete : ∀ m ∈ ms, m.Complete

/-- Every method has a constant. -/
theorem length_transactionNamesAfter (seen names : List String) :
    (transactionNamesAfter seen names).length = names.length := by
  induction names generalizing seen with
  | nil => rfl
  | cons name names ih => rw [transactionNamesAfter, List.length_cons, ih, List.length_cons]

theorem MethodCode.Covers.map_method {i : Interface} {ms : List MethodCode} (h : Covers ms i) :
    ms.map MethodCode.method = i.methods := by
  have hLength : i.transactions.length = i.methods.length := by
    rw [Interface.transactions, length_transactionNamesAfter, List.length_map]
  calc
    _ = (ms.map fun m => ((m.method, m.transaction), m.index)).map fun p => p.1.1 := by
      rw [List.map_map]
      rfl
    _ = ((i.methods.zip i.transactions).zipIdx.map Prod.fst).map Prod.fst := by
      rw [h.methods, List.map_map]
      rfl
    _ = i.methods := by
      rw [List.zipIdx_map_fst, List.map_fst_zip (Nat.le_of_eq hLength.symm)]

namespace Writer

/-- The pass over the methods of an interface, from whatever the writer has counted to. -/
def pass (w : Writer) (i : Interface) : Encoding (List MethodCode) :=
  (i.methods.zip i.transactions).zipIdx.mapM fun ((m, transaction), index) =>
    w.encodeMethod index transaction m

/-- A pass makes the calls for all methods. -/
theorem pass_leads (w : Writer) (i : Interface) (d : Desk) :
    Leads (w.pass i) d (fun ms e => MethodCode.Covers ms i ∧
      Calls w d (ms.flatMap MethodCode.calls) e) fun _ => True := by
  have hAll := mapM_calls (w := w) (d := d)
    (i.methods.zip i.transactions).zipIdx (fun _ (code : MethodCode) => code.calls)
    (fun x code => code.Complete ∧ code.method = x.1.1 ∧ code.index = x.2 ∧
      code.transaction = x.1.2)
    fun x _ => encodeMethod_leads x.2 x.1.2 x.1.1
  refine hAll.mono (fun ms e h => ?_) fun _ h => h
  obtain ⟨hLength, hCalls, hCodes⟩ := h
  -- The codes are the second parts of the pairs of entries and codes.
  have hSecond : ((i.methods.zip i.transactions).zipIdx.zip ms).map Prod.snd = ms :=
    List.map_snd_zip (Nat.le_of_eq hLength)
  refine ⟨⟨?_, ?_⟩, ?_⟩
  · calc
      _ = (((i.methods.zip i.transactions).zipIdx.zip ms).map Prod.snd).map _ := by rw [hSecond]
      _ = ((i.methods.zip i.transactions).zipIdx.zip ms).map Prod.fst := by
        rw [List.map_map]
        refine List.map_congr_left fun p hp => ?_
        obtain ⟨-, hMethod, hIndex, hTransaction⟩ := hCodes p hp
        simp only [Function.comp, hMethod, hIndex, hTransaction]
      _ = _ := List.map_fst_zip (Nat.le_of_eq hLength.symm)
  · intro m hMem
    rw [← hSecond] at hMem
    obtain ⟨p, hp, rfl⟩ := List.mem_map.mp hMem
    exact (hCodes p hp).1
  · rw [← hSecond, List.flatMap_map]
    exact hCalls

/-- The code of an interface comes from a pass that starts with the writer's count at
zero. -/
theorem encodeMethods_leads (w : Writer) (i : Interface) (d : Desk) :
    Leads (w.encodeMethods i) d (fun ms e => MethodCode.Covers ms i ∧
      ∃ e', Calls w (d.setCount w.number 0) (ms.flatMap MethodCode.calls) e' ∧
        e = e'.record [.encoded ms.length i.qualifiedName]) fun _ => True := by
  refine .bind (.modify (.bind ((w.pass_leads i _).mono (fun ms e h => ?_) fun _ h => h)))
  exact .bind (.modify (.pure ⟨h.1, e, h.2, rfl⟩))

/-- A file is the text of the code that a pass gives. -/
theorem encodeMethods_of_encodeInterface {w : Writer} {i : Interface} {banner : Banner} {d e : Desk}
    {text : String} (h : w.encodeInterface i banner d = .ok text e) :
    ∃ ms, w.encodeMethods i d = .ok ms e ∧ text = i.fileText banner ms := by
  have hLeads : Encoding.Leads (w.encodeInterface i banner) d
      (fun text e => ∃ ms, w.encodeMethods i d = .ok ms e ∧ text = i.fileText banner ms)
      fun _ => True :=
    .bind (Leads.self.mono (fun ms e hMethods => .pure ⟨ms, hMethods, rfl⟩) fun _ _ => trivial)
  exact hLeads.of_ok h

end Writer

end BinderIdl
