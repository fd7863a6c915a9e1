import BinderIdl.Proofs.Stub.ParcelOrder

/-! The queries of a pass. A pass over an interface asks for the same code in the same
order whoever makes it and whatever the answers are, until a query fails. So what a pass
does follows from what a query does, by induction over its queries. -/
namespace BinderIdl

open Java

/-- A query for the code of an argument at a site in a phase. -/
structure Query where
  slot : Slot
  argument : Argument
  site : Site
  phase : Phase
  name : String

/-- Ask for code. -/
def Writer.ask (w : Writer) (q : Query) : Encoding Fragment :=
  w.encode q.slot q.argument q.site q.phase q.name

/-- Work that poses some queries in their order, whichever writer does it. What is done
with the answers has no influence on the queries. -/
inductive Poses {β : Type} : (Writer → Encoding β) → List Query → Prop
  | done (b : β) : Poses (fun _ => pure b) []
  | ask {next : Fragment → Writer → Encoding β} {qs : List Query} (q : Query)
      (hNext : ∀ f, Poses (next f) qs) : Poses (fun w => w.ask q >>= fun f => next f w) (q :: qs)

namespace Poses

variable {β γ : Type} {qs rs : List Query}

theorem one (q : Query) : Poses (fun w => w.ask q) [q] := by
  have h : Poses (fun w => w.ask q >>= fun f => (pure f : Encoding Fragment)) [q] :=
    .ask q .done
  simpa using h

theorem bind {x : Writer → Encoding γ} {y : γ → Writer → Encoding β} (hx : Poses x qs)
    (hy : ∀ c, Poses (y c) rs) : Poses (fun w => x w >>= fun c => y c w) (qs ++ rs) := by
  induction hx with
  | done c => simpa using hy c
  | ask q _ ih =>
      simp only [bind_assoc]
      exact .ask q fun f => ih f

/-- Work that ends with an answer made from others. -/
theorem map {x : Writer → Encoding γ} (hx : Poses x qs) (f : γ → β) :
    Poses (fun w => x w >>= fun c => pure (f c)) qs := by
  simpa using hx.bind fun c => .done (f c)

theorem two (q q' : Query) (f : Fragment → Fragment → β) :
    Poses (fun w => do
      let a ← w.ask q
      let b ← w.ask q'
      return f a b) [q, q'] :=
  .ask q fun a => (one q').map (f a)

theorem mapM {f : Writer → γ → Encoding β} {queries : γ → List Query}
    (h : ∀ c, Poses (fun w => f w c) (queries c)) (cs : List γ) :
    Poses (fun w => cs.mapM (f w)) (cs.flatMap queries) := by
  induction cs with
  | nil => exact .done []
  | cons c cs ih =>
      simp only [List.mapM_cons, List.flatMap_cons]
      exact (h c).bind fun b => ih.map (b :: ·)

end Poses

/-- The queries for an argument in a phase. -/
def argumentQueries (method : Nat) (phase : Phase) (entry : Argument × Nat) : List Query :=
  [⟨⟨method, some entry.2⟩, entry.1, .dispatcher, phase, argumentLocal entry.2⟩,
    ⟨⟨method, some entry.2⟩, entry.1, .proxy, phase, entry.1.name⟩]

/-- The queries for a result. -/
def resultQueries (method : Nat) (r : Argument) : List Query :=
  [⟨⟨method, none⟩, r, .dispatcher, .post, r.name⟩, ⟨⟨method, none⟩, r, .proxy, .post, r.name⟩]

/-- The queries for the method with a number. -/
def Method.queries (m : Method) (index : Nat) : List Query :=
  m.arguments.zipIdx.flatMap (argumentQueries index .pre) ++
    (m.result.toList.flatMap (resultQueries index) ++
      m.arguments.zipIdx.flatMap (argumentQueries index .post))

/-- The queries for all methods of an interface. -/
def Interface.queries (i : Interface) : List Query :=
  (i.methods.zip i.transactions).zipIdx.flatMap fun x => x.1.1.queries x.2

/-- Every query is for the argument in its slot. -/
theorem Interface.argument?_of_mem_queries {i : Interface} {q : Query} (h : q ∈ i.queries) :
    i.argument? q.slot = some q.argument := by
  obtain ⟨⟨⟨m, transaction⟩, index⟩, hEntry, hq⟩ := List.mem_flatMap.mp h
  have hMethod : i.methods[index]? = some m :=
    (List.getElem?_zip_eq_some.mp (List.mk_mem_zipIdx_iff_getElem?.mp hEntry)).1
  have hArgument : ∀ phase, q ∈ m.arguments.zipIdx.flatMap (argumentQueries index phase) →
      i.argument? q.slot = some q.argument := by
    intro phase hq
    obtain ⟨⟨a, k⟩, ha, hq⟩ := List.mem_flatMap.mp hq
    have hk := List.mk_mem_zipIdx_iff_getElem?.mp ha
    simp only [argumentQueries, List.mem_cons, List.not_mem_nil, or_false] at hq
    obtain rfl | rfl := hq <;> simpa [argument?, hMethod] using hk
  rcases List.mem_append.mp hq with hq | hq
  · exact hArgument .pre hq
  · rcases List.mem_append.mp hq with hq | hq
    · obtain ⟨r, hr, hq⟩ := List.mem_flatMap.mp hq
      simp only [resultQueries, List.mem_cons, List.not_mem_nil, or_false] at hq
      obtain rfl | rfl := hq <;> simpa [argument?, hMethod] using hr
    · exact hArgument .post hq

namespace Writer

theorem poses_arguments (index : Nat) (phase : Phase) (entries : List (Argument × Nat)) :
    Poses (fun w => entries.mapM fun (a, i) => do
        let f ← w.encode ⟨index, some i⟩ a .dispatcher phase (argumentLocal i)
        let g ← w.encode ⟨index, some i⟩ a .proxy phase a.name
        return (f, g))
      (entries.flatMap (argumentQueries index phase)) := by
  refine .mapM (fun entry => ?_) entries
  exact .two ⟨⟨index, some entry.2⟩, entry.1, .dispatcher, phase, argumentLocal entry.2⟩
    ⟨⟨index, some entry.2⟩, entry.1, .proxy, phase, entry.1.name⟩ Prod.mk

theorem poses_encodeResult (index : Nat) (m : Method) :
    Poses (fun w => w.encodeResult index m) (m.result.toList.flatMap (resultQueries index)) := by
  unfold encodeResult
  cases m.result with
  | none => exact .done none
  | some r =>
      exact .two ⟨⟨index, none⟩, r, .dispatcher, .post, r.name⟩
        ⟨⟨index, none⟩, r, .proxy, .post, r.name⟩ fun f g => some (ResultCode.mk r f g)

theorem poses_encodeMethod (index : Nat) (transaction : String) (m : Method) :
    Poses (fun w => w.encodeMethod index transaction m) (m.queries index) := by
  refine (poses_arguments index .pre _).bind fun _ => ?_
  refine (poses_encodeResult index m).bind fun _ => ?_
  exact (poses_arguments index .post _).map _

theorem poses_pass (i : Interface) : Poses (fun w => w.pass i) i.queries := by
  refine .mapM (fun x => ?_) (i.methods.zip i.transactions).zipIdx
  exact poses_encodeMethod x.2 x.1.2 x.1.1

end Writer

end BinderIdl
