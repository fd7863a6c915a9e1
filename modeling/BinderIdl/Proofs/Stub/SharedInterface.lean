import BinderIdl.Proofs.Marshal.Independence
import BinderIdl.Proofs.Stub.Queries
import BinderIdl.Proofs.Stub.TemporaryNames

/-! Several writers of one interface. The first writer binds every argument that any
pass can reach: another writer's pass poses the same queries, and it stops at the same
query if one fails. So all passes have the code of the first writer, with numbers from
the first writer's count. -/
namespace BinderIdl

open Java

namespace Binding

variable {b : Binding} {site : Site} {phase : Phase} {x : String}

/-- Whether there is code does not depend on the count. -/
theorem code_eq_error_iff {n : Nat} {fault : EncodeFault} :
    b.code site phase x n = .error fault ↔
      b.scheme.cell b.declared b.argument.direction site phase = .refused ∧ fault = b.refusal := by
  rw [code]
  cases b.scheme.cell b.declared b.argument.direction site phase with
  | refused => simp [Emission.emit?, eq_comm]
  | plain code => simp [Emission.emit?]
  | scratch code => simp [Emission.emit?]

end Binding

namespace Writer

/-- The fault of a query that has no answer. -/
def fault? (w : Writer) (q : Query) : Option EncodeFault :=
  match w.codeFor q.argument q.site q.phase q.name 0 with
  | .ok _ => none
  | .error fault => some fault

variable {v w : Writer} {q : Query} {n : Nat}

theorem codeFor_eq_error_iff {fault : EncodeFault} :
    w.codeFor q.argument q.site q.phase q.name n = .error fault ↔ w.fault? q = some fault := by
  have hZero : w.fault? q = some fault ↔
      w.codeFor q.argument q.site q.phase q.name 0 = .error fault := by
    rw [fault?]
    cases w.codeFor q.argument q.site q.phase q.name 0 <;> simp
  rw [hZero, codeFor, codeFor]
  cases Binding.make w.number w.context q.argument with
  | error fault' => exact Iff.rfl
  | ok b => exact Binding.code_eq_error_iff.trans Binding.code_eq_error_iff.symm

theorem fault?_eq_none_of_codeFor {r : Fragment × Nat}
    (h : w.codeFor q.argument q.site q.phase q.name n = .ok r) : w.fault? q = none := by
  cases hFault : w.fault? q with
  | none => rfl
  | some fault =>
      rw [codeFor_eq_error_iff.mpr hFault] at h
      cases h

/-- Two writers whose contexts come from one interface read its types alike. -/
structure Akin (v w : Writer) : Prop where
  typeParameters : v.context.typeParameters = w.context.typeParameters
  source : v.context.source = w.context.source

theorem Akin.make_eq_error (h : v.Akin w) {a : Argument} {fault : EncodeFault}
    (hMake : Binding.make w.number w.context a = .error fault) :
    Binding.make v.number v.context a = .error fault := by
  have hMeaning : v.context.meaning a.type = w.context.meaning a.type := by
    rw [Context.meaning, Context.meaning, Context.parameter?, Context.parameter?, h.typeParameters]
  rw [Binding.make] at hMake ⊢
  rw [hMeaning, h.source]
  split at hMake
  · cases hMake
  · exact hMake

end Writer

namespace Desk

/-- A query needs no new binding: its argument is bound or cannot be. -/
def Settled (d : Desk) (w : Writer) (q : Query) : Prop :=
  (∃ b, d.binding? q.slot = some b) ∨
    ∃ fault, Binding.make w.number w.context q.argument = .error fault

/-- A desk has the bindings of another, and perhaps more. -/
def Grows (d e : Desk) : Prop :=
  ∀ slot b, d.binding? slot = some b → e.binding? slot = some b

/-- No query that the writer reaches needs a new binding. -/
def Prepared (d : Desk) (w : Writer) : List Query → Prop
  | [] => True
  | q :: qs => d.Settled w q ∧ (w.fault? q = none → d.Prepared w qs)

variable {d e : Desk} {w : Writer} {q : Query} {qs : List Query}

theorem Settled.mono (h : d.Settled w q) (hGrows : d.Grows e) : e.Settled w q := by
  rcases h with ⟨b, hb⟩ | hFault
  · exact .inl ⟨b, hGrows _ b hb⟩
  · exact .inr hFault

theorem Prepared.mono (h : d.Prepared w qs) (hGrows : d.Grows e) : e.Prepared w qs := by
  induction qs with
  | nil => trivial
  | cons q qs ih => exact ⟨h.1.mono hGrows, fun hNone => ih (h.2 hNone)⟩

end Desk

namespace Writer

open Encoding

variable {v w : Writer} {args : Slot → Argument} {d : Desk} {q : Query}

/-- Bound before or bound now, an argument has the code of its binding. -/
theorem ask_of_make {b : Binding} (hClear : w.context.Clear q.argument.type) (hKeeps : d.Keeps w args)
    (hq : args q.slot = q.argument) (hReady : v = w ∨ d.Settled w q)
    (hMake : Binding.make w.number w.context q.argument = .ok b) :
    ∃ e : Desk, (∀ s, e.binding? s = if s = q.slot then some b else d.binding? s) ∧
      e.counts = d.counts ∧ v.ask q d = b.finish q.site q.phase q.name e := by
  have hObstacle := Binding.obstacle?_of_make hClear hMake
  cases hSlot : d.binding? q.slot with
  | some b' =>
      have hSame := hKeeps q.slot b' hSlot
      rw [hq, hMake] at hSame
      cases hSame
      obtain ⟨e, hBindings, hCounts, hEncode⟩ := encode_of_bound v q.argument q.site q.phase
        q.name hSlot hObstacle
      refine ⟨e, fun s => ?_, hCounts, hEncode⟩
      rw [Desk.binding?, hBindings]
      split
      · rename_i hs
        rw [hs]
        exact hSlot
      · rfl
  | none =>
      have hSelf : v = w := by
        rcases hReady with hSelf | ⟨b', hb'⟩ | ⟨fault, hFault⟩
        · exact hSelf
        · rw [hSlot] at hb'
          cases hb'
        · rw [hMake] at hFault
          cases hFault
      subst hSelf
      obtain ⟨e, hBindings, hCounts, hEncode⟩ := encode_of_bind q.site q.phase q.name
        (bind_of_make hSlot hMake hObstacle) hObstacle
      refine ⟨e, fun s => ?_, hCounts, hEncode⟩
      rw [Desk.binding?, hBindings]
      exact d.binding?_keep b q.slot s

/-- All that a query can do, posed by the writer of the bindings or, if it needs no new
binding, by another one: it has the answer of the writer of the bindings. -/
theorem ask_cases (hClear : w.context.Clear q.argument.type) (hKeeps : d.Keeps w args)
    (hAkin : v.Akin w) (hq : args q.slot = q.argument) (hReady : v = w ∨ d.Settled w q) :
    ∃ e : Desk, e.Keeps w args ∧ d.Grows e ∧ e.Settled w q ∧
      match w.codeFor q.argument q.site q.phase q.name (d.counts w.number) with
      | .ok (f, n) => v.ask q d = .ok f e ∧ e.counts = (d.setCount w.number n).counts
      | .error fault => v.ask q d = .error fault e ∧ e.counts = d.counts := by
  cases hMake : Binding.make w.number w.context q.argument with
  | error fault =>
      have hNone : d.binding? q.slot = none := by
        cases hSlot : d.binding? q.slot with
        | none => rfl
        | some b =>
            have hBound := hKeeps q.slot b hSlot
            rw [hq, hMake] at hBound
            cases hBound
      refine ⟨d, hKeeps, fun _ _ h => h, .inr ⟨fault, hMake⟩, ?_⟩
      rw [codeFor, hMake]
      exact ⟨encode_of_malformed hNone (hAkin.make_eq_error hMake), rfl⟩
  | ok b =>
      obtain ⟨e, hBindings, hCounts, hAsk⟩ := ask_of_make hClear hKeeps hq hReady hMake
      have hOwn : e.Keeps w args := by
        intro s b' hb'
        rw [hBindings] at hb'
        split at hb'
        · rename_i hs
          cases hb'
          rw [hs, hq, hMake]
        · exact hKeeps s b' hb'
      have hGrows : d.Grows e := by
        intro s b' hb'
        rw [hBindings]
        split
        · rename_i hs
          have hSame := hKeeps s b' hb'
          rw [hs, hq, hMake] at hSame
          cases hSame
          rfl
        · exact hb'
      have hSettled : e.Settled w q := .inl ⟨b, by rw [hBindings, if_pos rfl]⟩
      rw [codeFor_of_make hMake, ← (Binding.of_make hMake).1, ← hCounts]
      cases hCode : b.code q.site q.phase q.name (e.counts b.owner) with
      | ok r =>
          refine ⟨e.setCount b.owner r.2, hOwn, hGrows, hSettled,
            hAsk.trans (Binding.finish_of_ok hCode), ?_⟩
          simp only [Desk.setCount, hCounts]
      | error fault =>
          exact ⟨e, hOwn, hGrows, hSettled, hAsk.trans (Binding.finish_of_error hCode), rfl⟩

end Writer

namespace Poses

open Encoding

variable {β : Type} {x : Writer → Encoding β} {qs : List Query} {v w : Writer}
  {args : Slot → Argument} {d e : Desk}

/-- A pass by the writer of the bindings, or by another one on a desk that is prepared for
it, fails with the first fault that the writer of the bindings has. Afterwards the desk is
prepared for every such pass, and no count but that of the writer of the bindings is
another. -/
theorem leaves (hx : Poses x qs) (hClear : ∀ type, w.context.Clear type) (hKeeps : d.Keeps w args)
    (hAkin : v.Akin w) (hArgs : ∀ q ∈ qs, args q.slot = q.argument)
    (hReady : v = w ∨ d.Prepared w qs) :
    ∃ e : Desk, e.Keeps w args ∧ d.Grows e ∧ e.Prepared w qs ∧
      (∀ k, k ≠ w.number → e.counts k = d.counts k) ∧
      match qs.findSome? w.fault? with
      | some fault => x v d = .error fault e
      | none => ∃ b, x v d = .ok b e := by
  induction hx generalizing d with
  | done b => exact ⟨d, hKeeps, fun _ _ h => h, trivial, fun _ _ => rfl, b, rfl⟩
  | @ask next qs q hNext ih =>
      have hFirst : v = w ∨ d.Settled w q := hReady.imp_right And.left
      obtain ⟨e, hOwn, hGrows, hSettled, hAsk⟩ :=
        Writer.ask_cases (hClear _) hKeeps hAkin (hArgs q List.mem_cons_self) hFirst
      rw [List.findSome?_cons]
      cases hCode : w.codeFor q.argument q.site q.phase q.name (d.counts w.number) with
      | error fault =>
          rw [hCode] at hAsk
          have hFault := Writer.codeFor_eq_error_iff.mp hCode
          rw [hFault]
          refine ⟨e, hOwn, hGrows, ⟨hSettled, fun hNone => ?_⟩, fun k _ => ?_,
            bind_of_error hAsk.1⟩
          · rw [hFault] at hNone
            cases hNone
          · rw [hAsk.2]
      | ok r =>
          rw [hCode] at hAsk
          have hNone := Writer.fault?_eq_none_of_codeFor hCode
          have hRest : v = w ∨ e.Prepared w qs :=
            hReady.imp_right fun h => (h.2 hNone).mono hGrows
          obtain ⟨e', hOwn', hGrows', hPrepared, hCounts, hRun⟩ :=
            ih r.1 hOwn (fun q hq => hArgs q (List.mem_cons_of_mem _ hq)) hRest
          refine ⟨e', hOwn', fun s b hb => hGrows' s b (hGrows s b hb),
            ⟨hSettled.mono hGrows', fun _ => hPrepared⟩, fun k hk => ?_, ?_⟩
          · rw [hCounts k hk, hAsk.2]
            exact if_neg hk
          · rw [hNone]
            simp only [bind_of_ok hAsk.1]
            exact hRun

/-- Two passes from one count of the writer of the bindings have one answer. -/
theorem answer_congr (hx : Poses x qs) (hClear : ∀ type, w.context.Clear type)
    (hKeeps : d.Keeps w args) (hOther : e.Keeps w args) (hCount : d.counts w.number = e.counts w.number)
    (hAkin : v.Akin w) (hArgs : ∀ q ∈ qs, args q.slot = q.argument)
    (hReady : v = w ∨ d.Prepared w qs) : (x v).answer d = (x w).answer e := by
  induction hx generalizing d e with
  | done b => rfl
  | @ask next qs q hNext ih =>
      have hFirst : v = w ∨ d.Settled w q := hReady.imp_right And.left
      have hq := hArgs q List.mem_cons_self
      obtain ⟨d', hOwn, hGrows, -, hAsk⟩ := Writer.ask_cases (hClear _) hKeeps hAkin hq hFirst
      obtain ⟨e', hOwn', -, -, hAsk'⟩ := Writer.ask_cases (hClear _) hOther ⟨rfl, rfl⟩ hq (.inl rfl)
      rw [← hCount] at hAsk'
      cases hCode : w.codeFor q.argument q.site q.phase q.name (d.counts w.number) with
      | error fault =>
          rw [hCode] at hAsk hAsk'
          rw [answer_of_error (bind_of_error hAsk.1), answer_of_error (bind_of_error hAsk'.1)]
      | ok r =>
          rw [hCode] at hAsk hAsk'
          have hNone := Writer.fault?_eq_none_of_codeFor hCode
          have hSame : d'.counts w.number = e'.counts w.number := by
            rw [hAsk.2, hAsk'.2]
            simp [Desk.setCount]
          rw [answer_bind_of_ok hAsk.1, answer_bind_of_ok hAsk'.1]
          exact ih r.1 hOwn hOwn' hSame (fun q hq => hArgs q (List.mem_cons_of_mem _ hq))
            (hReady.imp_right fun h => (h.2 hNone).mono hGrows)

end Poses

/-- The argument in a slot of an interface. Slots that the interface does not have are
never asked for. -/
def Interface.argumentAt (i : Interface) (slot : Slot) : Argument :=
  (i.argument? slot).getD ⟨.into, "", "", none⟩

/-- The comment at the start of a file as text. -/
def Banner.text (b : Banner) : String := String.join (b.lines.map fun line => line ++ "\n")

/-- What follows the comment in a file. -/
def Interface.codeText (i : Interface) (ms : List MethodCode) : String :=
  String.join ((i.codeLines ms).map fun line => line ++ "\n")

theorem Interface.fileText_eq (i : Interface) (banner : Banner) (ms : List MethodCode) :
    i.fileText banner ms = banner.text ++ i.codeText ms := by
  simp [fileText, Banner.text, codeText]

namespace Writer

open Encoding

variable {v w : Writer} {i : Interface} {d e : Desk}

theorem encodeInterface_of_pass {ms : List MethodCode} (banner : Banner)
    (h : v.pass i (d.setCount v.number 0) = .ok ms e) :
    v.encodeInterface i banner d =
      .ok (i.fileText banner ms) (e.record [.encoded ms.length i.qualifiedName]) := by
  have hMethods : v.encodeMethods i d =
      .ok ms (e.record [.encoded ms.length i.qualifiedName]) := by
    change (v.pass i >>= _) (d.setCount v.number 0) = _
    rw [bind_of_ok h]
    rfl
  rw [encodeInterface, bind_of_ok hMethods]
  rfl

theorem encodeInterface_of_fault {fault : EncodeFault} (banner : Banner)
    (h : v.pass i (d.setCount v.number 0) = .error fault e) :
    v.encodeInterface i banner d = .error fault e := by
  apply bind_of_error
  change (v.pass i >>= _) (d.setCount v.number 0) = _
  exact bind_of_error h

/-- What a file by a writer has to do with the writer of the bindings, who has counted to
a number when the file is begun. -/
theorem encodeInterface_shared {n : Nat} (hClear : ∀ type, w.context.Clear type)
    (hAkin : v.Akin w) (hKeeps : d.Keeps w i.argumentAt) (hReady : v = w ∨ d.Prepared w i.queries)
    (hCount : (d.setCount v.number 0).counts w.number = n) (banner : Banner) :
    ((v.encodeInterface i banner).desk d).Keeps w i.argumentAt ∧
    ((v.encodeInterface i banner).desk d).Prepared w i.queries ∧
    (v.number ≠ w.number → ((v.encodeInterface i banner).desk d).counts v.number = 0) ∧
    match i.queries.findSome? w.fault? with
    | some fault => (v.encodeInterface i banner).answer d = .error fault
    | none => ∃ ms e, w.pass i (({} : Desk).setCount w.number n) = .ok ms e ∧
        (v.encodeInterface i banner).answer d = .ok (i.fileText banner ms) := by
  have hArgs : ∀ q ∈ i.queries, i.argumentAt q.slot = q.argument := by
    intro q hq
    rw [Interface.argumentAt, Interface.argument?_of_mem_queries hq]
    rfl
  have hStart : (d.setCount v.number 0).Keeps w i.argumentAt := hKeeps
  have hReady' : v = w ∨ (d.setCount v.number 0).Prepared w i.queries :=
    hReady.imp_right fun h => h.mono fun _ _ hb => hb
  obtain ⟨e, hOwn, -, hPrepared, hCounts, hRun⟩ :=
    (poses_pass i).leaves hClear hStart hAkin hArgs hReady'
  have hZero : v.number ≠ w.number → e.counts v.number = 0 := by
    intro hOther
    rw [hCounts _ hOther]
    exact if_pos rfl
  cases hFault : i.queries.findSome? w.fault? with
  | some fault =>
      rw [hFault] at hRun
      have hFile := encodeInterface_of_fault banner hRun
      rw [desk_of_error hFile]
      exact ⟨hOwn, hPrepared, hZero, answer_of_error hFile⟩
  | none =>
      rw [hFault] at hRun
      obtain ⟨ms, hPass⟩ := hRun
      have hFile := encodeInterface_of_pass banner hPass
      have hEmpty := Desk.keeps_setCount w i.argumentAt w.number n
      have hFresh : (({} : Desk).setCount w.number n).counts w.number = n := if_pos rfl
      have hSame := (poses_pass i).answer_congr hClear hStart hEmpty (hCount.trans hFresh.symm)
        hAkin hArgs hReady'
      rw [answer_of_ok hPass] at hSame
      rw [desk_of_ok hFile]
      refine ⟨hOwn, hPrepared.mono fun _ _ hb => hb, hZero, ms, ?_⟩
      cases hOwnPass : w.pass i (({} : Desk).setCount w.number n) with
      | error fault e' =>
          rw [answer_of_error hOwnPass] at hSame
          cases hSame
      | ok ms' e' =>
          rw [answer_of_ok hOwnPass] at hSame
          cases hSame
          exact ⟨e', rfl, answer_of_ok hFile⟩

/-- No two temporaries of a pass share a name, whatever it starts to count from. -/
theorem nodup_of_pass {ms : List MethodCode} {n : Nat}
    (h : w.pass i (({} : Desk).setCount w.number n) = .ok ms e) :
    ((ms.flatMap MethodCode.fragments).flatMap Fragment.declared).Nodup := by
  obtain ⟨-, hCalls⟩ := (w.pass_leads i _).of_ok h
  have hOwned : (({} : Desk).setCount w.number n).OwnedBy w.number := by
    intro _ _ hb
    cases hb
  have hCodes : ms.flatMap MethodCode.fragments = (ms.flatMap MethodCode.calls).map Call.code := by
    rw [List.map_flatMap]
    rfl
  rw [hCodes]
  exact (hCalls.numbered hOwned).2.nodup_declared.1

end Writer

/-- What a writer has of its own: the names it knows to be Parcelable, a way to look for
sources, and the comment of its files. -/
structure Author where
  known : List String
  lookup : Option (String → String → Bool)
  banner : Banner

namespace Author

/-- The writer with a number for an interface. -/
def writer (a : Author) (i : Interface) (source : Option Source) (number : Nat) : Writer :=
  ⟨number, {
    package := i.package, imports := i.imports, typeParameters := i.typeParameters
    known := a.known, lookup := a.lookup, source }⟩

/-- A file of the interface by the author. -/
def write (a : Author) (i : Interface) (source : Option Source) (number : Nat) : Encoding String :=
  (a.writer i source number).encodeInterface i a.banner

/-- The desk after some of the authors have written files, one after another. -/
def deskAfter (authors : List Author) (i : Interface) (source : Option Source) (d : Desk)
    (calls : List (Fin authors.length)) : Desk :=
  calls.foldl (fun d k => ((authors.get k).write i source k).desk d) d

variable {authors : List Author} {i : Interface} {source : Option Source} {w : Writer} {d : Desk}

theorem clear_writer (a : Author) (number : Nat) (type : String) :
    (a.writer i source number).context.Clear type := Context.clear_of_obstacle? (fun _ _ => rfl) type

theorem akin_writer (a b : Author) (m n : Nat) :
    (a.writer i source m).Akin (b.writer i source n) := ⟨rfl, rfl⟩

/-- Files of any authors leave the desk as the first one prepared it. -/
theorem prepared_deskAfter (a : Author) (number : Nat) (calls : List (Fin authors.length))
    (hKeeps : d.Keeps (a.writer i source number) i.argumentAt)
    (hPrepared : d.Prepared (a.writer i source number) i.queries) :
    (deskAfter authors i source d calls).Keeps (a.writer i source number) i.argumentAt ∧
      (deskAfter authors i source d calls).Prepared (a.writer i source number) i.queries := by
  induction calls generalizing d with
  | nil => exact ⟨hKeeps, hPrepared⟩
  | cons k calls ih =>
      obtain ⟨hOwn, hReady, -, -⟩ := Writer.encodeInterface_shared (a.clear_writer number)
        ((authors.get k).akin_writer a k number) hKeeps (.inr hPrepared) rfl (authors.get k).banner
      exact ih hOwn hReady

end Author

/-- Authors write files of one interface in any order, any number of times. After the
first file, all bindings are those of its author. Either all files fail, with the fault of
the first, or none does. Each file is then the comment of its own author and the code that
the first author's pass gives, counted from zero in files of the first author and onwards
in files of others, whose own counts are zero. -/
theorem shared_interface (i : Interface) (source : Option Source) (authors : List Author)
    (first : Fin authors.length) (calls : List (Fin authors.length)) :
    let owner := (authors.get first).writer i source first
    let d := Author.deskAfter authors i source {} (first :: calls)
    (∀ slot b, d.binding? slot = some b → b.owner = first ∧ b.context = owner.context) ∧
    match ((authors.get first).write i source first).answer {} with
    | .error fault => ∀ k, ((authors.get k).write i source k).answer d = .error fault
    | .ok text => ∀ k, ∃ ms e,
        owner.pass i (({} : Desk).setCount first (if k = first then 0 else d.counts first)) =
          .ok ms e ∧
        ((authors.get k).write i source k).answer d =
          .ok ((authors.get k).banner.text ++ i.codeText ms) ∧
        (k = first → (authors.get k).banner.text ++ i.codeText ms = text) ∧
        (k ≠ first → (((authors.get k).write i source k).desk d).counts k = 0) ∧
        ((ms.flatMap MethodCode.fragments).flatMap Fragment.declared).Nodup := by
  intro owner d
  have hEmpty : ({} : Desk).Keeps owner i.argumentAt := by
    intro _ _ h
    cases h
  have hClear : ∀ type, owner.context.Clear type := (authors.get first).clear_writer first
  obtain ⟨hOwn, hPrepared, -, hFirst⟩ := Writer.encodeInterface_shared (v := owner) (n := 0) hClear
    ⟨rfl, rfl⟩ hEmpty (.inl rfl) (if_pos rfl) (authors.get first).banner
  obtain ⟨hKeeps, hReady⟩ :=
    Author.prepared_deskAfter (authors.get first) first calls hOwn hPrepared
  have hCount : ∀ k : Fin authors.length,
      (d.setCount k 0).counts first = if k = first then 0 else d.counts first := by
    intro k
    simp [Desk.setCount, eq_comm, Fin.ext_iff]
  have hAny := fun k : Fin authors.length => Writer.encodeInterface_shared hClear
    ((authors.get k).akin_writer (authors.get first) k first) hKeeps (.inr hReady) (hCount k)
    (authors.get k).banner
  refine ⟨fun slot b hb => ?_, ?_⟩
  · obtain ⟨type, -, rfl⟩ := Binding.make_eq_ok_iff.mp (hKeeps slot b hb)
    exact ⟨rfl, rfl⟩
  cases hFault : i.queries.findSome? owner.fault? with
  | some fault =>
      rw [hFault] at hFirst
      rw [Author.write, show ((authors.get first).writer i source first) = owner from rfl, hFirst]
      intro k
      have hk := (hAny k).2.2.2
      rw [hFault] at hk
      exact hk
  | none =>
      rw [hFault] at hFirst
      obtain ⟨ms₁, e₁, hPass₁, hText₁⟩ := hFirst
      rw [Author.write, show ((authors.get first).writer i source first) = owner from rfl, hText₁]
      intro k
      obtain ⟨-, -, hZero, hk⟩ := hAny k
      rw [hFault] at hk
      obtain ⟨ms, e, hPass, hText⟩ := hk
      rw [i.fileText_eq] at hText
      refine ⟨ms, e, hPass, hText, fun hSelf => ?_, fun hOther => ?_, Writer.nodup_of_pass hPass⟩
      · -- A later file of the first author counts from zero again.
        rw [if_pos hSelf] at hPass
        have hBoth := hPass₁.symm.trans hPass
        cases hBoth
        rw [i.fileText_eq, hSelf]
      · exact hZero fun h => hOther (Fin.ext h)

/-- An interface whose only method needs temporaries at both ends. -/
private def renewals : Interface where
  package := "demo"
  imports := []
  javadoc := none
  modifiers := []
  name := "IRenewals"
  typeBlock := none
  typeParameters := []
  methods := [{
    name := "renew", returnType := "void", arguments := [⟨.inout, "UUID[]", "ids", none⟩]
    modifiers := [], javadoc := none, position := 0, result := none }]

private def printers : List Author :=
  [⟨[], none, {}⟩, ⟨["demo.Ids"], none, { sourceName := some "IRenewals.aidl" }⟩]

private def firstPrinter : Fin printers.length := ⟨0, Nat.zero_lt_two⟩

private def secondPrinter : Fin printers.length := ⟨1, Nat.one_lt_two⟩

/-- The second author's file goes on from the four temporaries of the first one's. -/
theorem shared_interface_renewals :
    let d := Author.deskAfter printers renewals none {} [firstPrinter]
    d.counts firstPrinter = 4 ∧ ∃ ms e,
      ((printers.get firstPrinter).writer renewals none firstPrinter).pass renewals
        (({} : Desk).setCount firstPrinter 4) = .ok ms e ∧
      ((printers.get secondPrinter).write renewals none secondPrinter).answer d =
        .ok ((printers.get secondPrinter).banner.text ++ renewals.codeText ms) := by
  have hCount : (Author.deskAfter printers renewals none {} [firstPrinter]).counts
      firstPrinter = 4 := by
    decide +kernel
  have hFirst : (((printers.get firstPrinter).write renewals none firstPrinter).answer
      {}).toBool = true := by
    decide +kernel
  obtain ⟨-, hFiles⟩ := shared_interface renewals none printers firstPrinter []
  cases hText : ((printers.get firstPrinter).write renewals none firstPrinter).answer {} with
  | error fault =>
      rw [hText] at hFirst
      cases hFirst
  | ok text =>
      rw [hText] at hFiles
      obtain ⟨ms, e, hPass, hFile, -⟩ := hFiles secondPrinter
      rw [if_neg (by decide), hCount] at hPass
      exact ⟨hCount, ms, e, hPass, hFile⟩

end BinderIdl
