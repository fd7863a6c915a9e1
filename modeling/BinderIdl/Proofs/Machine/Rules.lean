import BinderIdl.Marshal.Scheme
import BinderIdl.Proofs.Machine.Execution

/-! Rules for blocks that end in a state with a given property, and for blocks that stop
with a fault. A rule takes the first statement off a block; what a statement has inside
is put before the rest of the block, so that a proof goes through the code from the top. -/
namespace BinderIdl.Machine

open Java Run

section Monad

variable {α β γ : Type}

@[simp] theorem bind_apply (x : Run α β) (f : β → Run α γ) (s : State α) :
    (x >>= f) s = match x s with
      | .ok a s => f a s
      | .error e s => .error e s := by
  simp only [bind, EStateM.bind]
  cases x s <;> rfl

@[simp] theorem pure_apply (a : β) (s : State α) : (pure a : Run α β) s = .ok a s := rfl

@[simp] theorem map_apply (f : β → γ) (x : Run α β) (s : State α) :
    (f <$> x) s = match x s with
      | .ok a s => .ok (f a) s
      | .error e s => .error e s := by
  simp only [Functor.map, EStateM.map]
  cases x s <;> rfl

end Monad

variable {α : Type} {s : State α} {Q : State α → Prop}

/-- Going through values leads through an invariant of the values that are done.
The work may need rounds of its own for each value. -/
theorem forEach_ends (body : Nat → Value α → Run α Unit) (inv : Nat → State α → Prop)
    (items : List (Value α))
    (hStep : ∀ k v s, items[k]? = some v → inv k s →
      ∃ s', (∃ rounds, ∀ n, rounds ≤ n → body n v s = .ok () s') ∧ inv (k + 1) s')
    (hStart : inv 0 s) :
    ∃ s', (∃ rounds, ∀ n, rounds ≤ n → forEach (body n) items s = .ok () s') ∧
      inv items.length s' := by
  induction items generalizing inv s with
  | nil => exact ⟨s, ⟨0, fun _ _ => rfl⟩, hStart⟩
  | cons v vs ih =>
      obtain ⟨t, ⟨m, hFirst⟩, hNext⟩ := hStep 0 v s rfl hStart
      obtain ⟨s', ⟨n, hRest⟩, hFinal⟩ := ih (fun k => inv (k + 1))
        (fun k w u hw hInv => hStep (k + 1) w u (by simpa using hw) hInv) hNext
      refine ⟨s', ⟨max m n, fun k hk => ?_⟩, hFinal⟩
      rw [forEach, bind_apply, hFirst k (by omega)]
      exact hRest k (by omega)

/-- Values in two parts are gone through one part after the other. -/
theorem forEach_append (body : Value α → Run α Unit) (vs ws : List (Value α)) (s : State α) :
    forEach body (vs ++ ws) s = (forEach body vs >>= fun _ => forEach body ws) s := by
  induction vs generalizing s with
  | nil => rfl
  | cons v vs ih =>
      simp only [List.cons_append, forEach, bind_apply]
      cases body v s with
      | error e t => rfl
      | ok _ t => exact (ih t).trans (bind_apply _ _ t)

/-- A loop that takes a number of rounds leads through an invariant of the rounds
that are done. -/
theorem repeatWhile_ends (condition : Run α Bool) (body : Nat → Run α Unit)
    (inv : Nat → State α → Prop) (rounds : Nat)
    (hStep : ∀ k s, k < rounds → inv k s → ∃ t, condition s = .ok true t ∧
      ∃ s', (∃ m, ∀ n, m ≤ n → body n t = .ok () s') ∧ inv (k + 1) s')
    (hEnd : ∀ s, inv rounds s → ∃ t, condition s = .ok false t ∧ Q t) (hStart : inv 0 s) :
    ∃ s', (∃ m, ∀ n, m ≤ n → repeatWhile n condition (body n) s = .ok () s') ∧ Q s' := by
  -- The body is granted more rounds than are left to the loop.
  suffices h : ∀ j k, k + j = rounds → ∀ s, inv k s →
      ∃ s', (∃ m, ∀ i n, j ≤ i → m ≤ n → repeatWhile i condition (body n) s = .ok () s') ∧ Q s' by
    obtain ⟨s', ⟨m, hm⟩, hQ⟩ := h rounds 0 (Nat.zero_add rounds) s hStart
    exact ⟨s', ⟨max m rounds, fun n hn => hm n n (by omega) (by omega)⟩, hQ⟩
  intro j
  induction j with
  | zero =>
      intro k hk s hInv
      obtain rfl : k = rounds := hk
      obtain ⟨t, hCondition, hQ⟩ := hEnd s hInv
      refine ⟨t, ⟨0, fun i n _ _ => ?_⟩, hQ⟩
      cases i <;> simp [repeatWhile, hCondition]
  | succ j ih =>
      intro k hk s hInv
      obtain ⟨t, hCondition, u, ⟨m, hBody⟩, hNext⟩ := hStep k s (by omega) hInv
      obtain ⟨s', ⟨m', hRest⟩, hQ⟩ := ih (k + 1) (by omega) u hNext
      refine ⟨s', ⟨max m m', fun i n hi hn => ?_⟩, hQ⟩
      obtain ⟨l, rfl⟩ : ∃ l, i = l + 1 := ⟨i - 1, by omega⟩
      simp [repeatWhile, hCondition, hBody n (by omega), hRest l n (by omega) (by omega)]

/-- Counting up does not go around below the greatest number. -/
theorem increment_apply {x : String} {n : Nat} (hx : s.locals x = some (.int n))
    (hn : n < 2 ^ 31 - 1) : increment x s = .ok (n, n + 1) (s.set x (.int (n + 1))) := by
  have hAdd : Integral.int.narrow (n + 1) = n + 1 :=
    Integral.narrow_of_has (by simp only [Integral.Has, Integral.least, Integral.size]; omega)
  simp [increment, resolve, hx, number, setLocal, hAdd]

variable [DecidableEq α] {p : Platform α} {cs : List Stmt}

attribute [local simp] exec execAll

/-- A block of two parts runs one after the other. -/
theorem execAll_append (n : Nat) (as bs : List Stmt) (s : State α) :
    execAll p n (as ++ bs) s = (execAll p n as >>= fun _ => execAll p n bs) s := by
  induction as generalizing s with
  | nil => simp
  | cons c as ih =>
      simp only [List.cons_append, execAll, bind_apply]
      cases exec p n c s with
      | error e t => rfl
      | ok _ t => exact (ih t).trans (bind_apply _ _ t)

/-- A block ends in a state with a property: with enough rounds for its loops it
ends there, and it ends in the same state however many more they are granted. -/
def Ends (p : Platform α) (body : List Stmt) (s : State α) (Q : State α → Prop) : Prop :=
  ∃ s', (∃ rounds, ∀ n, rounds ≤ n → execAll p n body s = .ok () s') ∧ Q s'

namespace Ends

theorem nil (h : Q s) : Ends p [] s Q :=
  ⟨s, ⟨0, fun _ _ => by rw [execAll]; rfl⟩, h⟩

theorem mono {body : List Stmt} {R : State α → Prop} (h : Ends p body s Q)
    (hImp : ∀ s', Q s' → R s') : Ends p body s R := by
  obtain ⟨s', hRun, hQ⟩ := h
  exact ⟨s', hRun, hImp s' hQ⟩

/-- A statement that does the same for any number of rounds. -/
theorem step {c : Stmt} {t : State α} (hFirst : ∀ n, exec p n c s = .ok () t)
    (hRest : Ends p cs t Q) : Ends p (c :: cs) s Q := by
  obtain ⟨s', ⟨rounds, hRun⟩, hQ⟩ := hRest
  refine ⟨s', ⟨rounds, fun n hn => ?_⟩, hQ⟩
  rw [execAll, bind_apply, hFirst n]
  exact hRun n hn

/-- A statement that does what a block does. -/
theorem inside {c : Stmt} {body : List Stmt} {t : State α}
    (hFirst : ∀ n, exec p n c s = execAll p n body t) (h : Ends p (body ++ cs) t Q) :
    Ends p (c :: cs) s Q := by
  obtain ⟨s', ⟨rounds, hRun⟩, hQ⟩ := h
  refine ⟨s', ⟨rounds, fun n hn => ?_⟩, hQ⟩
  have hBoth := hRun n hn
  rw [execAll_append, bind_apply] at hBoth
  rw [execAll, bind_apply, hFirst n]
  exact hBoth

/-- One block after another. -/
theorem append {as bs : List Stmt} {R : State α → Prop} (hFirst : Ends p as s R)
    (hRest : ∀ t, R t → Ends p bs t Q) : Ends p (as ++ bs) s Q := by
  obtain ⟨t, ⟨m, hRun⟩, hR⟩ := hFirst
  obtain ⟨s', ⟨n, hRun'⟩, hQ⟩ := hRest t hR
  refine ⟨s', ⟨max m n, fun k hk => ?_⟩, hQ⟩
  rw [execAll_append, bind_apply, hRun k (by omega)]
  exact hRun' k (by omega)

theorem declare {final : Bool} {type x : String} (h : Ends p cs s Q) :
    Ends p (.declare final type x none :: cs) s Q :=
  step (fun n => by rw [exec]; rfl) h

theorem declareAs {final : Bool} {type x : String} {e : Expr} {v : Value α} {t : State α}
    (he : eval p e s = .ok v t) (h : Ends p cs (t.set x v) Q) :
    Ends p (.declare final type x (some e) :: cs) s Q :=
  step (fun n => by rw [exec, bind_apply, he]; rfl) h

theorem assign {x : String} {e : Expr} {v : Value α} {t : State α} (he : eval p e s = .ok v t)
    (h : Ends p cs (t.set x v) Q) : Ends p (.assign (.name x) e :: cs) s Q :=
  step (fun n => by rw [exec, bind_apply, he]; rfl) h

/-- Replace an element of an array. -/
theorem assignAt {target position e : Expr} {v : Value α} {t u w : State α} {a i : Nat}
    {items : List (Value α)} (he : eval p e s = .ok v t) (hTarget : eval p target t = .ok (.ref a) u)
    (hPosition : eval p position u = .ok (.int i) w) (ha : w.heap[a]? = some (.array items))
    (hi : i < items.length) (h : Ends p cs (w.store a (.array (items.set i v))) Q) :
    Ends p (.assign (.index target position) e :: cs) s Q := by
  refine step (fun n => ?_) h
  simp [he, hTarget, hPosition, number, replaceElement, load, ha, index, hi, Run.store]

theorem run {e : Expr} {v : Value α} {t : State α} (he : eval p e s = .ok v t)
    (h : Ends p cs t Q) : Ends p (.run e :: cs) s Q :=
  step (fun n => by rw [exec, bind_apply, he]; rfl) h

theorem yes {c : Expr} {yes no : List Stmt} {t : State α} (hc : eval p c s = .ok (.bool true) t)
    (h : Ends p (yes ++ cs) t Q) : Ends p (.branch c yes no :: cs) s Q :=
  inside (fun n => by simp [test, hc, truth]) h

theorem no {c : Expr} {yes no : List Stmt} {t : State α} (hc : eval p c s = .ok (.bool false) t)
    (h : Ends p (no ++ cs) t Q) : Ends p (.branch c yes no :: cs) s Q :=
  inside (fun n => by simp [test, hc, truth]) h

/-- A branch on a condition that can be decided. -/
theorem branch {c : Expr} {yes no : List Stmt} {t : State α} {P : Prop} [Decidable P]
    (hc : eval p c s = .ok (.bool P) t) (hYes : P → Ends p (yes ++ cs) t Q)
    (hNo : ¬ P → Ends p (no ++ cs) t Q) : Ends p (.branch c yes no :: cs) s Q := by
  by_cases h : P
  · rw [decide_eq_true h] at hc
    exact .yes hc (hYes h)
  · rw [decide_eq_false h] at hc
    exact .no hc (hNo h)

theorem inset {body : List Stmt} (h : Ends p (body ++ cs) s Q) : Ends p (.inset body :: cs) s Q :=
  inside (fun n => by rw [exec]) h

/-- A loop over elements leads through an invariant of the elements that are done. -/
theorem each {final : Bool} {type x : String} {e : Expr} {body : List Stmt} {v : Value α}
    {items : List (Value α)} {t u : State α} (he : eval p e s = .ok v t)
    (hItems : elements v t = .ok items u) (inv : Nat → State α → Prop) (hStart : inv 0 u)
    (hBody : ∀ k v s, items[k]? = some v → inv k s → Ends p body (s.set x v) (inv (k + 1)))
    (hRest : ∀ s, inv items.length s → Ends p cs s Q) :
    Ends p (.each final type x e body :: cs) s Q := by
  obtain ⟨w, ⟨m, hLoop⟩, hInv⟩ := forEach_ends
    (fun n v => setLocal x v >>= fun _ => execAll p n body) inv items
    (fun k v s hv hInv => by
      obtain ⟨s', ⟨rounds, hRun⟩, hNext⟩ := hBody k v s hv hInv
      exact ⟨s', ⟨rounds, fun n hn => by rw [bind_apply]; exact hRun n hn⟩, hNext⟩) hStart
  obtain ⟨s', ⟨n, hRun⟩, hQ⟩ := hRest w hInv
  refine ⟨s', ⟨max m n, fun k hk => ?_⟩, hQ⟩
  have hFirst : exec p k (.each final type x e body) s = .ok () w := by
    simp only [exec, bind_apply, he, hItems]
    exact hLoop k (by omega)
  rw [execAll, bind_apply, hFirst]
  exact hRun k (by omega)

/-- A loop that counts leads through an invariant of the rounds that are done. -/
theorem count {first : List (String × Expr)} {c next : Expr} {body : List Stmt} {t : State α}
    (hFirst : start p first s = .ok () t) (inv : Nat → State α → Prop) (rounds : Nat)
    (hStart : inv 0 t)
    (hBody : ∀ k s, k < rounds → inv k s → eval p c s = .ok (.bool true) s ∧
      Ends p body s fun u => ∃ v w, eval p next u = .ok v w ∧ inv (k + 1) w)
    (hEnd : ∀ s, inv rounds s → eval p c s = .ok (.bool false) s)
    (hRest : ∀ s, inv rounds s → Ends p cs s Q) : Ends p (.count first c next body :: cs) s Q := by
  obtain ⟨w, ⟨m, hLoop⟩, hInv⟩ := repeatWhile_ends (test p c)
    (fun n => execAll p n body >>= fun _ => eval p next >>= fun _ => pure ()) (Q := inv rounds) inv
    rounds
    (fun k s hk hInv => by
      obtain ⟨hc, u, ⟨r, hRun⟩, v, w, hNext, hAgain⟩ := hBody k s hk hInv
      exact ⟨s, by simp [test, hc, truth], w, ⟨r, fun n hn => by simp [hRun n hn, hNext]⟩, hAgain⟩)
    (fun s hInv => ⟨s, by simp [test, hEnd s hInv, truth], hInv⟩) hStart
  obtain ⟨s', ⟨n, hRun⟩, hQ⟩ := hRest w hInv
  refine ⟨s', ⟨max m n, fun k hk => ?_⟩, hQ⟩
  have hFirst : exec p k (.count first c next body) s = .ok () w := by
    rw [exec, bind_apply, hFirst]
    exact hLoop k (by omega)
  rw [execAll, bind_apply, hFirst]
  exact hRun k (by omega)

/-- The loop over the indexes below a bound leads through an invariant of the
indexes that are done. The body must leave the index and the bound alone. -/
theorem upTo {i : String} {bound : Expr} {body : List Stmt} {n : Int} (hSmall : n < 2 ^ 31)
    (inv : Nat → State α → Prop) (hStart : inv 0 (s.set i (.int 0)))
    (hBound : ∀ k s, inv k s → eval p bound s = .ok (.int n) s)
    (hBody : ∀ (k : Nat) s, k < n → s.locals i = some (.int k) → inv k s →
      Ends p body s fun t => t.locals i = some (.int k) ∧ inv (k + 1) (t.set i (.int (k + 1))))
    (hRest : ∀ s, inv n.toNat s → Ends p cs s Q) :
    Ends p (BinderIdl.upTo i bound body :: cs) s Q := by
  have hTest : ∀ (k : Nat) s, s.locals i = some (.int k) ∧ inv k s →
      eval p (.binary .less (.name i) bound) s = .ok (.bool (k < n)) s := by
    rintro k s ⟨hi, hInv⟩
    simp [eval, resolve, hi, hBound k s hInv, operate, number]
  refine count (t := s.set i (.int 0)) ?_
    (fun k s => s.locals i = some (.int k) ∧ inv k s) n.toNat ⟨by simp, hStart⟩
    ?_ ?_ (fun s hInv => hRest s hInv.2)
  · simp [start, eval, setLocal]
  · rintro k s hk ⟨hi, hInv⟩
    have hLess : (k : Int) < n := by omega
    refine ⟨by simpa [hLess] using hTest k s ⟨hi, hInv⟩, (hBody k s hLess hi hInv).mono ?_⟩
    rintro t ⟨ht, hNext⟩
    refine ⟨.int (k + 1), t.set i (.int (k + 1)), ?_, by simp, hNext⟩
    simp [eval, increment_apply ht (by omega)]
  · intro s hInv
    have hDone : decide ((n.toNat : Int) < n) = false := decide_eq_false (by omega)
    rw [hTest n.toNat s hInv, hDone]

/-- A block that is run until a condition fails leads through an invariant of the
rounds that are done. The first round is run in any case. -/
theorem loop {body : List Stmt} {c : Expr} (inv : Nat → State α → Prop) (rounds : Nat)
    (hStart : inv 0 s)
    (hBody : ∀ k s, k ≤ rounds → inv k s → Ends p body s fun t => inv (k + 1) t)
    (hTest : ∀ k s, k ≤ rounds → inv (k + 1) s → eval p c s = .ok (.bool (k < rounds)) s)
    (hRest : ∀ s, inv (rounds + 1) s → Ends p cs s Q) : Ends p (.loop body c :: cs) s Q := by
  obtain ⟨t, ⟨m, hFirst⟩, hInv⟩ := hBody 0 s (Nat.zero_le rounds) hStart
  obtain ⟨u, ⟨m', hLoop⟩, hDone⟩ := repeatWhile_ends (test p c)
    (fun n => execAll p n body) (Q := inv (rounds + 1)) (fun k => inv (k + 1)) rounds
    (fun k s hk hInv =>
      ⟨s, by simp [test, hTest k s (Nat.le_of_lt hk) hInv, truth, hk], hBody (k + 1) s hk hInv⟩)
    (fun s hInv => ⟨s, by simp [test, hTest rounds s (Nat.le_refl rounds) hInv, truth], hInv⟩) hInv
  obtain ⟨s', ⟨n, hRun⟩, hQ⟩ := hRest u hDone
  refine ⟨s', ⟨max n (max m m'), fun k hk => ?_⟩, hQ⟩
  have hBoth : exec p k (.loop body c) s = .ok () u := by
    rw [exec, bind_apply, hFirst k (by omega)]
    exact hLoop k (by omega)
  rw [execAll, bind_apply, hBoth]
  exact hRun k (by omega)

end Ends

/-- A block stops with a fault: with enough rounds for its loops it does so, however many
more they are granted. -/
def Stops (p : Platform α) (body : List Stmt) (s : State α) (fault : Fault) : Prop :=
  ∃ s', ∃ rounds, ∀ n, rounds ≤ n → execAll p n body s = .error fault s'

namespace Stops

variable {fault : Fault}

/-- A statement that stops, for any number of rounds. -/
theorem head {c : Stmt} {t : State α} (h : ∀ n, exec p n c s = .error fault t) :
    Stops p (c :: cs) s fault :=
  ⟨t, 0, fun n _ => by rw [execAll, bind_apply, h n]⟩

/-- A statement that does the same for any number of rounds. -/
theorem step {c : Stmt} {t : State α} (hFirst : ∀ n, exec p n c s = .ok () t)
    (hRest : Stops p cs t fault) : Stops p (c :: cs) s fault := by
  obtain ⟨s', rounds, hRun⟩ := hRest
  refine ⟨s', rounds, fun n hn => ?_⟩
  rw [execAll, bind_apply, hFirst n]
  exact hRun n hn

theorem declare {final : Bool} {type x : String} (h : Stops p cs s fault) :
    Stops p (.declare final type x none :: cs) s fault :=
  step (fun n => by rw [exec]; rfl) h

theorem declareAs {final : Bool} {type x : String} {e : Expr} {v : Value α} {t : State α}
    (he : eval p e s = .ok v t) (h : Stops p cs (t.set x v) fault) :
    Stops p (.declare final type x (some e) :: cs) s fault :=
  step (fun n => by rw [exec, bind_apply, he]; rfl) h

theorem assign {x : String} {e : Expr} {t : State α} (he : eval p e s = .error fault t) :
    Stops p (.assign (.name x) e :: cs) s fault :=
  head fun n => by rw [exec, bind_apply, he]

theorem assignAt {target position e : Expr} {t : State α} (he : eval p e s = .error fault t) :
    Stops p (.assign (.index target position) e :: cs) s fault :=
  head fun n => by rw [exec, bind_apply, he]

/-- What stops inside a branch stops the branch. -/
theorem yes {c : Expr} {yes no : List Stmt} {t : State α} (hc : eval p c s = .ok (.bool true) t)
    (h : Stops p yes t fault) : Stops p (.branch c yes no :: cs) s fault := by
  obtain ⟨s', rounds, hRun⟩ := h
  refine ⟨s', rounds, fun n hn => ?_⟩
  simp [test, hc, truth, hRun n hn]

/-- What stops at an element stops the loop over the elements, which leads through an
invariant up to there. -/
theorem each {final : Bool} {type x : String} {e : Expr} {body : List Stmt} {v w : Value α}
    {items : List (Value α)} {t u : State α} {k : Nat} (he : eval p e s = .ok v t)
    (hItems : elements v t = .ok items u) (hk : items[k]? = some w) (inv : Nat → State α → Prop)
    (hStart : inv 0 u)
    (hBody : ∀ i v s, i < k → items[i]? = some v → inv i s → Ends p body (s.set x v) (inv (i + 1)))
    (hStop : ∀ s, inv k s → Stops p body (s.set x w) fault) :
    Stops p (.each final type x e body :: cs) s fault := by
  obtain ⟨hLess, rfl⟩ := List.getElem?_eq_some_iff.mp hk
  obtain ⟨r, ⟨m, hBefore⟩, hInv⟩ := forEach_ends
    (fun n v => setLocal x v >>= fun _ => execAll p n body) inv (items.take k)
    (fun i v s hv hInv => by
      rw [List.getElem?_take, Option.ite_none_right_eq_some] at hv
      obtain ⟨hi, hv⟩ := hv
      obtain ⟨s', ⟨rounds, hRun⟩, hNext⟩ := hBody i v s hi hv hInv
      exact ⟨s', ⟨rounds, fun n hn => by rw [bind_apply]; exact hRun n hn⟩, hNext⟩) hStart
  rw [List.length_take_of_le (Nat.le_of_lt hLess)] at hInv
  obtain ⟨s', m', hRun⟩ := hStop r hInv
  refine ⟨s', max m m', fun n hn => ?_⟩
  have hLoop : exec p n (.each final type x e body) s = .error fault s' := by
    simp only [exec, bind_apply, he, hItems]
    rw [← List.take_append_drop k items, forEach_append, bind_apply, hBefore n (by omega),
      List.drop_eq_getElem_cons hLess]
    simp only [forEach, bind_apply, setLocal, hRun n (by omega)]
  rw [execAll, bind_apply, hLoop]

/-- What stops in the first round of a loop stops the loop. -/
theorem loop {body : List Stmt} {c : Expr} (h : Stops p body s fault) :
    Stops p (.loop body c :: cs) s fault := by
  obtain ⟨s', rounds, hRun⟩ := h
  exact ⟨s', rounds, fun n hn => by rw [execAll, bind_apply, exec, bind_apply, hRun n hn]⟩

/-- What stops in the first round of a loop that counts stops the loop. -/
theorem count {first : List (String × Expr)} {c next : Expr} {body : List Stmt} {t u : State α}
    (hFirst : start p first s = .ok () t) (hc : eval p c t = .ok (.bool true) u)
    (h : Stops p body u fault) : Stops p (.count first c next body :: cs) s fault := by
  obtain ⟨s', rounds, hRun⟩ := h
  refine ⟨s', rounds + 1, fun n hn => ?_⟩
  obtain ⟨m, rfl⟩ : ∃ m, n = m + 1 := ⟨n - 1, by omega⟩
  simp [hFirst, repeatWhile, test, hc, truth, hRun (m + 1) (by omega)]

end Stops

end BinderIdl.Machine
