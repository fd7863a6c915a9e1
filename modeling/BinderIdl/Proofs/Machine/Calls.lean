import BinderIdl.Proofs.Machine.Rules

/-! What the calls in generated code come to: one fact for each method of a
parcel, a class or an object that the code uses. -/
namespace BinderIdl.Machine

open Java Run

variable {α : Type}

namespace ParcelMethod

/-- Every kind has a writer. -/
theorem ofName?_write {kind : String} (h : kind ≠ "StrongInterface") :
    ofName? ("write" ++ kind) = some (write kind) := by
  have hChars : ("write" ++ kind).toList = 'w' :: 'r' :: 'i' :: 't' :: 'e' :: kind.toList := by
    rw [String.toList_append]
    rfl
  have hKind : ¬ kind.toList = "StrongInterface".toList := fun e => h (String.toList_inj.mp e)
  unfold ofName?
  rw [hChars]
  exact (if_neg hKind).trans (by rw [String.ofList_toList])

theorem ofName?_create (kind : String) :
    ofName? ("create" ++ kind) = some (read (String.ofList (readKind kind.toList))) := by
  have hChars : ("create" ++ kind).toList =
      'c' :: 'r' :: 'e' :: 'a' :: 't' :: 'e' :: kind.toList := by
    rw [String.toList_append]
    rfl
  unfold ofName?
  rw [hChars]
  rfl

end ParcelMethod

/-- Half of an identifier is a long number. -/
theorem long_has_toInt (bits : BitVec 64) : Integral.long.Has bits.toInt := by
  have hLow := bits.le_toInt
  have hHigh := bits.toInt_lt
  simp only [Integral.Has, Integral.least, Integral.size]
  omega

/-- A collection is copied into a parcel. -/
theorem contentOf_ref {heap : List (Cell α)} {a : Nat} {c : Cell α} (ha : heap[a]? = some c)
    (hc : c.isCollection = true) : contentOf heap (.ref a) = .copy c := by
  simp [contentOf, ha, hc]

/-- A loop goes through the elements of an array or of a list. -/
theorem elements_ref {s : State α} {a : Nat} {items : List (Value α)}
    (ha : s.heap[a]? = some (.array items) ∨ s.heap[a]? = some (.list items)) :
    elements (.ref a) s = .ok items s := by
  obtain ha | ha := ha <;> simp [elements, load, ha]

/-- The only member there is is the length of an array. -/
theorem member_error (v : Value α) {name : String} (hName : name ≠ "length") (s : State α) :
    member v name s = .error (if v.isNull then .nullDereference else .noSuchMember) s := by
  cases v with
  | ref a =>
      simp only [member, load, bind_apply]
      cases s.heap[a]? with
      | none => rfl
      | some c => cases c <;> simp [hName, fail, Value.isNull]
  | null | int _ | bool _ | uuid _ | atom _ | view _ | part _ _ _ | parcel | named _ => rfl

/-- No variable hides a class or a constant of a class. -/
structure Visible (s : State α) (name : String) : Prop where
  whole : s.locals name = none
  first : s.locals (firstPart name) = none

variable [DecidableEq α] {p : Platform α} {s t : State α} {q : Parcel}

attribute [local simp] eval evalAll

theorem eval_null : eval p .null s = .ok .null s := by simp

theorem eval_int (n : Int) : eval p (.int n) s = .ok (.int n) s := by simp

theorem eval_local {x : String} {v : Value α} (h : s.locals x = some v) :
    eval p (.name x) s = .ok v s := by
  simp [resolve, h]

theorem eval_class {x : String} (h : Visible s x) : eval p (.name x) s = .ok (.named x) s := by
  simp [resolve, h.whole, h.first]

/-- Of a class that a variable hides, what follows the variable's name is looked for in its
value. -/
theorem eval_hidden {x : String} {v : Value α} (hWhole : s.locals x = none)
    (hFirst : s.locals (firstPart x) = some v) :
    eval p (.name x) s = member v (laterParts x) s := by
  simp [resolve, hWhole, hFirst]

/-- Calling a method of a value. -/
theorem eval_call {target : Expr} {method : String} {es : List Expr} {v : Value α}
    {vs : List (Value α)} {u : State α} (hTarget : eval p target s = .ok v t)
    (hes : evalAll p es t = .ok vs u) :
    eval p (.call target method es) s = invoke p v method vs u := by
  simp [hTarget, hes]

/-- Nothing is called if there is no target. -/
theorem eval_call_error {target : Expr} (method : String) (es : List Expr) {fault : Fault}
    (hTarget : eval p target s = .error fault t) :
    eval p (.call target method es) s = .error fault t := by
  simp [hTarget]

/-- Calling a method of a list. -/
theorem invoke_list {a : Nat} {items : List (Value α)} {method : String} {vs : List (Value α)}
    (ha : s.heap[a]? = some (.list items)) (hm : method ≠ "asBinder") :
    invoke p (.ref a) method vs s = callList a items method vs s := by
  unfold invoke
  rw [if_neg hm]
  simp [load, ha]

/-- Calling a method of a sparse array. -/
theorem invoke_flags {a : Nat} {entries : List (Int × Bool)} {method : String}
    {vs : List (Value α)} (ha : s.heap[a]? = some (.flags entries)) (hm : method ≠ "asBinder") :
    invoke p (.ref a) method vs s = callFlags a entries method vs s := by
  unfold invoke
  rw [if_neg hm]
  simp [load, ha]

/-- Calling a method of an object. -/
theorem invoke_object {a : Nat} {state : α} {method : String} {vs : List (Value α)}
    (ha : s.heap[a]? = some (.object state)) (hm : method ≠ "asBinder") :
    invoke p (.ref a) method vs s = callObject p a state method vs s := by
  unfold invoke
  rw [if_neg hm]
  simp [load, ha]

theorem evalAll_nil : evalAll p [] s = .ok [] s := by simp

theorem evalAll_singleton {e : Expr} {v : Value α} (he : eval p e s = .ok v t) :
    evalAll p [e] s = .ok [v] t := by
  simp [he]

theorem evalAll_pair {e e' : Expr} {v w : Value α} {u : State α} (he : eval p e s = .ok v t)
    (he' : eval p e' t = .ok w u) : evalAll p [e, e'] s = .ok [v, w] u := by
  simp [he, he']

section Expressions

variable {e position : Expr} {v : Value α}

theorem eval_present (he : eval p e s = .ok v t) :
    eval p (.present e) s = .ok (.bool (v ≠ .null)) t := by
  simp [Expr.present, he, operate]

theorem eval_absent (he : eval p e s = .ok v t) :
    eval p (.absent e) s = .ok (.bool (v = .null)) t := by
  simp [Expr.absent, he, operate]

theorem eval_nonzero {n : Int} (he : eval p e s = .ok (.int n) t) :
    eval p (.nonzero e) s = .ok (.bool (n ≠ 0)) t := by
  simp [Expr.nonzero, he, operate]

theorem eval_nonnegative {n : Int} (he : eval p e s = .ok (.int n) t) :
    eval p (.binary .greaterEqual e (.int 0)) s = .ok (.bool (0 ≤ n)) t := by
  simp [he, operate, number]

theorem eval_paren (he : eval p e s = .ok v t) : eval p (.paren e) s = .ok v t := by
  rw [eval, he]

theorem eval_conditional {c e' : Expr} {b : Bool} (hc : eval p c s = .ok (.bool b) t) :
    eval p (.conditional c e e') s = if b then eval p e t else eval p e' t := by
  cases b <;> simp [hc, truth]

/-- A cast leaves alone what its type can hold. -/
theorem eval_cast {type : String}
    (hv : ∀ i, Integral.ofName? (Text.trim type) = some i → isNumber i v = true)
    (he : eval p e s = .ok v t) : eval p (.cast type e) s = .ok v t := by
  rw [eval, bind_apply, he]
  unfold castTo
  cases hType : Integral.ofName? (Text.trim type) with
  | none => rfl
  | some i =>
      obtain ⟨n, rfl, hn⟩ : ∃ n, v = .int n ∧ i.Has n := by
        have hNumber := hv i hType
        cases v <;> simp_all [isNumber]
      simp [number, Integral.narrow_of_has hn]

theorem eval_preIncrement {x : String} {n : Nat} (hx : s.locals x = some (.int n))
    (hn : n < 2 ^ 31 - 1) :
    eval p (.preIncrement (.name x)) s = .ok (.int (n + 1)) (s.set x (.int (n + 1))) := by
  simp [increment_apply hx hn]

theorem eval_postIncrement {x : String} {n : Nat} (hx : s.locals x = some (.int n))
    (hn : n < 2 ^ 31 - 1) :
    eval p (.postIncrement (.name x)) s = .ok (.int n) (s.set x (.int (n + 1))) := by
  simp [increment_apply hx hn]

theorem eval_and {e' : Expr} {b b' : Bool} (he : eval p e s = .ok (.bool b) s)
    (he' : b = true → eval p e' s = .ok (.bool b') s) :
    eval p (.binary .and e e') s = .ok (.bool (b && b')) s := by
  cases b with
  | true => simp [he, truth, he' rfl]
  | false => simp [he, truth]

theorem eval_equal {e' : Expr} {w : Value α} {u : State α} (he : eval p e s = .ok v t)
    (he' : eval p e' t = .ok w u) : eval p (.binary .equal e e') s = .ok (.bool (v = w)) u := by
  simp [he, he', operate]

theorem eval_less {e' : Expr} {m n : Int} {u : State α} (he : eval p e s = .ok (.int m) t)
    (he' : eval p e' t = .ok (.int n) u) :
    eval p (.binary .less e e') s = .ok (.bool (m < n)) u := by
  simp [he, he', operate, number]

theorem eval_greater {e' : Expr} {m n : Int} {u : State α} (he : eval p e s = .ok (.int m) t)
    (he' : eval p e' t = .ok (.int n) u) :
    eval p (.binary .greater e e') s = .ok (.bool (n < m)) u := by
  simp [he, he', operate, number]

theorem eval_twice {n : Nat} (he : eval p e s = .ok (.int n) t) (hn : n < 2 ^ 30) :
    eval p (.binary .times e (.int 2)) s = .ok (.int (2 * n : Nat)) t := by
  have hNarrow : Integral.int.narrow (n * 2) = (2 * n : Nat) := by
    rw [Integral.narrow_of_has (by simp only [Integral.Has, Integral.least, Integral.size]; omega)]
    omega
  simp [he, operate, number, hNarrow]

theorem eval_half {n : Nat} (he : eval p e s = .ok (.int (2 * n : Nat)) t) (hn : n < 2 ^ 30) :
    eval p (.binary .divide e (.int 2)) s = .ok (.int n) t := by
  have hDivide : ((2 * n : Nat) : Int).tdiv 2 = n := by
    rw [Int.natCast_mul]
    exact Int.mul_tdiv_cancel_left _ (by decide)
  have hNarrow : Integral.int.narrow n = n :=
    Integral.narrow_of_has (by simp only [Integral.Has, Integral.least, Integral.size]; omega)
  simp only [eval, bind_apply, he, pure_apply, operate, number, hDivide, hNarrow]
  rfl

theorem eval_length {a : Nat} {items : List (Value α)} (he : eval p e s = .ok (.ref a) t)
    (ha : t.heap[a]? = some (.array items)) :
    eval p (.field e "length") s = .ok (.int items.length) t := by
  simp [he, member, load, ha]

theorem eval_size {a : Nat} {items : List (Value α)} (he : eval p e s = .ok (.ref a) t)
    (ha : t.heap[a]? = some (.list items)) :
    eval p (.call e "size" []) s = .ok (.int items.length) t := by
  rw [eval_call he evalAll_nil, invoke_list ha (by decide)]
  rfl

theorem eval_index {a k : Nat} {items : List (Value α)} {u : State α}
    (he : eval p e s = .ok (.ref a) t) (hPosition : eval p position t = .ok (.int k) u)
    (ha : u.heap[a]? = some (.array items)) (hk : items[k]? = some v) :
    eval p (.index e position) s = .ok v u := by
  obtain ⟨hLess, rfl⟩ := List.getElem?_eq_some_iff.mp hk
  simp [he, hPosition, number, element, load, ha, index, hLess]

theorem eval_newArray {n : Nat} {type : String} (he : eval p e s = .ok (.int n) t) :
    eval p (.newArray type e) s = .ok (.ref t.heap.length)
      (t.extend (.array (List.replicate n (defaultOf type)))) := by
  have hSize : ¬ (n : Int) < 0 := by omega
  simp only [eval, bind_apply, he, number, pure_apply, newArray, if_neg hSize, Int.toNat_natCast]
  rfl

theorem eval_newList {type : String} {es : List Expr} {vs : List (Value α)}
    (hType : withoutArguments type = "java.util.ArrayList") (hes : evalAll p es s = .ok vs t) :
    eval p (.new type es) s = .ok (.ref t.heap.length) (t.extend (.list [])) := by
  rw [eval, bind_apply, hes]
  unfold construct
  rw [hType]
  rfl

theorem eval_upperHalf {u : Uuid} (he : eval p e s = .ok (.uuid u) t) :
    eval p (.call e "getMostSignificantBits" []) s = .ok (.int u.upper.toInt) t := by
  rw [eval_call he evalAll_nil]
  rfl

theorem eval_lowerHalf {u : Uuid} (he : eval p e s = .ok (.uuid u) t) :
    eval p (.call e "getLeastSignificantBits" []) s = .ok (.int u.lower.toInt) t := by
  rw [eval_call he evalAll_nil]
  rfl

theorem eval_randomUUID (h : Visible s uuidType) :
    eval p (.call (.name uuidType) "randomUUID" []) s =
      .ok (.uuid (s.draws 0)) { s with draws := fun n => s.draws (n + 1) } := by
  rw [eval_call (eval_class h) evalAll_nil]
  rfl

/-- An identifier is the one with its halves. -/
theorem eval_newUuid {e' : Expr} {u : Uuid} (he : eval p e s = .ok (.int u.upper.toInt) s)
    (he' : eval p e' s = .ok (.int u.lower.toInt) s) :
    eval p (.new uuidType [e, e']) s = .ok (.uuid u) s := by
  have hType : withoutArguments uuidType = "java.util.UUID" := by decide
  have hes : evalAll p [e, e'] s = .ok [.int u.upper.toInt, .int u.lower.toInt] s := by
    simp [he, he']
  rw [eval, bind_apply, hes]
  unfold construct
  rw [hType]
  simp

/-- Adding an element at the end of a list. -/
theorem eval_add {e' : Expr} {a : Nat} {items : List (Value α)} {u : State α}
    (he : eval p e s = .ok (.ref a) t) (he' : eval p e' t = .ok v u)
    (ha : u.heap[a]? = some (.list items)) :
    eval p (.call e "add" [e']) s = .ok (.bool true) (u.store a (.list (items ++ [v]))) := by
  rw [eval_call he (evalAll_singleton he'), invoke_list ha (by decide)]
  rfl

theorem eval_clear {a : Nat} {items : List (Value α)} (he : eval p e s = .ok (.ref a) t)
    (ha : t.heap[a]? = some (.list items)) :
    eval p (.call e "clear" []) s = .ok .null (t.store a (.list [])) := by
  rw [eval_call he evalAll_nil, invoke_list ha (by decide)]
  rfl

/-- Replacing an element of a list, which is returned. -/
theorem eval_set {e' : Expr} {a k : Nat} {items : List (Value α)} {w : Value α} {u r : State α}
    (he : eval p e s = .ok (.ref a) t) (hPosition : eval p position t = .ok (.int k) u)
    (he' : eval p e' u = .ok v r) (ha : r.heap[a]? = some (.list items)) (hk : items[k]? = some w) :
    eval p (.call e "set" [position, e']) s = .ok w (r.store a (.list (items.set k v))) := by
  obtain ⟨hLess, rfl⟩ := List.getElem?_eq_some_iff.mp hk
  rw [eval_call he (evalAll_pair hPosition he'), invoke_list ha (by decide)]
  simp [callList, index, hLess, Run.store]

/-- Cutting elements out of a list. -/
theorem eval_clearPart {first last : Expr} {a m n : Nat} {items : List (Value α)} {u r : State α}
    (he : eval p e s = .ok (.ref a) t) (hFirst : eval p first t = .ok (.int m) u)
    (hLast : eval p last u = .ok (.int n) r) (ha : r.heap[a]? = some (.list items)) (hmn : m ≤ n)
    (hn : n ≤ items.length) :
    eval p (.call (.call e "subList" [first, last]) "clear" []) s =
      .ok .null (r.store a (.list (items.take m ++ items.drop n))) := by
  have hPart : eval p (.call e "subList" [first, last]) s = .ok (.part a m n) r := by
    rw [eval_call he (evalAll_pair hFirst hLast), invoke_list ha (by decide)]
    simp [callList, hmn, hn]
  rw [eval_call hPart evalAll_nil]
  change (load a >>= fun c => callPart a m n c "clear") r = _
  simp [load, ha, callPart, Run.store]

/-- An array seen as a list. -/
theorem eval_asList {a : Nat} (hClass : Visible s "java.util.Arrays")
    (he : eval p e s = .ok (.ref a) t) :
    eval p (.call (.name "java.util.Arrays") "asList" [e]) s = .ok (.view a) t := by
  rw [eval_call (eval_class hClass) (evalAll_singleton he)]
  rfl

/-- A list knows what it contains, and so does an array that is seen as a list. -/
theorem eval_contains {e' : Expr} {a : Nat} {items : List (Value α)} {u : State α}
    (h : eval p e s = .ok (.ref a) t ∧ u.heap[a]? = some (.list items) ∨
      eval p e s = .ok (.view a) t ∧ u.heap[a]? = some (.array items))
    (he' : eval p e' t = .ok v u) :
    eval p (.call e "contains" [e']) s = .ok (.bool (items.contains v)) u := by
  obtain ⟨he, ha⟩ | ⟨he, ha⟩ := h
  · rw [eval_call he (evalAll_singleton he'), invoke_list ha (by decide)]
    rfl
  · rw [eval_call he (evalAll_singleton he')]
    change (load a >>= fun c => callView c "contains" [v]) u = _
    simp [load, ha, callView]

end Expressions

section Flags

variable {e position : Expr} {a : Nat} {entries : List (Int × Bool)}

theorem eval_flagsSize (he : eval p e s = .ok (.ref a) t)
    (ha : t.heap[a]? = some (.flags entries)) :
    eval p (.call e "size" []) s = .ok (.int entries.length) t := by
  rw [eval_call he evalAll_nil, invoke_flags ha (by decide)]
  rfl

theorem eval_keyAt {k : Nat} {f : Int × Bool} {u : State α} (he : eval p e s = .ok (.ref a) t)
    (hPosition : eval p position t = .ok (.int k) u) (ha : u.heap[a]? = some (.flags entries))
    (hk : entries[k]? = some f) : eval p (.call e "keyAt" [position]) s = .ok (.int f.1) u := by
  obtain ⟨hLess, rfl⟩ := List.getElem?_eq_some_iff.mp hk
  rw [eval_call he (evalAll_singleton hPosition), invoke_flags ha (by decide)]
  simp [callFlags, index, hLess]

theorem eval_valueAt {k : Nat} {f : Int × Bool} {u : State α} (he : eval p e s = .ok (.ref a) t)
    (hPosition : eval p position t = .ok (.int k) u) (ha : u.heap[a]? = some (.flags entries))
    (hk : entries[k]? = some f) : eval p (.call e "valueAt" [position]) s = .ok (.bool f.2) u := by
  obtain ⟨hLess, rfl⟩ := List.getElem?_eq_some_iff.mp hk
  rw [eval_call he (evalAll_singleton hPosition), invoke_flags ha (by decide)]
  simp [callFlags, index, hLess]

/-- A key that is greater than all others goes to the end. -/
theorem eval_append {e' : Expr} {key : Int} {b : Bool} {u r : State α}
    (he : eval p e s = .ok (.ref a) t) (hKey : eval p position t = .ok (.int key) u)
    (hb : eval p e' u = .ok (.bool b) r) (ha : r.heap[a]? = some (.flags entries))
    (hLast : ∀ f ∈ entries, f.1 < key) :
    eval p (.call e "append" [position, e']) s =
      .ok .null (r.store a (.flags (entries ++ [(key, b)]))) := by
  have hBelow : entries.filter (fun f => f.1 < key) = entries :=
    List.filter_eq_self.mpr fun f hf => decide_eq_true (hLast f hf)
  have hAbove : entries.filter (fun f => key < f.1) = [] :=
    List.filter_eq_nil_iff.mpr fun f hf => by have := hLast f hf; simp; omega
  rw [eval_call he (evalAll_pair hKey hb), invoke_flags ha (by decide)]
  simp [callFlags, hBelow, hAbove, Run.store]

theorem eval_clearFlags (he : eval p e s = .ok (.ref a) t)
    (ha : t.heap[a]? = some (.flags entries)) :
    eval p (.call e "clear" []) s = .ok .null (t.store a (.flags [])) := by
  rw [eval_call he evalAll_nil, invoke_flags ha (by decide)]
  rfl

end Flags

section Parcel

variable (hq : s.locals q.name = some .parcel) {method : String} {es : List Expr}

include hq

theorem eval_parcel {m : ParcelMethod} {vs : List (Value α)}
    (hm : ParcelMethod.ofName? method = some m) (hes : evalAll p es s = .ok vs t) :
    eval p (q.call method es) s = callParcel p method vs t := by
  have hBinder : method ≠ "asBinder" := by
    rintro rfl
    cases hm
  rw [Parcel.call, Parcel.expr, eval_call (eval_local hq) hes]
  unfold invoke
  rw [if_neg hBinder]

/-- A writer puts an entry behind the others. -/
theorem eval_write (kind : String) {v : Value α} {vs : List (Value α)}
    (hm : ParcelMethod.ofName? method = some (.write kind))
    (hes : evalAll p es s = .ok (v :: vs) t) (hv : isWritable t.heap kind v = true) :
    eval p (q.call method es) s =
      .ok .null (t.refit (t.parcel ++ [⟨kind, contentOf t.heap v⟩])) := by
  rw [eval_parcel hq hm hes]
  simp [callParcel, hm, write, hv]

/-- A reader takes the first entry. It may be told a class. -/
theorem eval_read (kind : String) {content : Content α} {rest : List (Entry α)}
    {vs : List (Value α)} (hm : ParcelMethod.ofName? method = some (.read kind))
    (hes : evalAll p es s = .ok vs t) (hvs : vs = [] ∨ ∃ c, vs = [.named c])
    (hParcel : t.parcel = ⟨kind, content⟩ :: rest) :
    eval p (q.call method es) s = ofContent content (t.refit rest) := by
  rw [eval_parcel hq hm hes]
  obtain rfl | ⟨c, rfl⟩ := hvs <;> simp [callParcel, hm, read, receive, hParcel]

/-- An object writes itself. -/
theorem eval_writeToParcel {x : String} {flags : Expr} {a : Nat} {state : α} {f : Value α}
    {entries : List (Entry α)} (hx : s.locals x = some (.ref a))
    (ha : s.heap[a]? = some (.object state)) (hFlags : eval p flags s = .ok f s)
    (hFlatten : p.flatten state f = some entries) :
    eval p (.call (.name x) "writeToParcel" [q.expr, flags]) s =
      .ok .null (s.refit (s.parcel ++ entries)) := by
  have hes : evalAll p [q.expr, flags] s = .ok [.parcel, f] s := by
    simp [Parcel.expr, resolve, hq, hFlags]
  rw [eval_call (eval_local hx) hes, invoke_object ha (by decide)]
  change flatten p state f s = _
  simp [flatten, hFlatten, send]

/-- A creator makes an object of the next entries. -/
theorem eval_createFromParcel {creator : String} {state : α} {rest : List (Entry α)}
    (hc : Visible s creator) (hRestore : p.restore creator s.parcel = some (state, rest)) :
    eval p (.call (.name creator) "createFromParcel" [q.expr]) s =
      .ok (.ref s.heap.length) ((s.refit rest).extend (.object state)) := by
  have hes : evalAll p [q.expr] s = .ok [.parcel] s := evalAll_singleton (eval_local hq)
  rw [eval_call (eval_class hc) hes]
  change restore p creator s = _
  simp [restore, hRestore, alloc]

end Parcel

end BinderIdl.Machine
