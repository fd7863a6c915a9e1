import BinderIdl.Proofs.Wire.Format

/-! Where fragments run. The parcel is in its variable, no name with a dot is a variable,
and the argument has a variable of its own. A fragment changes no variables but its
temporaries and the variable that it declares. Since a variable hides the classes and
packages of its name, code that names a class needs a state in which none does so. -/
namespace BinderIdl

open Java Machine

variable {α : Type}

namespace Java.Fragment

/-- The statements of a fragment that stands by itself. -/
def body : Fragment → List Stmt
  | nothing | initializer _ => []
  | deferred body | statements body => body

/-- The statements of a fragment that ends the declaration of a variable. -/
def declaring (type name : String) : Fragment → List Stmt
  | initializer value => [.declare true type name (some value)]
  | fragment => .declare true type name none :: fragment.body

end Java.Fragment

namespace Wire

/-- A state in which code for a parcel runs. -/
structure Ready (q : Parcel) (s : State α) : Prop where
  parcel : s.locals q.name = some .parcel
  classes : ∀ name : String, '.' ∈ name.toList → s.locals name = none

/-- A variable that code for a parcel can use beside its temporaries. -/
structure Usable (q : Parcel) (n : Nat) (x : String) : Prop where
  noDot : '.' ∉ x.toList
  ne_parcel : x ≠ q.name
  ne_temporary : ∀ r, x ≠ (Temporaries.after n).name r

/-- Two states have the same variables but for some. -/
def SameBut (changed : String → Prop) (s t : State α) : Prop :=
  ∀ x, ¬ changed x → t.locals x = s.locals x

/-- The names of the temporaries with a number. -/
def Scratch (n : Nat) (x : String) : Prop := ∃ r, x = (Temporaries.after n).name r

/-- The names of the temporaries with a number, and one more. -/
def ScratchAnd (n : Nat) (y : String) (x : String) : Prop := x = y ∨ Scratch n x

/-- No variable hides a class from code that declares or updates a variable: none that
there is, no temporary, and not the variable itself. -/
structure Exposed (n : Nat) (y : String) (s : State α) (c : String) : Prop where
  free : s.locals (firstPart c) = none
  unchanged : ¬ ScratchAnd n y (firstPart c)

namespace SameBut

variable {changed : String → Prop} {s t u : State α}

theorem refl (changed : String → Prop) (s : State α) : SameBut changed s s := fun _ _ => rfl

theorem trans (h : SameBut changed s t) (h' : SameBut changed t u) : SameBut changed s u :=
  fun x hx => (h' x hx).trans (h x hx)

theorem mono {changed' : String → Prop} (h : SameBut changed s t)
    (hMore : ∀ x, changed x → changed' x) : SameBut changed' s t :=
  fun x hx => h x fun hc => hx (hMore x hc)

theorem set {x : String} (h : SameBut changed s t) (hx : changed x) (v : Value α) :
    SameBut changed s (t.set x v) := by
  intro y hy
  have hne : y ≠ x := fun he => hy (he ▸ hx)
  rw [State.set_locals, if_neg hne, h y hy]

theorem set_self (s : State α) (x : String) (v : Value α) : SameBut (· = x) s (s.set x v) :=
  (refl (· = x) s).set rfl v

theorem of_locals (h : SameBut changed s t) (hu : u.locals = t.locals) : SameBut changed s u :=
  fun x hx => hu ▸ h x hx

theorem refit (h : SameBut changed s t) (entries : List (Entry α)) :
    SameBut changed s (t.refit entries) := h.of_locals rfl

end SameBut

section Frames

variable {q : Parcel} {n : Nat} {x y : String} {s t : State α}

theorem scratch (n : Nat) (r : Role) : Scratch n ((Temporaries.after n).name r) := ⟨r, rfl⟩

theorem scratchAnd (n : Nat) (y : String) (r : Role) :
    ScratchAnd n y ((Temporaries.after n).name r) := .inr ⟨r, rfl⟩

theorem Usable.not_scratch (hx : Usable q n x) : ¬ Scratch n x :=
  fun ⟨r, he⟩ => hx.ne_temporary r he

namespace Ready

/-- Code that leaves the parcel and the classes alone leaves the state ready. -/
theorem of_sameBut {changed : String → Prop} (h : Ready q s) (hSame : SameBut changed s t)
    (hParcel : ¬ changed q.name) (hDot : ∀ x, changed x → '.' ∉ x.toList) : Ready q t where
  parcel := (hSame _ hParcel).trans h.parcel
  classes name hName := (hSame _ fun hc => hDot _ hc hName).trans (h.classes name hName)

theorem of_scratch (h : Ready q s) (hSame : SameBut (Scratch n) s t) : Ready q t := by
  refine h.of_sameBut hSame ?_ ?_
  · rintro ⟨r, he⟩
    exact Temporaries.parcel_ne_name n r q he
  · rintro _ ⟨r, rfl⟩
    exact Temporaries.dot_not_mem_name n r

theorem of_scratchAnd (h : Ready q s) (hy : Usable q n y) (hSame : SameBut (ScratchAnd n y) s t) :
    Ready q t := by
  refine h.of_sameBut hSame ?_ ?_
  · rintro (he | ⟨r, he⟩)
    · exact hy.ne_parcel he.symm
    · exact Temporaries.parcel_ne_name n r q he
  · rintro _ (rfl | ⟨r, rfl⟩)
    · exact hy.noDot
    · exact Temporaries.dot_not_mem_name n r

theorem visible {c : String} (h : Ready q s) (hDot : '.' ∈ c.toList)
    (hFirst : s.locals (firstPart c) = none) : Visible s c := ⟨h.classes c hDot, hFirst⟩

end Ready

theorem not_scratch_of_stem (n : Nat) {x : String}
    (h : ∀ r : Role, nameStem x ≠ ("_" ++ r.word).toList) : ¬ Scratch n x :=
  fun ⟨r, he⟩ => Temporaries.name_ne_of_stem n r h he.symm

/-- No temporary hides the packages below `java`. -/
theorem java_free_of_scratch (h : s.locals "java" = none) (hSame : SameBut (Scratch n) s t) :
    t.locals "java" = none :=
  (hSame _ (not_scratch_of_stem n fun r => by cases r <;> decide)).trans h

/-- What is exposed stays visible while the code runs. -/
theorem Exposed.visible {c : String} (h : Exposed n y s c) (ht : Ready q t) (hDot : '.' ∈ c.toList)
    (hSame : SameBut (ScratchAnd n y) s t) : Visible t c :=
  ht.visible hDot ((hSame _ h.unchanged).trans h.free)

/-- A class of a package that nothing has the name of is exposed. -/
theorem Exposed.of_first {c : String} (first : String) (hFirst : firstPart c = first)
    (hFree : s.locals first = none) (hy : first ≠ y)
    (hStem : ∀ r : Role, nameStem first ≠ ("_" ++ r.word).toList) : Exposed n y s c := by
  subst hFirst
  exact ⟨hFree, fun h => h.elim hy (not_scratch_of_stem n hStem)⟩

/-- Objects stay where they are when others are put behind them. -/
theorem getElem?_of_isPrefix {heap heap' : List (Cell α)} {a : Nat} {c : Cell α}
    (h : heap <+: heap') (ha : heap[a]? = some c) : heap'[a]? = some c := by
  obtain ⟨more, rfl⟩ := h
  rw [List.getElem?_append_left (List.getElem?_eq_some_iff.mp ha).1, ha]

/-- The next value goes into the first blank place of an array. -/
theorem append_blank_set (blank : Value α) (vs : List (Value α)) (v : Value α) {size : Nat}
    (h : vs.length < size) : (vs ++ List.replicate (size - vs.length) blank).set vs.length v =
      vs ++ [v] ++ List.replicate (size - (vs.length + 1)) blank := by
  obtain ⟨m, rfl⟩ : ∃ m, size = vs.length + (m + 1) := ⟨size - vs.length - 1, by omega⟩
  have hm : vs.length + (m + 1) - (vs.length + 1) = m := by omega
  rw [hm, Nat.add_sub_cancel_left, List.replicate_succ,
    List.set_append_right _ _ (Nat.le_refl _), Nat.sub_self, List.set_cons_zero, List.append_assoc]
  rfl

/-- An array into which the first values have been put, over a value that all
places had. -/
def filled (blank : Value α) (k : Nat) (vs : List (Value α)) : List (Value α) :=
  vs.take k ++ List.replicate (vs.length - k) blank

theorem filled_zero (blank : Value α) (vs : List (Value α)) :
    filled blank 0 vs = List.replicate vs.length blank := by
  simp [filled]

theorem filled_length (blank : Value α) (vs : List (Value α)) :
    filled blank vs.length vs = vs := by
  simp [filled]

theorem length_filled (blank : Value α) {k : Nat} {vs : List (Value α)} (hk : k ≤ vs.length) :
    (filled blank k vs).length = vs.length := by
  simp only [filled, List.length_append, List.length_take, List.length_replicate]
  omega

theorem filled_set (blank : Value α) {k : Nat} {v : Value α} {vs : List (Value α)}
    (hk : vs[k]? = some v) : (filled blank k vs).set k v = filled blank (k + 1) vs := by
  obtain ⟨hLess, rfl⟩ := List.getElem?_eq_some_iff.mp hk
  have hTake : (vs.take k).length = k := List.length_take_of_le (Nat.le_of_lt hLess)
  have hRoom : (vs.take k).length < vs.length := by omega
  have hSet := append_blank_set blank (vs.take k) vs[k] hRoom
  rw [hTake] at hSet
  rw [filled, filled, hSet, List.take_succ_eq_append_getElem hLess]

/-- A collection is being built in a variable. It is the first object behind those
that there were, and further objects may have come behind it. -/
structure Building (changed : String → Prop) (z : String) (s : State α) (c : Cell α)
    (copies : List (Cell α)) (t : State α) : Prop where
  locals : SameBut changed s t
  place : t.locals z = some (.ref s.heap.length)
  heap : t.heap = s.heap ++ c :: copies

namespace Building

variable {changed : String → Prop} {z : String} {c c' : Cell α} {copies : List (Cell α)}

theorem start (hSame : SameBut changed s t) (hHeap : t.heap = s.heap) (hz : changed z)
    (c : Cell α) : Building changed z s c [] ((t.extend c).set z (.ref t.heap.length)) where
  locals := (hSame.of_locals rfl).set hz _
  place := by rw [State.set_locals_self, hHeap]
  heap := by rw [State.set_heap, State.extend_heap, hHeap]

variable (h : Building changed z s c copies t)
include h

theorem isPrefix : s.heap <+: t.heap := h.heap ▸ List.prefix_append _ _

theorem getElem?_old {a : Nat} (ha : s.heap[a]? = some c') : t.heap[a]? = some c' :=
  getElem?_of_isPrefix h.isPrefix ha

theorem getElem?_self : t.heap[s.heap.length]? = some c := by
  rw [h.heap, List.getElem?_append_right (Nat.le_refl _), Nat.sub_self, List.getElem?_cons_zero]

theorem set {x : String} (hx : changed x) (hz : x ≠ z) (v : Value α) :
    Building changed z s c copies (t.set x v) where
  locals := h.locals.set hx v
  place := by rw [State.set_locals, if_neg hz.symm, h.place]
  heap := h.heap

theorem grow {u : State α} {more : List (Cell α)} (hLocals : u.locals = t.locals)
    (hHeap : u.heap = t.heap ++ more) : Building changed z s c (copies ++ more) u where
  locals := h.locals.of_locals hLocals
  place := by rw [hLocals, h.place]
  heap := by rw [hHeap, h.heap, List.append_assoc, List.cons_append]

theorem store (c' : Cell α) : Building changed z s c' copies (t.store s.heap.length c') where
  locals := h.locals
  place := h.place
  heap := by
    rw [State.store_heap, h.heap, List.set_append_right _ _ (Nat.le_refl _), Nat.sub_self,
      List.set_cons_zero]

end Building

/-- The flags for writing a Parcelable, as a value. -/
def flagsOf : Parcel → Value α
  | .reply => .named "android.os.Parcelable.PARCELABLE_WRITE_RETURN_VALUE"
  | _ => .int 0

theorem eval_flags [DecidableEq α] {p : Platform α} (hs : Ready q s)
    (hAndroid : s.locals "android" = none) : eval p q.flags s = .ok (flagsOf q) s := by
  cases q with
  | reply => exact eval_class (hs.visible (by decide) hAndroid)
  | proxyData | proxyReply | data => simp [Parcel.flags, flagsOf, eval]

/-- A state after a fragment has written entries. -/
structure Sent (n : Nat) (s : State α) (entries : List (Entry α)) (t : State α) : Prop where
  parcel : t.parcel = s.parcel ++ entries
  heap : s.heap <+: t.heap
  locals : SameBut (Scratch n) s t

/-- A state after a fragment has declared a variable with a value like another
one and has left some entries. -/
structure Received (n : Nat) (y : String) (s : State α) (rest : List (Entry α)) (v : Value α)
    (t : State α) : Prop where
  parcel : t.parcel = rest
  heap : s.heap <+: t.heap
  locals : SameBut (ScratchAnd n y) s t
  value : ∃ w, t.locals y = some w ∧ Alike t.heap v w

/-- The collection that was built is the value. -/
theorem Building.received {u : State α} {c : Cell α} {copies : List (Cell α)} {v : Value α}
    {rest : List (Entry α)} (h : Building (ScratchAnd n y) y t c copies u)
    (hSame : SameBut (ScratchAnd n y) s t) (hHeap : s.heap <+: t.heap) (hParcel : u.parcel = rest)
    (hAlike : Alike u.heap v (.ref t.heap.length)) : Received n y s rest v u where
  parcel := hParcel
  heap := hHeap.trans h.isPrefix
  locals := hSame.trans h.locals
  value := ⟨_, h.place, hAlike⟩

end Frames

end Wire

end BinderIdl
