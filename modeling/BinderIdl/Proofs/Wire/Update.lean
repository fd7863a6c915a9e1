import BinderIdl.Marshal.Update
import BinderIdl.Proofs.Wire.UuidRead

/-! What the readers update. A reader of this kind is given a collection and changes it
in place: a list or a sparse array takes the content that was sent, and an array, which
keeps its length, as much of it as it has room for. All entries are taken from the
parcel in any case, and no other object changes. -/
namespace BinderIdl.Wire

open Java Machine

variable {α : Type}

section Overlay

variable {ws os : List (Value α)}

/-- An array with values over its first ones. It keeps its length. -/
def overlay (ws os : List (Value α)) : List (Value α) := ws.take os.length ++ os.drop ws.length

theorem overlay_nil (os : List (Value α)) : overlay [] os = os := by
  simp [overlay]

theorem length_overlay (ws os : List (Value α)) : (overlay ws os).length = os.length := by
  simp only [overlay, List.length_append, List.length_take, List.length_drop]
  omega

theorem getElem?_overlay_of_lt {k : Nat} (hw : k < ws.length) (ho : k < os.length) :
    (overlay ws os)[k]? = ws[k]? := by
  rw [overlay, List.getElem?_append_left (by simp; omega), List.getElem?_take_of_lt ho]

theorem getElem?_overlay_of_le {k : Nat} (hw : ws.length ≤ k) : (overlay ws os)[k]? = os[k]? := by
  by_cases ho : os.length ≤ k
  · rw [List.getElem?_eq_none ho, List.getElem?_eq_none (length_overlay ws os ▸ ho)]
  · have hTake : (ws.take os.length).length = ws.length := by simp; omega
    rw [overlay, List.getElem?_append_right (by omega), hTake, List.getElem?_drop]
    congr 1
    omega

/-- The next value goes over what has its place. -/
theorem overlay_set (ws os : List (Value α)) (h : ws.length < os.length) (w : Value α) :
    (overlay ws os).set ws.length w = overlay (ws ++ [w]) os := by
  apply List.ext_getElem?
  intro k
  rw [List.getElem?_set, length_overlay]
  rcases Nat.lt_trichotomy k ws.length with hk | rfl | hk
  · rw [if_neg (by omega), getElem?_overlay_of_lt hk (by omega),
      getElem?_overlay_of_lt (by simp; omega) (by omega), List.getElem?_append_left hk]
  · rw [if_pos rfl, if_pos h, getElem?_overlay_of_lt (by simp) h]
    simp
  · rw [if_neg (by omega), getElem?_overlay_of_le (Nat.le_of_lt hk),
      getElem?_overlay_of_le (by simp; omega)]

/-- What has no place is left out. -/
theorem overlay_append (h : os.length ≤ ws.length) (more : List (Value α)) :
    overlay (ws ++ more) os = overlay ws os := by
  rw [overlay, overlay, List.take_append_of_le_length h, List.drop_eq_nil_of_le h,
    List.drop_eq_nil_of_le (by simp; omega)]

theorem overlay_take (ws os : List (Value α)) :
    overlay (ws.take (min ws.length os.length)) os = overlay ws os := by
  by_cases h : ws.length ≤ os.length
  · rw [Nat.min_eq_left h, List.take_length]
  · have hTake : (ws.take os.length).length = os.length := by simp; omega
    rw [Nat.min_eq_right (by omega), ← overlay_append (Nat.le_of_eq hTake.symm) (ws.drop os.length),
      List.take_append_drop]

end Overlay

/-- What becomes of a collection that takes over what was sent. A list or a sparse array
has the content that was sent. An array has the first values of it, as far as there is
room, and keeps its other ones. -/
inductive TakesOver (heap : List (Cell α)) : Cell α → Cell α → Cell α → Prop
  | array {vs os ws : List (Value α)} (hLength : ws.length = os.length)
      (hItems : ∀ (k : Nat) v w, vs[k]? = some v → ws[k]? = some w → Alike heap v w)
      (hOthers : ∀ k, vs.length ≤ k → ws[k]? = os[k]?) :
      TakesOver heap (.array vs) (.array os) (.array ws)
  | list {vs os ws : List (Value α)} (hLength : ws.length = vs.length)
      (hItems : ∀ (k : Nat) v w, vs[k]? = some v → ws[k]? = some w → Alike heap v w) :
      TakesOver heap (.list vs) (.list os) (.list ws)
  | flags {es os : List (Int × Bool)} : TakesOver heap (.flags es) (.flags os) (.flags es)

namespace TakesOver

variable {heap : List (Cell α)} {vs os ws : List (Value α)}

theorem alike_of_self (k : Nat) (v w : Value α) (hv : vs[k]? = some v) (hw : vs[k]? = some w) :
    Alike heap v w := by
  rw [hv] at hw
  cases hw
  exact .same v

theorem of_overlay (hLength : ws.length = vs.length)
    (hItems : ∀ (k : Nat) v w, vs[k]? = some v → ws[k]? = some w → Alike heap v w) :
    TakesOver heap (.array vs) (.array os) (.array (overlay ws os)) := by
  refine .array (length_overlay ws os) ?_ ?_
  · intro k v w hv hw
    have hPlace : k < ws.length := hLength ▸ (List.getElem?_eq_some_iff.mp hv).1
    have hRoom := (List.getElem?_eq_some_iff.mp hw).1
    rw [length_overlay] at hRoom
    rw [getElem?_overlay_of_lt hPlace hRoom] at hw
    exact hItems k v w hv hw
  · intro k hk
    exact getElem?_overlay_of_le (hLength ▸ hk)

end TakesOver

/-- An object is being changed in place. Further objects may have come behind those that
there were. -/
structure Updating (n c : Nat) (s : State α) (cell : Cell α) (copies : List (Cell α))
    (t : State α) : Prop where
  exist : c < s.heap.length
  locals : SameBut (Scratch n) s t
  heap : t.heap = s.heap.set c cell ++ copies

/-- A state after a fragment has changed an object in place and has left some entries. -/
structure Updated (n c : Nat) (s : State α) (rest : List (Entry α)) (sent old : Cell α)
    (t : State α) : Prop where
  parcel : t.parcel = rest
  locals : SameBut (Scratch n) s t
  others : ∀ a cell, a ≠ c → s.heap[a]? = some cell → t.heap[a]? = some cell
  content : ∃ cell, t.heap[c]? = some cell ∧ TakesOver t.heap sent old cell

namespace Updating

variable {q : Parcel} {n c : Nat} {y : String} {s t : State α} {cell old : Cell α}
  {copies : List (Cell α)}

theorem start (hc : s.heap[c]? = some old) (hSame : SameBut (Scratch n) s t)
    (hHeap : t.heap = s.heap ++ copies) : Updating n c s old copies t := by
  obtain ⟨hInside, rfl⟩ := List.getElem?_eq_some_iff.mp hc
  exact ⟨hInside, hSame, by rw [List.set_getElem_self, hHeap]⟩

variable (h : Updating n c s cell copies t)
include h

theorem getElem?_self : t.heap[c]? = some cell := by
  rw [h.heap, List.getElem?_append_left (by simpa using h.exist), List.getElem?_set_self h.exist]

theorem getElem?_old {a : Nat} (ha : a ≠ c) (hOld : s.heap[a]? = some old) :
    t.heap[a]? = some old := by
  have hInside := (List.getElem?_eq_some_iff.mp hOld).1
  rw [h.heap, List.getElem?_append_left (by simpa using hInside), List.getElem?_set_ne ha.symm, hOld]

theorem getElem?_copy (j : Nat) : t.heap[s.heap.length + j]? = copies[j]? := by
  rw [h.heap, List.getElem?_append_right (by simp), List.length_set, Nat.add_sub_cancel_left]

theorem locals_eq (hy : Usable q n y) : t.locals y = s.locals y := h.locals y hy.not_scratch

theorem ready (hs : Ready q s) : Ready q t := hs.of_scratch h.locals

theorem visible {name : String} (hs : Ready q s) (hStub : Exposed n y s (name ++ ".Stub")) :
    Visible t (name ++ ".Stub") :=
  hStub.visible (h.ready hs) (dot_mem_stub name) (h.locals.mono fun _ => .inr)

theorem set (r : Role) (v : Value α) :
    Updating n c s cell copies (t.set ((Temporaries.after n).name r) v) where
  exist := h.exist
  locals := h.locals.set (scratch n r) v
  heap := h.heap

theorem store (cell' : Cell α) : Updating n c s cell' copies (t.store c cell') where
  exist := h.exist
  locals := h.locals
  heap := by
    rw [State.store_heap, h.heap, List.set_append_left _ _ (by simpa using h.exist), List.set_set]

theorem grow {u : State α} {more : List (Cell α)} (hLocals : u.locals = t.locals)
    (hHeap : u.heap = t.heap ++ more) : Updating n c s cell (copies ++ more) u where
  exist := h.exist
  locals := h.locals.of_locals hLocals
  heap := by rw [hHeap, h.heap, List.append_assoc]

theorem updated {rest : List (Entry α)} {sent : Cell α} (hParcel : t.parcel = rest)
    (hTakes : TakesOver t.heap sent old cell) : Updated n c s rest sent old t where
  parcel := hParcel
  locals := h.locals
  others _ _ ha hOld := h.getElem?_old ha hOld
  content := ⟨cell, h.getElem?_self, hTakes⟩

/-- Elements that were restored are like those that were sent, unless one of these is the
object itself. -/
theorem alike_items {heap : List (Cell α)} {vs ws : List (Value α)} (hHeap : heap <+: s.heap)
    (hApart : Value.ref c ∉ vs)
    (hRestored : List.Forall₂ (Restored heap s.heap.length copies) vs ws) (k : Nat) (v w : Value α)
    (hv : vs[k]? = some v) (hw : ws[k]? = some w) : Alike t.heap v w := by
  have hMem : v ∈ vs := List.mem_of_getElem? hv
  obtain ⟨hk, rfl⟩ := List.getElem?_eq_some_iff.mp hv
  obtain ⟨hk', rfl⟩ := List.getElem?_eq_some_iff.mp hw
  have hItem : Restored heap s.heap.length copies vs[k] ws[k] := hRestored.get hk hk'
  obtain hSame | ⟨a, j, cell', hRef, ha, hNew, hj⟩ := hItem
  · rw [hSame]
    exact .same _
  · have hOther : a ≠ c := by
      rintro rfl
      exact hApart (hRef ▸ hMem)
    rw [hRef, hNew]
    exact .copy (h.getElem?_old hOther (getElem?_of_isPrefix hHeap ha))
      ((h.getElem?_copy j).trans hj)

end Updating

section Resized

variable {us : List (Option Uuid)} {os : List (Value α)}

/-- A list that had some elements, when the first identifiers have been stored in it. It
was cut to the number of identifiers before. -/
private def resized (us : List (Option Uuid)) (os : List (Value α)) (k : Nat) : List (Value α) :=
  (us.map nullable).take k ++ (os.take us.length).drop k

private theorem resized_step (os : List (Value α)) {k : Nat} {o : Option Uuid}
    (ho : us[k]? = some o) :
    resized us os (k + 1) = if k < os.length then (resized us os k).set k (nullable o)
      else resized us os k ++ [nullable o] := by
  have hPlace : k < us.length := (List.getElem?_eq_some_iff.mp ho).1
  have hTake : ((us.map (nullable (α := α))).take k).length = k := by simp; omega
  have hNext : (us.map (nullable (α := α))).take (k + 1) =
      (us.map nullable).take k ++ [nullable o] := by
    simp [List.take_add_one, ho]
  rw [resized, hNext, resized]
  split
  · rename_i hRoom
    have hDrop : k < (os.take us.length).length := by simp; omega
    rw [List.set_append_right _ _ (Nat.le_of_eq hTake), hTake, Nat.sub_self, List.drop_eq_getElem_cons hDrop,
      List.set_cons_zero, List.append_assoc]
    rfl
  · rename_i hRoom
    have hEmpty : ∀ j, k ≤ j → (os.take us.length).drop j = [] :=
      fun j hj => List.drop_eq_nil_of_le (by simp; omega)
    rw [hEmpty k (Nat.le_refl k), hEmpty (k + 1) (Nat.le_succ k), List.append_nil, List.append_nil]

end Resized

/-- The size of a list does not disturb what is known about identifiers. -/
theorem Unpacking.setSize {q : Parcel} {n a : Nat} {z : Uuid} {us : List (Option Uuid)}
    {t : State α} (h : Unpacking q n z us a t) (w : Value α) :
    Unpacking q n z us a (t.set ((Temporaries.after n).name .curSize) w) where
  ready := h.ready.of_scratch ((SameBut.refl _ t).set (scratch n .curSize) w)
  bits := by simp [State.set_locals, h.bits]
  array := h.array
  hasNull := by simp [State.set_locals, h.hasNull]
  upper hMem := by simp [State.set_locals, h.upper hMem]
  lower hMem := by simp [State.set_locals, h.lower hMem]
  length := by simp [State.set_locals, h.length]

variable [DecidableEq α] {p : Platform α} {q : Parcel} {n c : Nat} {y : String} {s : State α}
  {heap : List (Cell α)} {v : Value α} {rest : List (Entry α)}

theorem length_lt_of_has {m : Nat} (h : Integral.int.Has m) : m < 2 ^ 31 := by
  simp only [Integral.Has, Integral.least, Integral.size] at h
  omega

/-- The loop over interfaces goes on as long as there are both a binder and a place. -/
theorem eval_bothLeft {k : Nat} {binders ws : List (Value α)} {u : State α}
    (hUpdate : Updating n c s (.array ws) [.array binders] u) (hArray : u.locals y = some (.ref c))
    (hPlace : u.locals ((Temporaries.after n).name .binders) = some (.ref s.heap.length))
    (hi : u.locals ((Temporaries.after n).name .i) = some (.int k)) :
    eval p (.binary .and
      (.binary .less ((Temporaries.after n).var .i)
        (.field ((Temporaries.after n).var .binders) "length"))
      (.binary .less ((Temporaries.after n).var .i) (.field (.name y) "length"))) u =
        .ok (.bool (k < min binders.length ws.length)) u := by
  have hCopy : u.heap[s.heap.length]? = some (.array binders) := hUpdate.getElem?_copy 0
  have hBoth := eval_and (p := p)
    (eval_less (eval_local hi) (eval_length (eval_local hPlace) hCopy))
    fun _ => eval_less (eval_local hi) (eval_length (eval_local hArray) hUpdate.getElem?_self)
  have hMin : (decide ((k : Int) < binders.length) && decide ((k : Int) < ws.length)) =
      decide (k < min binders.length ws.length) := by
    rw [← Bool.decide_and]
    exact decide_eq_decide.mpr (by omega)
  rw [hMin] at hBoth
  exact hBoth

/-- Interfaces go over the elements of an array as long as there are both. -/
theorem updateInterfaceArray_ends {element : TypeName} {items binders os : List (Value α)}
    (hs : Ready q s) (hy : Usable q n y) (hStub : Exposed n y s (className element ++ ".Stub"))
    (hLocal : s.locals y = some (.ref c)) (hc : s.heap[c]? = some (.array os))
    (hSmall : Integral.int.Has items.length)
    (hBinders : List.Forall₂ (HasBinder p (className element)) items binders)
    (hParcel : s.parcel = ⟨"BinderArray", .copy (.array binders)⟩ :: rest) :
    Ends p (Scheme.updateInterfaceArray element q (.after n) y).body s
      (Updated n c s rest (.array items) (.array os)) := by
  have hLength : items.length = binders.length := hBinders.length_eq
  have hBound := length_lt_of_has hSmall
  refine declareCopy_ends hs (scratch n .binders) (by decide) hParcel ?_
  intro t hRead hRest
  refine .yes (eval_present (eval_local hRead.place)) ?_
  -- The first interfaces are in their places, and the binders are where they were.
  let inv (k : Nat) (u : State α) : Prop :=
    Updating n c s (.array (overlay (items.take k) os)) [.array binders] u ∧
      u.locals ((Temporaries.after n).name .binders) = some (.ref s.heap.length) ∧
      u.locals ((Temporaries.after n).name .i) = some (.int k) ∧ u.parcel = rest
  have hTest : ∀ k u, inv k u → eval p (.binary .and
      (.binary .less ((Temporaries.after n).var .i)
        (.field ((Temporaries.after n).var .binders) "length"))
      (.binary .less ((Temporaries.after n).var .i) (.field (.name y) "length"))) u =
        .ok (.bool (k < min items.length os.length)) u := by
    rintro k u ⟨hUpdate, hPlace, hi, -⟩
    rw [eval_bothLeft hUpdate ((hUpdate.locals_eq hy).trans hLocal) hPlace hi, length_overlay,
      hLength]
  refine .count (t := t.set ((Temporaries.after n).name .i) (.int 0))
    (by simp [start, eval, Run.setLocal]) inv (min items.length os.length) ?_ ?_ ?_ ?_
  · refine ⟨.set ?_ .i _, by simp [State.set_locals, hRead.place], by simp, hRest⟩
    rw [List.take_zero, overlay_nil]
    exact .start hc hRead.locals hRead.heap
  · rintro k u hk hInv
    obtain ⟨hUpdate, hPlace, hi, hRest⟩ := hInv
    refine ⟨by simpa [hk] using hTest k u ⟨hUpdate, hPlace, hi, hRest⟩, ?_⟩
    have hItem : k < items.length := by omega
    have hGet := eval_index (p := p) (eval_local hPlace) (eval_local hi)
      (hUpdate.getElem?_copy 0) (List.getElem?_eq_getElem (by omega))
    have hBinder : HasBinder p (className element) items[k] binders[k] :=
      hBinders.get hItem (by omega)
    have hTake : (items.take k).length = k := List.length_take_of_le (Nat.le_of_lt hItem)
    refine .assignAt (eval_asInterface (hUpdate.visible hs hStub) hBinder hGet)
      (eval_local ((hUpdate.locals_eq hy).trans hLocal)) (eval_local hi) hUpdate.getElem?_self
      (by rw [length_overlay]; omega) (.nil ⟨_, _, eval_preIncrement hi (by omega), ?_⟩)
    have hNext := overlay_set (items.take k) os (by omega) items[k]
    rw [hTake, ← List.take_succ_eq_append_getElem hItem] at hNext
    refine ⟨?_, by simp [State.set_locals, hPlace], by simp, hRest⟩
    rw [hNext]
    exact (hUpdate.store _).set .i _
  · intro u hInv
    simpa using hTest _ u hInv
  · rintro u ⟨hUpdate, -, -, hRest⟩
    rw [overlay_take] at hUpdate
    exact .nil (hUpdate.updated hRest (.of_overlay rfl TakesOver.alike_of_self))

/-- No interface is found if the array that is to take it hides the class. -/
theorem updateInterfaceArray_stops {element : TypeName} {binders os : List (Value α)}
    (hs : Ready q s) (hy : Usable q n y)
    (hHidden : firstPart (className element ++ ".Stub") = y)
    (hMember : laterParts (className element ++ ".Stub") ≠ "length")
    (hLocal : s.locals y = some (.ref c)) (hc : s.heap[c]? = some (.array os))
    (hBinders : 0 < binders.length) (hRoom : 0 < os.length)
    (hParcel : s.parcel = ⟨"BinderArray", .copy (.array binders)⟩ :: rest) :
    Stops p (Scheme.updateInterfaceArray element q (.after n) y).body s .noSuchMember := by
  refine declareCopy_stops hs (scratch n .binders) (by decide) hParcel fun t hRead => ?_
  refine .yes (eval_present (eval_local hRead.place)) ?_
  -- At the first index the name of the class means a member of the array.
  have hUpdate := (Updating.start hc hRead.locals hRead.heap).set .i (.int (0 : Nat))
  have hArray := (hUpdate.locals_eq hy).trans hLocal
  have hTest := eval_bothLeft (p := p) hUpdate hArray (by simp [State.set_locals, hRead.place])
    (State.set_locals_self _ _ _)
  rw [decide_eq_true (by omega)] at hTest
  have hName : eval p (.name (className element ++ ".Stub"))
      (t.set ((Temporaries.after n).name .i) (.int (0 : Nat))) =
        .error .noSuchMember (t.set ((Temporaries.after n).name .i) (.int (0 : Nat))) := by
    rw [eval_hidden ((hUpdate.ready hs).classes _ (dot_mem_stub _)) (hHidden ▸ hArray)]
    exact member_error (.ref c) hMember _
  exact .count (by simp [start, eval, Run.setLocal]) hTest (.assignAt (eval_call_error _ _ hName))

/-- Interfaces replace the elements of a list. -/
theorem updateInterfaceList_ends {content : TypeName} {items binders os : List (Value α)}
    (hs : Ready q s) (hy : Usable q n y) (hStub : Exposed n y s (content.base ++ ".Stub"))
    (hLocal : s.locals y = some (.ref c)) (hc : s.heap[c]? = some (.list os))
    (hBinders : List.Forall₂ (HasBinder p content.base) items binders)
    (hParcel : s.parcel = ⟨"BinderList", .copy (.list binders)⟩ :: rest) :
    Ends p (Scheme.updateInterfaceList content q (.after n) y).body s
      (Updated n c s rest (.list items) (.list os)) := by
  have hLength : items.length = binders.length := hBinders.length_eq
  refine declareCopy_ends hs (scratch n .binders) (by decide) hParcel ?_
  intro t hRead hRest
  refine .yes (eval_present (eval_local hRead.place)) ?_
  have hStart : Updating n c s (.list os) [.list binders] t := .start hc hRead.locals hRead.heap
  refine .run (eval_clear (eval_local ((hStart.locals_eq hy).trans hLocal)) hStart.getElem?_self) ?_
  have hCleared := hStart.store (.list [])
  refine .each (eval_local hRead.place) (elements_ref (.inr (hCleared.getElem?_copy 0)))
    (fun k u => Updating n c s (.list (items.take k)) [.list binders] u ∧ u.parcel = rest)
    ⟨hCleared, hRest⟩ ?_ ?_
  · rintro k binder u hBinder ⟨hUpdate, hRest⟩
    obtain ⟨hk, rfl⟩ := List.getElem?_eq_some_iff.mp hBinder
    have hPlace : k < items.length := by omega
    have hPair : HasBinder p content.base items[k] binders[k] := hBinders.get hPlace hk
    have hNext := hUpdate.set .binder binders[k]
    refine .run (eval_add (eval_local ((hNext.locals_eq hy).trans hLocal))
      (eval_asInterface (hNext.visible hs hStub) hPair (eval_local (State.set_locals_self _ _ _)))
      hNext.getElem?_self) (.nil ⟨?_, hRest⟩)
    rw [← List.take_succ_eq_append_getElem hPlace]
    exact hNext.store _
  · rintro u ⟨hUpdate, hRest⟩
    rw [← hLength, List.take_length] at hUpdate
    exact .nil (hUpdate.updated hRest (.list rfl TakesOver.alike_of_self))

/-- Reading an element while an object is changed. -/
theorem Updating.eval_readSerializable {type : String} {t : State α} {cell : Cell α}
    {copies : List (Cell α)} (h : Updating n c s cell copies t) (hs : Ready q s)
    (hFits : Fits type v) (hParcel : t.parcel = serialized heap v :: rest) :
    ∃ w u more, eval p (Scheme.readSerializable type q) t = .ok w u ∧
      u.locals = t.locals ∧ u.parcel = rest ∧ Updating n c s cell (copies ++ more) u ∧
      Restored heap s.heap.length (copies ++ more) v w := by
  obtain ⟨w, u, more, hContent, hLocals, hRest, hGrown, hRestored⟩ :=
    ofContent_contentOf (s := t.refit rest) (s.heap.set c cell) copies heap v h.heap
  have hCall : eval p (q.call "readSerializable" []) t = .ok w u :=
    (eval_read (h.ready hs).parcel "Serializable" (by decide) evalAll_nil (.inl rfl) hParcel).trans
      hContent
  rw [List.length_set] at hRestored
  exact ⟨w, u, more, eval_cast (hRestored.fits hFits) hCall, hLocals, hRest,
    h.grow hLocals hGrown, hRestored⟩

/-- A collection takes the elements one by one. Its shape says what it is when it has
taken some of them. -/
theorem updateSerializables_ends {keep : List Stmt} {type : String} {items : List (Value α)}
    {t : State α} {sent old : Cell α} (shape : List (Value α) → Cell α) (hs : Ready q s)
    (hHeap : heap <+: s.heap) (hApart : Value.ref c ∉ items) (hSmall : Integral.int.Has items.length)
    (hFits : ∀ v ∈ items, Fits type v) (hUpdate : Updating n c s (shape []) [] t)
    (hSize : t.locals ((Temporaries.after n).name .size) = some (.int items.length))
    (hParcel : t.parcel = items.map (serialized heap) ++ rest)
    (hKeep : ∀ ws w copies more t u, Updating n c s (shape ws) copies t →
      t.locals ((Temporaries.after n).name .i) = some (.int ws.length) →
      eval p (Scheme.readSerializable type q) t = .ok w u → u.locals = t.locals →
      Updating n c s (shape ws) (copies ++ more) u → Ends p keep t fun u' =>
        Updating n c s (shape (ws ++ [w])) (copies ++ more) u' ∧ u'.parcel = u.parcel ∧
        ∀ r, r ≠ .item → u'.locals ((Temporaries.after n).name r) =
          t.locals ((Temporaries.after n).name r))
    (hTakes : ∀ ws heap', ws.length = items.length →
      (∀ (k : Nat) v w, items[k]? = some v → ws[k]? = some w → Alike heap' v w) →
      TakesOver heap' sent old (shape ws)) :
    Ends p [upTo ((Temporaries.after n).name .i) ((Temporaries.after n).var .size) keep] t
      (Updated n c s rest sent old) := by
  have hBound := length_lt_of_has hSmall
  -- The first elements are restored, and the others are still in the parcel.
  refine .upTo (n := items.length) (by omega)
    (fun k t => ∃ ws copies, Updating n c s (shape ws) copies t ∧
      List.Forall₂ (Restored heap s.heap.length copies) (items.take k) ws ∧
      t.locals ((Temporaries.after n).name .size) = some (.int items.length) ∧
      t.parcel = (items.drop k).map (serialized heap) ++ rest) ?_ ?_ ?_ ?_
  · exact ⟨[], [], hUpdate.set .i _, .nil, by simp [State.set_locals, hSize], hParcel⟩
  · rintro k t ⟨ws, copies, -, -, hSize, -⟩
    exact eval_local hSize
  · rintro k t hk hi ⟨ws, copies, hUpdate, hRestored, hSize, hRest⟩
    have hPlace : k < items.length := by omega
    rw [List.drop_eq_getElem_cons hPlace, List.map_cons, List.cons_append] at hRest
    obtain ⟨w, u, more, hRead, hLocals, hNext, hGrown, hw⟩ := hUpdate.eval_readSerializable (p := p)
      hs (hFits _ (List.getElem_mem hPlace)) hRest
    obtain rfl : ws.length = k := by
      rw [← hRestored.length_eq, List.length_take, Nat.min_eq_left (by omega)]
    refine (hKeep ws w copies more t u hUpdate hi hRead hLocals hGrown).mono ?_
    rintro u' ⟨hKept, hParcel, hOther⟩
    refine ⟨(hOther .i (by decide)).trans hi, ws ++ [w], copies ++ more, hKept.set .i _, ?_, ?_, ?_⟩
    · exact restored_snoc hRestored (List.getElem?_eq_getElem hPlace) hw
    · rw [State.set_locals, if_neg (by simp), hOther .size (by decide), hSize]
    · exact hParcel.trans hNext
  · rintro t ⟨ws, copies, hUpdate, hRestored, -, hRest⟩
    simp only [Int.toNat_natCast, List.take_length, List.drop_length, List.map_nil,
      List.nil_append] at hRestored hRest
    exact .nil (hUpdate.updated hRest (hTakes ws t.heap hRestored.length_eq.symm
      (hUpdate.alike_items hHeap hApart hRestored)))

/-- All elements are read, and those that have a place in the array go there. -/
theorem updateSerializableArray_ends {element : TypeName} {items os : List (Value α)}
    (hs : Ready q s) (hy : Usable q n y) (hLocal : s.locals y = some (.ref c))
    (hc : s.heap[c]? = some (.array os)) (hHeap : heap <+: s.heap) (hApart : Value.ref c ∉ items)
    (hSmall : Integral.int.Has items.length) (hFits : ∀ v ∈ items, Fits element.print v)
    (hParcel : s.parcel = number items.length :: items.map (serialized heap) ++ rest) :
    Ends p (Scheme.updateSerializableArray element q (.after n) y).body s
      (Updated n c s rest (.array items) (.array os)) := by
  refine declareInt_ends hs (scratch n .size) hParcel ?_
  intro t hSame hOld hSize hRest
  have hStart : Updating n c s (.array (overlay [] os)) [] t := by
    rw [overlay_nil]
    exact .start hc hSame (by rw [hOld, List.append_nil])
  refine updateSerializables_ends (fun ws => .array (overlay ws os)) hs hHeap hApart hSmall hFits
    hStart hSize hRest ?_ fun ws heap' hLength hItems => .of_overlay hLength hItems
  intro ws w copies more t u hUpdate hi hRead hLocals hGrown
  refine .declareAs hRead ?_
  have hNext := hGrown.set .item w
  have hArray := eval_local (p := p) ((hNext.locals_eq hy).trans hLocal)
  have hi' : (u.set ((Temporaries.after n).name .item) w).locals ((Temporaries.after n).name .i) =
      some (.int ws.length) := by
    rw [State.set_locals, if_neg (by simp), hLocals, hi]
  have hOther : ∀ r, r ≠ .item → (u.set ((Temporaries.after n).name .item) w).locals
      ((Temporaries.after n).name r) = t.locals ((Temporaries.after n).name r) := by
    intro r hr
    rw [State.set_locals, if_neg (by simpa using hr), hLocals]
  have hTest := eval_less (eval_local hi') (eval_length hArray hNext.getElem?_self)
  rw [length_overlay] at hTest
  refine .branch hTest (fun hRoom => ?_) fun hRoom => .nil ?_
  · have hRoom : ws.length < os.length := Int.ofNat_lt.mp hRoom
    refine .assignAt (eval_local (State.set_locals_self _ _ _)) hArray (eval_local hi')
      hNext.getElem?_self (by rw [length_overlay]; exact hRoom) (.nil ?_)
    rw [overlay_set ws os hRoom]
    exact ⟨hNext.store _, rfl, hOther⟩
  · rw [overlay_append (by omega)]
    exact ⟨hNext, rfl, hOther⟩

/-- A list is emptied and takes all elements. -/
theorem updateSerializableList_ends {content : TypeName} {items os : List (Value α)}
    (hs : Ready q s) (hy : Usable q n y) (hLocal : s.locals y = some (.ref c))
    (hc : s.heap[c]? = some (.list os)) (hHeap : heap <+: s.heap) (hApart : Value.ref c ∉ items)
    (hSmall : Integral.int.Has items.length) (hFits : ∀ v ∈ items, Fits content.print v)
    (hParcel : s.parcel = number items.length :: items.map (serialized heap) ++ rest) :
    Ends p (Scheme.updateSerializableList content q (.after n) y).body s
      (Updated n c s rest (.list items) (.list os)) := by
  refine declareInt_ends hs (scratch n .size) hParcel ?_
  intro t hSame hOld hSize hRest
  have hStart : Updating n c s (.list os) [] t := .start hc hSame (by rw [hOld, List.append_nil])
  refine .yes (eval_nonnegative (eval_local hSize)) ?_
  refine .run (eval_clear (eval_local ((hStart.locals_eq hy).trans hLocal)) hStart.getElem?_self) ?_
  refine updateSerializables_ends .list hs hHeap hApart hSmall hFits (hStart.store (.list [])) hSize
    hRest ?_ fun ws heap' hLength hItems => .list hLength hItems
  intro ws w copies more t u hUpdate hi hRead hLocals hGrown
  refine .run (eval_add (eval_local ((hUpdate.locals_eq hy).trans hLocal)) hRead
    hGrown.getElem?_self) (.nil ⟨hGrown.store _, rfl, fun r _ => ?_⟩)
  rw [State.store_locals, hLocals]

section Uuids

variable {z : Uuid} {us : List (Option Uuid)} {os : List (Value α)}

theorem length_lt_of_has_twice {m : Nat} (h : Integral.int.Has (2 * m)) : m < 2 ^ 30 := by
  simp only [Integral.Has, Integral.least, Integral.size] at h
  omega

/-- Identifiers go over the elements of an array as long as they have a place. -/
theorem updateUuidArray_ends (hs : Ready q s) (hy : Usable q n y)
    (hLocal : s.locals y = some (.ref c)) (hc : s.heap[c]? = some (.array os)) (hz : some z ∉ us)
    (hSmall : Integral.int.Has (2 * us.length)) (hParcel : s.parcel = uuidEntries z us ++ rest) :
    Ends p (Scheme.updateUuidArray q (.after n) y).body s
      (Updated n c s rest (.array (us.map nullable)) (.array os)) := by
  refine readUuids_ends (T := fun k => Updating n c s
    (.array (overlay ((us.map nullable).take k) os)) [.array (halves z us)])
    hs hz (length_lt_of_has_twice hSmall) hParcel ?_ ?_ ?_ ?_
  · exact fun k t r w _ hT => hT.set r w
  · intro t h hSame hHeap
    refine .nil ⟨h, rfl, ?_⟩
    rw [List.take_zero, overlay_nil]
    exact .start hc hSame hHeap
  · intro k t o ho h hT hi hUuid
    have hPlace : k < us.length := (List.getElem?_eq_some_iff.mp ho).1
    have hArray := eval_local (p := p) ((hT.locals_eq hy).trans hLocal)
    have hTest := eval_less (eval_local hi) (eval_length hArray hT.getElem?_self)
    have hTake : ((us.map (nullable (α := α))).take k).length = k := by simp; omega
    have hNext : (us.map (nullable (α := α))).take (k + 1) =
        (us.map nullable).take k ++ [nullable o] := by
      simp [List.take_add_one, ho]
    rw [length_overlay] at hTest
    refine .branch hTest (fun hRoom => ?_) fun hRoom => .nil ⟨rfl, rfl, rfl, ?_⟩
    · have hRoom : k < os.length := Int.ofNat_lt.mp hRoom
      refine .assignAt (eval_local hUuid) hArray (eval_local hi) hT.getElem?_self
        (by rw [length_overlay]; exact hRoom) (.nil ⟨rfl, ?_, rfl, ?_⟩)
      · exact List.getElem?_set_ne (Nat.ne_of_lt hT.exist)
      · have hSet := overlay_set ((us.map nullable).take k) os (hTake.symm ▸ hRoom) (nullable o)
        rw [hTake, ← hNext] at hSet
        rw [hSet]
        exact hT.store _
    · rw [hNext, overlay_append (by omega)]
      exact hT
  · intro t hT hRest
    rw [← List.length_map (f := nullable (α := α)), List.take_length] at hT
    exact hT.updated hRest (.of_overlay rfl TakesOver.alike_of_self)

/-- A list is cut to the number of identifiers; they go over its elements as long as
there are some, and then behind them. -/
theorem updateUuidList_ends (hs : Ready q s) (hy : Usable q n y)
    (hLocal : s.locals y = some (.ref c)) (hc : s.heap[c]? = some (.list os)) (hz : some z ∉ us)
    (hSmall : Integral.int.Has (2 * us.length)) (hParcel : s.parcel = uuidEntries z us ++ rest) :
    Ends p (Scheme.updateUuidList q (.after n) y).body s
      (Updated n c s rest (.list (us.map nullable)) (.list os)) := by
  refine readUuids_ends (T := fun k t =>
    Updating n c s (.list (resized us os k)) [.array (halves z us)] t ∧
      t.locals ((Temporaries.after n).name .curSize) = some (.int os.length))
    hs hz (length_lt_of_has_twice hSmall) hParcel ?_ ?_ ?_ ?_
  · rintro k t r w hr ⟨hT, hSize⟩
    refine ⟨hT.set r w, ?_⟩
    rw [State.set_locals, if_neg, hSize]
    cases r <;> simp_all [IsCounter]
  · intro t h hSame hHeap
    have hStart : Updating n c s (.list os) [.array (halves z us)] t := .start hc hSame hHeap
    refine .declareAs (eval_size (eval_local ((hStart.locals_eq hy).trans hLocal))
      hStart.getElem?_self) ?_
    have hSized := hStart.set .curSize (.int os.length)
    have hSize := State.set_locals_self t ((Temporaries.after n).name .curSize) (.int os.length)
    have h := h.setSize (.int os.length)
    have hTest := eval_greater (p := p) (eval_local hSize) (eval_local h.length)
    refine .branch hTest (fun hLong => ?_) fun hLong => .nil ⟨h, rfl, ?_, hSize⟩
    · have hList := eval_local (p := p) ((hSized.locals_eq hy).trans hLocal)
      refine .run (eval_clearPart hList (eval_local h.length) (eval_local hSize)
        hSized.getElem?_self (by omega) (Nat.le_refl _)) (.nil ⟨?_, rfl, ?_, hSize⟩)
      · exact h.of_locals rfl (List.getElem?_set_ne (Nat.ne_of_lt hSized.exist))
      · rw [List.drop_length, List.append_nil]
        exact hSized.store _
    · have hSame : resized us os 0 = os := List.take_of_length_le (by omega)
      rw [hSame]
      exact hSized
  · rintro k t o ho h ⟨hT, hSize⟩ hi hUuid
    have hList := eval_local (p := p) ((hT.locals_eq hy).trans hLocal)
    have hTest := eval_less (p := p) (eval_local hi) (eval_local hSize)
    have hKept : ∀ cell, (t.store c cell).heap[s.heap.length]? = t.heap[s.heap.length]? :=
      fun cell => List.getElem?_set_ne (Nat.ne_of_lt hT.exist)
    have hStep := resized_step os ho
    refine .branch hTest (fun hRoom => ?_) fun hRoom => ?_
    · have hRoom : k < os.length := Int.ofNat_lt.mp hRoom
      have hPlace : k < (resized us os k).length := by
        have := (List.getElem?_eq_some_iff.mp ho).1
        simp only [resized, List.length_append, List.length_take, List.length_map,
          List.length_drop]
        omega
      refine .run (eval_set hList (eval_local hi) (eval_local hUuid) hT.getElem?_self
        (List.getElem?_eq_getElem hPlace)) (.nil ⟨rfl, hKept _, rfl, ?_, hSize⟩)
      rw [hStep, if_pos hRoom]
      exact hT.store _
    · refine .run (eval_add hList (eval_local hUuid) hT.getElem?_self)
        (.nil ⟨rfl, hKept _, rfl, ?_, hSize⟩)
      rw [hStep, if_neg (by omega)]
      exact hT.store _
  · rintro t ⟨hT, -⟩ hRest
    have hDone : resized us os us.length = us.map nullable := by
      rw [resized, ← List.length_map (f := nullable (α := α)), List.take_length,
        List.drop_eq_nil_of_le (by simp only [List.length_take, List.length_map]; omega), List.append_nil]
    rw [hDone] at hT
    exact hT.updated hRest (.list rfl TakesOver.alike_of_self)

end Uuids

/-- A sparse array is emptied and takes all entries in the order of their keys. -/
theorem updateSparseBooleanArray_ends {entries os : List (Int × Bool)} (hs : Ready q s)
    (hy : Usable q n y) (hLocal : s.locals y = some (.ref c)) (hc : s.heap[c]? = some (.flags os))
    (hSmall : Integral.int.Has entries.length) (hSorted : entries.Pairwise (·.1 < ·.1))
    (hParcel : s.parcel = ⟨"SparseBooleanArray", .copy (.flags entries)⟩ :: rest) :
    Ends p (Scheme.updateSparseBooleanArray q (.after n) y).body s
      (Updated n c s rest (.flags entries) (.flags os)) := by
  have hBound := length_lt_of_has hSmall
  refine .run (eval_clearFlags (eval_local hLocal) hc) ?_
  refine declareCopy_ends (s := s.store c (.flags [])) ⟨hs.parcel, hs.classes⟩ (scratch n .array)
    (by decide) hParcel ?_
  intro t hRead hRest
  have hInside := (List.getElem?_eq_some_iff.mp hc).1
  have hStart : Updating n c s (.flags []) [.flags entries] t := ⟨hInside, hRead.locals, hRead.heap⟩
  have hArray : t.locals ((Temporaries.after n).name .array) = some (.ref s.heap.length) := by
    rw [hRead.place, State.store_heap, List.length_set]
  refine .yes (eval_present (eval_local hArray)) ?_
  refine .declareAs (eval_flagsSize (eval_local hArray) (hStart.getElem?_copy 0)) ?_
  refine .upTo (n := entries.length) (by omega)
    (fun k u => Updating n c s (.flags (entries.take k)) [.flags entries] u ∧
      u.locals ((Temporaries.after n).name .array) = some (.ref s.heap.length) ∧
      u.locals ((Temporaries.after n).name .size) = some (.int entries.length) ∧
      u.parcel = rest) ?_ ?_ ?_ ?_
  · exact ⟨(hStart.set .size _).set .i _, by simp [State.set_locals, hArray],
      by simp [State.set_locals], hRest⟩
  · rintro k u ⟨-, -, hSize, -⟩
    exact eval_local hSize
  · rintro k u hk hi ⟨hUpdate, hArray, hSize, hRest⟩
    have hPlace : k < entries.length := by omega
    have hEntry : entries[k]? = some entries[k] := List.getElem?_eq_getElem hPlace
    refine .declareAs (eval_keyAt (eval_local hArray) (eval_local hi) (hUpdate.getElem?_copy 0)
      hEntry) ?_
    refine .declareAs (eval_valueAt (eval_local (by simp [State.set_locals, hArray]))
      (eval_local (by simp [State.set_locals, hi])) (hUpdate.getElem?_copy 0) hEntry) ?_
    have hNext := (hUpdate.set .key (.int entries[k].1)).set .value (.bool entries[k].2)
    -- The keys that are there come before this one.
    have hLast : ∀ f ∈ entries.take k, f.1 < entries[k].1 := by
      intro f hf
      obtain ⟨j, hj, rfl⟩ := List.mem_take_iff_getElem.mp hf
      exact List.pairwise_iff_getElem.mp hSorted j k (by omega) hPlace (by omega)
    refine .run (eval_append (eval_local ((hNext.locals_eq hy).trans hLocal))
      (eval_local (by simp [State.set_locals])) (eval_local (State.set_locals_self _ _ _))
      hNext.getElem?_self hLast) (.nil ⟨by simp [State.set_locals, hi], ?_, ?_, ?_, hRest⟩)
    · rw [List.take_succ_eq_append_getElem hPlace]
      exact (hNext.store _).set .i _
    · simp [State.set_locals, hArray]
    · simp [State.set_locals, hSize]
  · rintro u ⟨hUpdate, -, -, hRest⟩
    rw [Int.toNat_natCast, List.take_length] at hUpdate
    exact .nil (hUpdate.updated hRest .flags)

end BinderIdl.Wire
