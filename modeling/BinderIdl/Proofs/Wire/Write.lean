import BinderIdl.Marshal.Write
import BinderIdl.Proofs.Marshal.Emission
import BinderIdl.Proofs.Wire.Frame

/-! What the writers write. A writer of a scheme puts exactly the entries into the
parcel that the wire format has for the value. -/
namespace BinderIdl.Wire

open Java Machine

/-- The kinds that the parcel methods for single values have. -/
def valueKinds : List String :=
  ["Byte", "Double", "Float", "Int", "Long", "Serializable", "String", "StrongBinder"]

/-- A scheme for single values has parcel methods for them. -/
def HasMethods (scheme : Scheme) : Prop := ∀ kind, scheme = .value kind → kind ∈ valueKinds

private theorem append_ne {name ending other : String} {c : Char}
    (hEnding : ending.toList.getLast? = some c) (hOther : other.toList.getLast? ≠ some c) :
    name ++ ending ≠ other := by
  rintro rfl
  simp [hEnding] at hOther

/-- The writer for the kind of a scheme writes entries of that kind. -/
theorem ofName?_write_kind {scheme : Scheme} {kind : String} (hScheme : HasMethods scheme)
    (h : kind? scheme = some kind) :
    ParcelMethod.ofName? ("write" ++ kind) = some (.write kind) := by
  apply ParcelMethod.ofName?_write
  cases scheme with
  | value k =>
      cases h
      exact fun he => absurd (hScheme kind rfl) (by rw [he]; decide)
  | valueArray _ k =>
      cases h
      exact append_ne (c := 'y') (by decide) (by decide)
  | valueList _ k =>
      cases h
      exact append_ne (c := 't') (by decide) (by decide)
  | object _ nature | array _ nature | list _ nature =>
      cases nature <;> cases h
      all_goals decide
  | parcelable | anyValue | intLike | untypedList | untypedMap | sparseBooleanArray =>
      cases h
      decide
  | boolean | uuid | uuidArray _ | uuidList _ => cases h

variable {α : Type} [DecidableEq α] {p : Platform α} {q : Parcel} {n : Nat} {x : String}
  {s : State α} {v : Value α}

/-- A scheme with one kind writes with one call, which may pass flags on. -/
theorem write_kind {scheme : Scheme} {kind : String} {count : Nat} {f : Fragment}
    (h : kind? scheme = some kind) (hEmit : (scheme.write q).emit? x n = some (f, count)) :
    ∃ more, (more = [] ∨ more = [q.flags]) ∧
      f = .run (q.call ("write" ++ kind) (.name x :: more)) := by
  cases scheme with
  | valueArray _ k | valueList _ k =>
      cases h
      cases hEmit
      exact ⟨[], .inl rfl, by simp only [String.append_assoc]⟩
  | array element nature =>
      cases nature <;> cases h
      simp only [Scheme.write] at hEmit
      split at hEmit <;> cases hEmit
      exact ⟨[q.flags], .inr rfl, rfl⟩
  | parcelable =>
      cases h
      cases hEmit
      exact ⟨[q.flags], .inr rfl, rfl⟩
  | object _ nature | list _ nature =>
      cases nature <;> cases h
      all_goals cases hEmit
      all_goals exact ⟨[], .inl rfl, rfl⟩
  | value _ | anyValue | intLike | untypedList | untypedMap | sparseBooleanArray =>
      cases h
      cases hEmit
      exact ⟨[], .inl rfl, rfl⟩
  | boolean | uuid | uuidArray _ | uuidList _ => cases h

theorem writeInt_ends {k : Int} {cs : List Stmt} {Q : State α → Prop} {e : Expr} {t : State α}
    (hs : Ready q s) (he : eval p e s = .ok (.int k) t) (hk : Integral.int.Has k)
    (hRest : Ends p cs (t.refit (t.parcel ++ [number k])) Q) :
    Ends p (.run (q.call "writeInt" [e]) :: cs) s Q :=
  .run (eval_write hs.parcel "Int" (by decide) (evalAll_singleton he)
    (by simp [isWritable, isNumber, hk])) hRest

theorem writeHalf_ends {bits : BitVec 64} {cs : List Stmt} {Q : State α → Prop} {e : Expr}
    {t : State α} (hs : Ready q s) (he : eval p e s = .ok (.int bits.toInt) t)
    (hRest : Ends p cs (t.refit (t.parcel ++ [half bits])) Q) :
    Ends p (.run (q.call "writeLong" [e]) :: cs) s Q :=
  .run (eval_write hs.parcel "Long" (by decide) (evalAll_singleton he)
    (by simp [isWritable, isNumber, long_has_toInt bits])) hRest

/-- An object writes itself behind the flag that it is there. -/
theorem writeObject_ends {a : Nat} {state : α} {entries : List (Entry α)} (hs : Ready q s)
    (hAndroid : s.locals "android" = none) (hx : s.locals x = some (.ref a))
    (ha : s.heap[a]? = some (.object state))
    (hFlatten : p.flatten state (flagsOf q) = some entries) :
    Ends p (Scheme.writeObject q x).body s (Sent n s (number 1 :: entries)) := by
  refine .yes (eval_present (eval_local hx)) ?_
  refine writeInt_ends hs (eval_int 1) (by decide) ?_
  have hReady : Ready q (s.refit (s.parcel ++ [number 1])) := ⟨hs.parcel, hs.classes⟩
  have hFlags := eval_flags (p := p) hReady hAndroid
  refine .run (eval_writeToParcel hReady.parcel hx ha hFlags hFlatten) (.nil ?_)
  exact ⟨by simp, List.prefix_rfl, .refl _ s⟩

/-- An identifier is written as its halves behind the flag that it is there. -/
theorem writeUuid_ends {u : Uuid} (hs : Ready q s) (hv : s.locals x = some (.uuid u)) :
    Ends p (Scheme.writeUuid q x).body s
      (Sent n s [number 1, half u.upper, half u.lower]) := by
  refine .yes (eval_present (eval_local hv)) ?_
  refine writeInt_ends hs (eval_int 1) (by decide) ?_
  refine writeHalf_ends ⟨hs.parcel, hs.classes⟩ (eval_upperHalf (eval_local hv)) ?_
  refine writeHalf_ends ⟨hs.parcel, hs.classes⟩ (eval_lowerHalf (eval_local hv)) (.nil ?_)
  exact ⟨by simp, List.prefix_rfl, .refl _ s⟩

/-- An interface is written as its binder. -/
theorem writeInterface_ends {binder : Value α} {name : String} (hs : Ready q s)
    (hx : s.locals x = some v) (hBinder : HasBinder p name v binder) :
    Ends p (.run (q.call "writeStrongInterface" [.name x]) :: []) s
      (Sent n s [⟨"StrongBinder", .value binder⟩]) := by
  refine .run (v := .null) (t := s.refit (s.parcel ++ [⟨"StrongBinder", .value binder⟩])) ?_
    (.nil ⟨rfl, List.prefix_rfl, .refl _ s⟩)
  have hMethod : ParcelMethod.ofName? "writeStrongInterface" = some .writeInterface := by decide
  rw [eval_parcel hs.parcel hMethod (evalAll_singleton (eval_local hx))]
  cases hBinder with
  | null => simp [callParcel, hMethod, writeInterface, Value.isNull, Run.send]
  | binder hv hb hAsBinder _ =>
      have hNull : v.isNull = false := by cases v <;> simp_all [Value.isNull]
      simp [callParcel, hMethod, writeInterface, hNull, binderOf, hAsBinder, Run.send]

/-- The binder of a value, or null for null. -/
theorem eval_asBinder {binder : Value α} {name : String} {c e : Expr}
    (hBinder : HasBinder p name v binder) (hc : eval p c s = .ok (.bool (v ≠ .null)) s)
    (he : eval p e s = .ok v s) :
    eval p (.conditional c (.call e "asBinder" []) .null) s = .ok binder s := by
  rw [eval_conditional hc]
  cases hBinder with
  | null => rw [if_neg (by simp), eval_null]
  | binder hv hb hAsBinder _ =>
      rw [if_pos (by simp [hv]), eval_call he evalAll_nil]
      change binderOf p v s = _
      simp [binderOf, hAsBinder]

/-- The binders of an array are put into an array of their own, which is written. -/
theorem writeInterfaceArray_ends {a : Nat} {items binders : List (Value α)} {name : String}
    (hs : Ready q s) (hx : Usable q n x) (hv : s.locals x = some (.ref a))
    (ha : s.heap[a]? = some (.array items)) (hSmall : items.length < 2 ^ 31)
    (hBinders : List.Forall₂ (HasBinder p name) items binders) :
    Ends p (Scheme.writeInterfaceArray q (.after n) x).body s
      (Sent n s [⟨"BinderArray", .copy (.array binders)⟩]) := by
  have hLength : items.length = binders.length := hBinders.length_eq
  refine .yes (eval_present (eval_local hv)) ?_
  refine .declareAs (eval_newArray (eval_length (eval_local hv) ha)) ?_
  -- The first binders are in their places, and the other places are empty.
  refine .upTo (n := items.length) (by omega)
    (fun k t => Building (Scratch n) ((Temporaries.after n).name .binders) s
      (.array (filled .null k binders)) [] t ∧ t.parcel = s.parcel) ?_ ?_ ?_ ?_
  · refine ⟨.set ?_ (scratch n .i) (by simp) _, rfl⟩
    rw [filled_zero, ← hLength]
    exact .start (.refl _ s) rfl (scratch n .binders) _
  · rintro k t ⟨hBuild, -⟩
    exact eval_length (eval_local ((hBuild.locals x hx.not_scratch).trans hv))
      (hBuild.getElem?_old ha)
  · rintro k t hk hi ⟨hBuild, hParcel⟩
    have hPlace : k < binders.length := by omega
    have hItem : items[k]? = some items[k] := List.getElem?_eq_getElem (by omega)
    have hBinder : HasBinder p name items[k] binders[k] := hBinders.get (by omega) hPlace
    have hRead := eval_index (p := p) (eval_local ((hBuild.locals x hx.not_scratch).trans hv))
      (eval_local hi) (hBuild.getElem?_old ha) hItem
    refine .assignAt (eval_asBinder hBinder (eval_paren (eval_present hRead)) hRead)
      (eval_local hBuild.place) (eval_local hi) hBuild.getElem?_self
      (by rw [length_filled _ (by omega)]; omega) (.nil ⟨hi, ?_, hParcel⟩)
    rw [filled_set _ (List.getElem?_eq_getElem hPlace)]
    exact (hBuild.store _).set (scratch n .i) (by simp) _
  · rintro t ⟨hBuild, hParcel⟩
    rw [Int.toNat_natCast, hLength, filled_length] at hBuild
    refine .run (eval_write (hs.of_scratch hBuild.locals).parcel "BinderArray" (by decide)
      (evalAll_singleton (eval_local hBuild.place)) (by simp [isWritable])) (.nil ?_)
    rw [contentOf_ref hBuild.getElem?_self rfl]
    exact ⟨by simp [hParcel], hBuild.isPrefix, hBuild.locals⟩

/-- The elements of a collection are written one by one behind their number. -/
theorem writeSerializables_ends {a : Nat} {items : List (Value α)} {size : Expr} (hs : Ready q s)
    (hv : s.locals x = some (.ref a))
    (ha : s.heap[a]? = some (.array items) ∨ s.heap[a]? = some (.list items))
    (hSize : eval p size s = .ok (.int items.length) s) (hSmall : items.length < 2 ^ 31) :
    Ends p (Scheme.writeSerializables size q (.after n) x).body s
      (Sent n s (number items.length :: items.map (serialized s.heap))) := by
  have hLength : Integral.int.Has items.length := by
    simp only [Integral.Has, Integral.least, Integral.size]
    omega
  refine .yes (eval_present (eval_local hv)) ?_
  refine writeInt_ends hs hSize hLength ?_
  refine .each (eval_local hv) (elements_ref ha)
    (fun k t => SameBut (Scratch n) s t ∧ t.heap = s.heap ∧ t.parcel =
      s.parcel ++ number items.length :: (items.take k).map (serialized s.heap)) ?_ ?_ ?_
  · exact ⟨.refl _ s, rfl, by simp⟩
  · rintro k v t hItem ⟨hSame, hHeap, hParcel⟩
    have hSet := hSame.set (scratch n .item) v
    refine .run (eval_write (hs.of_scratch hSet).parcel "Serializable" (by decide)
      (evalAll_singleton (eval_local (State.set_locals_self t _ v))) (by simp [isWritable])) (.nil ?_)
    exact ⟨hSet, hHeap, by simp [hParcel, hHeap, List.take_add_one, hItem, serialized]⟩
  · rintro t ⟨hSame, hHeap, hParcel⟩
    rw [List.take_length] at hParcel
    exact .nil ⟨hParcel, hHeap ▸ List.prefix_rfl, hSame⟩

/-- The binders of a list are put into a list of their own, which is written. -/
theorem writeInterfaceList_ends {a : Nat} {items binders : List (Value α)} {name : String}
    (hs : Ready q s) (hv : s.locals x = some (.ref a)) (hx : Usable q n x)
    (ha : s.heap[a]? = some (.list items))
    (hBinders : List.Forall₂ (HasBinder p name) items binders) :
    Ends p (Scheme.writeInterfaceList q (.after n) x).body s
      (Sent n s [⟨"BinderList", .copy (.list binders)⟩]) := by
  have hLength : items.length = binders.length := hBinders.length_eq
  refine .yes (eval_present (eval_local hv)) ?_
  refine .declareAs (eval_size (eval_local hv) ha) ?_
  refine .declareAs (eval_newList (by decide)
    (evalAll_singleton (eval_local (State.set_locals_self s _ _)))) ?_
  have hSame := (SameBut.refl (Scratch n) s).set (scratch n .size) (.int items.length)
  have hStart := Building.start hSame rfl (scratch n .binders) (.list [])
  refine .each (eval_local ((hStart.locals x hx.not_scratch).trans hv))
    (elements_ref (.inr (hStart.getElem?_old ha)))
    (fun k t => Building (Scratch n) ((Temporaries.after n).name .binders) s
      (.list (binders.take k)) [] t ∧ t.parcel = s.parcel) ?_ ?_ ?_
  · exact ⟨hStart, rfl⟩
  · rintro k v t hItem ⟨hBuild, hParcel⟩
    obtain ⟨hk, rfl⟩ := List.getElem?_eq_some_iff.mp hItem
    have hPlace : k < binders.length := by omega
    have hBinder : HasBinder p name items[k] binders[k] := hBinders.get hk hPlace
    have hNext := hBuild.set (scratch n .interface) (by simp) items[k]
    have hRead := eval_local (p := p) (State.set_locals_self t ((Temporaries.after n).name .interface)
      items[k])
    refine .run (eval_add (eval_local hNext.place)
      (eval_asBinder hBinder (eval_present hRead) hRead) hNext.getElem?_self) (.nil ⟨?_, hParcel⟩)
    rw [← List.take_succ_eq_append_getElem hPlace]
    exact hNext.store _
  · rintro t ⟨hBuild, hParcel⟩
    rw [hLength, List.take_length] at hBuild
    refine .run (eval_write (hs.of_scratch hBuild.locals).parcel "BinderList" (by decide)
      (evalAll_singleton (eval_local hBuild.place)) (by simp [isWritable])) (.nil ?_)
    rw [contentOf_ref hBuild.getElem?_self rfl]
    exact ⟨by simp [hParcel], hBuild.isPrefix, hBuild.locals⟩

/-- What can be absent is written by one call when it is. -/
theorem writeAbsent_ends {yes : List Stmt} {method kind : String} {e : Expr} {w : Value α}
    (hs : Ready q s) (hv : s.locals x = some .null)
    (hm : ParcelMethod.ofName? method = some (.write kind)) (he : eval p e s = .ok w s)
    (hw : isWritable s.heap kind w = true) (hContent : contentOf s.heap w = .value w) :
    Ends p [.branch (.present (.name x)) yes [.run (q.call method [e])]] s
      (Sent n s [⟨kind, .value w⟩]) := by
  refine .no (eval_present (eval_local hv)) ?_
  refine .run (eval_write hs.parcel kind hm (evalAll_singleton he) hw) (.nil ?_)
  exact ⟨by rw [State.refit_parcel, hContent], List.prefix_rfl, .refl _ s⟩

/-- One call writes the whole value. -/
theorem writeWhole_ends {scheme : Scheme} {kind : String} {count : Nat} {f : Fragment}
    (hEmit : (scheme.write q).emit? x n = some (f, count)) (hScheme : HasMethods scheme)
    (hKind : kind? scheme = some kind) (hs : Ready q s) (hAndroid : s.locals "android" = none)
    (hv : s.locals x = some v) (hWritable : isWritable s.heap kind v = true) :
    Ends p f.body s (Sent n s [⟨kind, contentOf s.heap v⟩]) := by
  obtain ⟨more, hMore, rfl⟩ := write_kind hKind hEmit
  obtain ⟨vs, hArguments⟩ : ∃ vs, evalAll p (.name x :: more) s = .ok (v :: vs) s := by
    obtain rfl | rfl := hMore
    · exact ⟨[], evalAll_singleton (eval_local hv)⟩
    · exact ⟨[flagsOf q], by simp [evalAll, eval_local hv, eval_flags hs hAndroid]⟩
  refine .run (eval_write hs.parcel kind (ofName?_write_kind hScheme hKind) hArguments hWritable)
    (.nil ?_)
  exact ⟨rfl, List.prefix_rfl, .refl _ s⟩

/-- A writer writes what the wire format has for the value. -/
theorem write_ends {scheme : Scheme} {d : Declared} {count : Nat} {f : Fragment}
    {es : List (Entry α)} (hEmit : (scheme.write q).emit? x n = some (f, count))
    (hScheme : HasMethods scheme) (hs : Ready q s) (hAndroid : s.locals "android" = none)
    (hx : Usable q n x) (hv : s.locals x = some v)
    (hWire : OnWire p (flagsOf q) s.heap d scheme v es) :
    Ends p f.body s (Sent n s es) := by
  cases hWire with
  | whole hKind hWritable _ => exact writeWhole_ends hEmit hScheme hKind hs hAndroid hv hWritable
  | absentObject =>
      cases hEmit
      exact writeAbsent_ends hs hv (by decide) (eval_int 0) rfl rfl
  | object ha _ hFlatten =>
      cases hEmit
      exact writeObject_ends hs hAndroid hv ha hFlatten
  | interface hBinder _ =>
      cases hEmit
      exact writeInterface_ends hs hv hBinder
  | @boolean b =>
      cases hEmit
      refine writeInt_ends hs (k := if b then 1 else 0) (t := s) ?_ (by cases b <;> decide)
        (.nil ⟨rfl, List.prefix_rfl, .refl _ s⟩)
      rw [eval_conditional (eval_local hv)]
      cases b <;> simp [eval_int]
  | absentUuid =>
      cases hEmit
      exact writeAbsent_ends hs hv (by decide) (eval_int 0) rfl rfl
  | uuid =>
      cases hEmit
      exact writeUuid_ends hs hv
  | absentInterfaceArray =>
      cases Emission.emit?_of_ite hEmit
      exact writeAbsent_ends hs hv (by decide) eval_null rfl rfl
  | interfaceArray ha hSmall hBinders =>
      cases Emission.emit?_of_ite hEmit
      exact writeInterfaceArray_ends hs hx hv ha hSmall hBinders
  | absentSerializableArray =>
      cases Emission.emit?_of_ite hEmit
      exact writeAbsent_ends hs hv (by decide) (eval_int (-1)) rfl rfl
  | serializableArray ha hSmall _ =>
      cases Emission.emit?_of_ite hEmit
      exact writeSerializables_ends hs hv (.inl ha) (eval_length (eval_local hv) ha) hSmall
  | absentInterfaceList =>
      cases hEmit
      exact writeAbsent_ends hs hv (by decide) eval_null rfl rfl
  | interfaceList ha hBinders =>
      cases hEmit
      exact writeInterfaceList_ends hs hv hx ha hBinders
  | absentSerializableList =>
      cases hEmit
      exact writeAbsent_ends hs hv (by decide) (eval_int (-1)) rfl rfl
  | serializableList ha hSmall _ =>
      cases hEmit
      exact writeSerializables_ends hs hv (.inr ha) (eval_size (eval_local hv) ha) hSmall

end BinderIdl.Wire
