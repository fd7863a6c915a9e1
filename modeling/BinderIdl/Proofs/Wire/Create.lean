import BinderIdl.Marshal.Create
import BinderIdl.Proofs.Wire.Write

/-! What the readers declare. A reader of a scheme takes from the parcel exactly the
entries that the wire format has for a value, and declares a value like it. It names the
class that makes the value, which no variable may hide. -/
namespace BinderIdl.Wire

open Java Machine

section Methods

private theorem readKind_self {name : List Char} (hList : ¬ "ArrayList".toList <:+ name)
    (hMap : name ≠ "HashMap".toList) : ParcelMethod.readKind name = name := by
  rw [ParcelMethod.readKind, if_neg hList, if_neg hMap]

private theorem readKind_array (kind : String) :
    ParcelMethod.readKind (kind ++ "Array").toList = (kind ++ "Array").toList := by
  have hLast : (kind ++ "Array").toList.getLast? = some 'y' := by simp
  refine readKind_self ?_ ?_
  · rintro ⟨start, he⟩
    simp [← he] at hLast
  · intro he
    rw [he] at hLast
    exact absurd hLast (by decide)

private theorem readKind_list (kind : String) :
    ParcelMethod.readKind (kind ++ "ArrayList").toList = (kind ++ "List").toList := by
  rw [ParcelMethod.readKind, if_pos (by simp)]
  simp

/-- The methods that read what the writer of a kind writes. -/
theorem ofName?_createArray (kind : String) :
    ParcelMethod.ofName? ("create" ++ kind ++ "Array") = some (.read (kind ++ "Array")) := by
  rw [String.append_assoc, ParcelMethod.ofName?_create, readKind_array, String.ofList_toList]

theorem ofName?_createList (kind : String) :
    ParcelMethod.ofName? ("create" ++ kind ++ "ArrayList") = some (.read (kind ++ "List")) := by
  rw [String.append_assoc, ParcelMethod.ofName?_create, readKind_list, String.ofList_toList]

theorem ofName?_readValue {kind : String} (h : kind ∈ valueKinds) :
    ParcelMethod.ofName? ("read" ++ kind) = some (.read kind) := by
  revert kind
  decide

end Methods

/-- What a reader may be told beside the parcel: nothing, a class loader, or the constant of
a class. -/
inductive IsHint (constant? : Option String) : List Expr → Prop
  | nothing : IsHint constant? []
  | loader : IsHint constant? [classLoader]
  | creator {name : String} (h : constant? = some name) : IsHint constant? [.name name]

theorem dot_mem_stub (name : String) : '.' ∈ (name ++ ".Stub").toList := by simp

theorem dot_mem_classConstant {scheme : Scheme} : ∀ c ∈ classConstant? scheme, '.' ∈ c.toList := by
  have hSome : ∀ {y : String}, '.' ∈ y.toList → ∀ c ∈ some y, '.' ∈ c.toList := by
    rintro y hy c ⟨⟩
    exact hy
  cases scheme with
  | object _ nature | array _ nature | list _ nature =>
      cases nature with
      | parcelable => exact hSome (dot_mem_creatorOf _)
      | interface => exact hSome (dot_mem_stub _)
      | serializable => exact fun c hc => absurd hc (Option.not_mem_none c)
  | parcelable | anyValue | value | intLike | boolean | valueArray | valueList | uuid | uuidArray |
    uuidList | untypedList | untypedMap | sparseBooleanArray =>
      exact fun c hc => absurd hc (Option.not_mem_none c)

/-- A scheme with one kind reads with one call, whose value may be cast. -/
theorem create_kind {scheme : Scheme} {kind y : String} {d : Declared} {q : Parcel} {n count : Nat}
    {f : Fragment} (hScheme : HasMethods scheme) (h : kind? scheme = some kind)
    (hEmit : (scheme.create d q).emit? y n = some (f, count)) :
    ∃ method es, ParcelMethod.ofName? method = some (.read kind) ∧
      IsHint (classConstant? scheme) es ∧
      f = .initializer (if isCast scheme then .cast d.type (q.call method es)
        else q.call method es) := by
  cases scheme with
  | value k =>
      cases h
      cases hEmit
      exact ⟨_, [], ofName?_readValue (hScheme _ rfl), .nothing, rfl⟩
  | valueArray _ k =>
      cases h
      cases hEmit
      exact ⟨_, [], ofName?_createArray k, .nothing, rfl⟩
  | valueList _ k =>
      cases h
      cases hEmit
      exact ⟨_, [], ofName?_createList k, .nothing, rfl⟩
  | object _ nature =>
      cases nature <;> cases h
      cases hEmit
      exact ⟨_, [], by decide, .nothing, rfl⟩
  | array element nature =>
      cases nature <;> cases h
      cases Emission.emit?_of_ite hEmit
      exact ⟨_, _, by decide, .creator rfl, rfl⟩
  | list content nature =>
      cases nature <;> cases h
      cases hEmit
      exact ⟨_, _, by decide, .creator rfl, rfl⟩
  | parcelable | anyValue | untypedList | untypedMap =>
      cases h
      cases hEmit
      exact ⟨_, _, by decide, .loader, rfl⟩
  | intLike | sparseBooleanArray =>
      cases h
      cases hEmit
      exact ⟨_, [], by decide, .nothing, rfl⟩
  | boolean | uuid | uuidArray _ | uuidList _ => cases h

variable {α : Type}

/-- A value that came out of a parcel: the value itself, or, for a collection, a
reference to a copy of it, which is among objects from a base address on. -/
def Restored (heap : List (Cell α)) (base : Nat) (copies : List (Cell α)) (v w : Value α) : Prop :=
  w = v ∨ ∃ a j c, v = .ref a ∧ heap[a]? = some c ∧ w = .ref (base + j) ∧ copies[j]? = some c

namespace Restored

variable {heap heap' copies : List (Cell α)} {base : Nat} {v w : Value α}

theorem append (h : Restored heap base copies v w) (more : List (Cell α)) :
    Restored heap base (copies ++ more) v w := by
  obtain rfl | ⟨a, j, c, hv, ha, hw, hj⟩ := h
  · exact .inl rfl
  · refine .inr ⟨a, j, c, hv, ha, hw, ?_⟩
    rw [List.getElem?_append_left (List.getElem?_eq_some_iff.mp hj).1, hj]

/-- A value that a cast leaves alone comes out as one. -/
theorem fits {type : String} (h : Restored heap base copies v w) (hv : Fits type v) :
    Fits type w := by
  obtain rfl | ⟨a, j, c, rfl, -, rfl, -⟩ := h
  · exact hv
  · exact hv.ref _

theorem alike (h : Restored heap base copies v w)
    (hOld : ∀ (a : Nat) c, heap[a]? = some c → heap'[a]? = some c)
    (hNew : ∀ (j : Nat) c, copies[j]? = some c → heap'[base + j]? = some c) : Alike heap' v w := by
  obtain rfl | ⟨a, j, c, rfl, ha, rfl, hj⟩ := h
  · exact .same w
  · exact .copy (hOld a c ha) (hNew j c hj)

end Restored

/-- Reading what was written of a value restores it. -/
theorem ofContent_contentOf {s : State α} (old copies heap : List (Cell α)) (v : Value α)
    (hs : s.heap = old ++ copies) :
    ∃ w t more, ofContent (contentOf heap v) s = .ok w t ∧ t.locals = s.locals ∧
      t.parcel = s.parcel ∧ t.heap = s.heap ++ more ∧
      Restored heap old.length (copies ++ more) v w := by
  have hSame : contentOf heap v = .value v → ∃ w t more, ofContent (contentOf heap v) s = .ok w t ∧
      t.locals = s.locals ∧ t.parcel = s.parcel ∧ t.heap = s.heap ++ more ∧
      Restored heap old.length (copies ++ more) v w := by
    intro h
    exact ⟨v, s, [], by rw [h]; rfl, rfl, rfl, by simp, .inl rfl⟩
  cases v with
  | ref a =>
      cases ha : heap[a]? with
      | none => exact hSame (by simp [contentOf, ha])
      | some c =>
          by_cases hc : c.isCollection = true
          · refine ⟨.ref s.heap.length, s.extend c, [c], ?_, rfl, rfl, rfl, ?_⟩
            · rw [contentOf_ref ha hc]
              rfl
            · exact .inr ⟨a, copies.length, c, rfl, ha, by simp [hs], by simp⟩
          · exact hSame (by simp [contentOf, ha, hc])
  | null | int _ | bool _ | uuid _ | atom _ | view _ | part _ _ _ | parcel | named _ =>
      exact hSame rfl

/-- The elements that were restored beside a collection are like those that were
written. -/
theorem Building.alike_items {changed : String → Prop} {z : String} {s t : State α} {c : Cell α}
    {heap copies : List (Cell α)} {vs ws : List (Value α)}
    (hBuild : Building changed z s c copies t) (hHeap : heap <+: s.heap)
    (hRestored : List.Forall₂ (Restored heap (s.heap.length + 1) copies) vs ws) (k : Nat)
    (v w : Value α) (hv : vs[k]? = some v) (hw : ws[k]? = some w) : Alike t.heap v w := by
  obtain ⟨hk, rfl⟩ := List.getElem?_eq_some_iff.mp hv
  obtain ⟨hk', rfl⟩ := List.getElem?_eq_some_iff.mp hw
  refine Restored.alike (hRestored.get hk hk')
    (fun a c => getElem?_of_isPrefix (hHeap.trans hBuild.isPrefix)) ?_
  intro j c hj
  rw [hBuild.heap, List.getElem?_append_right (by omega), ← hj]
  have hIndex : s.heap.length + 1 + j - s.heap.length = j + 1 := by omega
  rw [hIndex, List.getElem?_cons_succ]

/-- One more element is restored, beside the copy that it may have needed. -/
theorem restored_snoc {heap copies more : List (Cell α)} {base k : Nat} {items ws : List (Value α)}
    {v w : Value α} (h : List.Forall₂ (Restored heap base copies) (items.take k) ws)
    (hv : items[k]? = some v) (hw : Restored heap base (copies ++ more) v w) :
    List.Forall₂ (Restored heap base (copies ++ more)) (items.take (k + 1)) (ws ++ [w]) := by
  rw [List.take_add_one, hv]
  exact List.rel_append (h.imp fun _ _ hr => hr.append more) (.cons hw .nil)

variable [DecidableEq α] {p : Platform α} {q : Parcel} {n : Nat} {y : String} {s : State α}
  {heap : List (Cell α)} {v : Value α} {rest : List (Entry α)}

theorem eval_hint {constant? : Option String} {es : List Expr} (h : IsHint constant? es)
    (hVisible : ∀ c ∈ constant?, Visible s c) :
    ∃ vs, evalAll p es s = .ok vs s ∧ (vs = [] ∨ ∃ c, vs = [.named c]) := by
  cases h with
  | nothing => exact ⟨[], evalAll_nil, .inl rfl⟩
  | loader =>
      refine ⟨_, evalAll_singleton (v := .named "getClass().getClassLoader()") ?_, .inr ⟨_, rfl⟩⟩
      rw [classLoader, eval_call (v := .named "getClass()") (t := s) (by rw [eval]; rfl) evalAll_nil]
      rfl
  | creator h => exact ⟨_, evalAll_singleton (eval_class (hVisible _ h)), .inr ⟨_, rfl⟩⟩

/-- A cast to a type parameter leaves alone what fits. -/
theorem eval_castTo {d : Declared} {e : Expr} {t : State α}
    (hFits : d.isParameter = true → Fits d.type v) (he : eval p e s = .ok v t) :
    eval p (d.castTo e) s = .ok v t := by
  rw [Declared.castTo]
  split
  · exact eval_cast (hFits ‹_›) he
  · exact he

theorem eval_readInt {k : Int} (hs : Ready q s) (hParcel : s.parcel = number k :: rest) :
    eval p (q.call "readInt" []) s = .ok (.int k) (s.refit rest) :=
  eval_read hs.parcel "Int" (by decide) evalAll_nil (.inl rfl) hParcel

theorem eval_readLong {bits : BitVec 64} (hs : Ready q s) (hParcel : s.parcel = half bits :: rest) :
    eval p (q.call "readLong" []) s = .ok (.int bits.toInt) (s.refit rest) :=
  eval_read hs.parcel "Long" (by decide) evalAll_nil (.inl rfl) hParcel

/-- One call reads the whole value. -/
theorem createWhole_ends {scheme : Scheme} {kind type : String} {d : Declared} {count : Nat}
    {f : Fragment} (hEmit : (scheme.create d q).emit? y n = some (f, count))
    (hScheme : HasMethods scheme) (hKind : kind? scheme = some kind) (hs : Ready q s)
    (hExposed : ∀ c ∈ classConstant? scheme, Exposed n y s c)
    (hFits : isCast scheme = true → Fits d.type v) (hHeap : heap <+: s.heap)
    (hParcel : s.parcel = ⟨kind, contentOf heap v⟩ :: rest) :
    Ends p (f.declaring type y) s (Received n y s rest v) := by
  obtain ⟨method, es, hMethod, hHint, rfl⟩ := create_kind hScheme hKind hEmit
  obtain ⟨vs, hArguments, hvs⟩ := eval_hint (p := p) hHint
    fun c hc => (hExposed c hc).visible hs (dot_mem_classConstant c hc) (.refl _ s)
  obtain ⟨w, t, more, hContent, hLocals, hRest, hGrown, hRestored⟩ :=
    ofContent_contentOf (s := s.refit rest) s.heap [] heap v (by simp)
  have hCall : eval p (q.call method es) s = .ok w t :=
    (eval_read hs.parcel kind hMethod hArguments hvs hParcel).trans hContent
  have hValue : eval p (if isCast scheme then .cast d.type (q.call method es)
      else q.call method es) s = .ok w t := by
    split
    · exact eval_cast (hRestored.fits (hFits ‹_›)) hCall
    · exact hCall
  have hPrefix : s.heap <+: t.heap := hGrown ▸ List.prefix_append _ _
  refine .declareAs hValue (.nil ⟨hRest, hPrefix, ?_, w, by simp, ?_⟩)
  · exact ((SameBut.refl _ s).of_locals hLocals).set (.inl rfl) w
  · refine hRestored.alike (fun a c => getElem?_of_isPrefix (hHeap.trans hPrefix)) ?_
    intro j c hj
    rw [State.set_heap, hGrown, State.refit_heap, List.getElem?_append_right (Nat.le_add_right _ j),
      Nat.add_sub_cancel_left]
    exact hj

/-- The flag that there is no value gives null. -/
theorem createAbsent_ends {yes : List Stmt} {type : String} (hs : Ready q s)
    (hParcel : s.parcel = number 0 :: rest) :
    Ends p (.declare true type y none :: [.branch (.nonzero (q.call "readInt" [])) yes
      [.assign (.name y) .null]]) s (Received n y s rest .null) := by
  refine .declare (.no (eval_nonzero (eval_readInt hs hParcel)) ?_)
  refine .assign eval_null (.nil ⟨rfl, List.prefix_rfl, ?_, .null, by simp, .same _⟩)
  exact ((SameBut.refl _ s).of_locals rfl).set (.inl rfl) _

/-- An object is made anew of what it wrote about itself. -/
theorem createObject_ends {d : Declared} {type : TypeName} {declared : String} {a : Nat} {state : α}
    {flags : Value α} {entries : List (Entry α)} (hs : Ready q s)
    (hCreator : Exposed n y s (creatorOf (className type))) (hHeap : heap <+: s.heap)
    (ha : heap[a]? = some (.object state)) (hRestores : Restores p (className type) state)
    (hFlatten : p.flatten state flags = some entries)
    (hFits : d.isParameter = true → Fits d.type (.ref a : Value α))
    (hParcel : s.parcel = number 1 :: entries ++ rest) :
    Ends p ((Scheme.createObject d type q y).declaring declared y) s
      (Received n y s rest (.ref a)) := by
  refine .declare (.yes (eval_nonzero (eval_readInt hs hParcel)) ?_)
  have hReady : Ready q (s.refit (entries ++ rest)) := ⟨hs.parcel, hs.classes⟩
  have hMake := eval_createFromParcel (p := p) hReady.parcel (hCreator.visible hReady
    (dot_mem_creatorOf _) ((SameBut.refl _ s).refit _)) (hRestores flags entries rest hFlatten)
  refine .assign (eval_castTo (fun hd => (hFits hd).ref _) hMake) (.nil ?_)
  refine ⟨rfl, List.prefix_append _ _, ?_, _, State.set_locals_self _ _ _,
    .copy (c := .object state) ?_ ?_⟩
  · exact ((SameBut.refl _ s).of_locals rfl).set (.inl rfl) _
  · exact getElem?_of_isPrefix (hHeap.trans (List.prefix_append _ _)) ha
  · simp

/-- An object cannot be made if the variable of the parcel hides its class. -/
theorem createObject_stops {d : Declared} {type : TypeName} {declared : String} (hs : Ready q s)
    (hHidden : firstPart (creatorOf (className type)) = q.name)
    (hParcel : s.parcel = number 1 :: rest) :
    Stops p ((Scheme.createObject d type q y).declaring declared y) s .noSuchMember := by
  have hReady : Ready q (s.refit rest) := ⟨hs.parcel, hs.classes⟩
  have hName : eval p (.name (creatorOf (className type))) (s.refit rest) =
      .error .noSuchMember (s.refit rest) :=
    eval_hidden (hReady.classes _ (dot_mem_creatorOf _)) (hHidden ▸ hReady.parcel)
  refine .declare (.yes (eval_nonzero (eval_readInt hs hParcel)) (.assign (t := s.refit rest) ?_))
  have hCall := eval_call_error "createFromParcel" [q.expr] hName
  rw [Declared.castTo]
  split
  · rw [eval, bind_apply, hCall]
  · exact hCall

/-- An identifier is put together from its halves. -/
theorem createUuid_ends {declared : String} {u : Uuid} (hs : Ready q s) (hy : Usable q n y)
    (hParcel : s.parcel = number 1 :: half u.upper :: half u.lower :: rest) :
    Ends p ((Scheme.createUuid q (.after n) y).declaring declared y) s
      (Received n y s rest (.uuid u)) := by
  refine .declare (.yes (eval_nonzero (eval_readInt hs hParcel)) ?_)
  refine .declareAs (eval_readLong ⟨hs.parcel, hs.classes⟩ rfl) ?_
  have hSame := ((SameBut.refl (ScratchAnd n y) s).of_locals (u := s.refit (half u.lower :: rest))
    rfl).set (scratchAnd n y .msb) (.int u.upper.toInt)
  refine .declareAs (eval_readLong (hs.of_scratchAnd hy hSame) rfl) ?_
  refine .assign (eval_newUuid (u := u) (eval_local (by simp [State.set_locals]))
    (eval_local (State.set_locals_self _ _ _)))
    (.nil ⟨rfl, List.prefix_rfl, ?_, _, State.set_locals_self _ _ _, .same _⟩)
  exact ((hSame.of_locals rfl).set (scratchAnd n y .lsb) _).set (.inl rfl) _

/-- The interface behind the binder of an interface is the interface. -/
theorem eval_asInterface {name : String} {binder : Value α} {e : Expr} {t : State α}
    (hStub : Visible s (name ++ ".Stub")) (hBinder : HasBinder p name v binder)
    (he : eval p e s = .ok binder t) : eval p (asInterface name e) s = .ok v t := by
  rw [asInterface, eval_call (eval_class hStub) (evalAll_singleton he)]
  change findInterface p (name ++ ".Stub") binder t = _
  cases hBinder with
  | null => simp [findInterface, Value.isNull]
  | binder _ hb _ hAsInterface =>
      have hNull : binder.isNull = false := by cases binder <;> simp_all [Value.isNull]
      simp [findInterface, hNull, hAsInterface]

/-- A declaration with the value itself. -/
theorem declareValue_ends {type : String} {e : Expr} {t : State α} (he : eval p e s = .ok v t)
    (hLocals : t.locals = s.locals) (hHeap : t.heap = s.heap) (hParcel : t.parcel = rest) :
    Ends p [.declare true type y (some e)] s (Received n y s rest v) := by
  refine .declareAs he (.nil ⟨hParcel, hHeap ▸ List.prefix_rfl, ?_, v, by simp, .same v⟩)
  exact ((SameBut.refl _ s).of_locals hLocals).set (.inl rfl) v

/-- An interface is found behind its binder. -/
theorem createInterface_ends {d : Declared} {type name : String} {binder : Value α} (hs : Ready q s)
    (hStub : Exposed n y s (name ++ ".Stub")) (hBinder : HasBinder p name v binder)
    (hFits : d.isParameter = true → Fits d.type v)
    (hParcel : s.parcel = ⟨"StrongBinder", .value binder⟩ :: rest) :
    Ends p [.declare true type y (some (d.castTo (asInterface name
      (q.call "readStrongBinder" []))))] s (Received n y s rest v) := by
  have hRead : eval p (q.call "readStrongBinder" []) s = .ok binder (s.refit rest) :=
    eval_read hs.parcel "StrongBinder" (by decide) evalAll_nil (.inl rfl) hParcel
  have hVisible := hStub.visible hs (dot_mem_stub name) (.refl _ s)
  exact declareValue_ends (eval_castTo hFits (eval_asInterface hVisible hBinder hRead)) rfl rfl rfl

/-- A temporary takes over a collection from the parcel. -/
theorem declareCopy_ends {final : Bool} {type method kind z : String} {changed : String → Prop}
    {c : Cell α} {cs : List Stmt} {Q : State α → Prop} (hs : Ready q s) (hz : changed z)
    (hMethod : ParcelMethod.ofName? method = some (.read kind))
    (hParcel : s.parcel = ⟨kind, .copy c⟩ :: rest)
    (hRest : ∀ t, Building changed z s c [] t → t.parcel = rest → Ends p cs t Q) :
    Ends p (.declare final type z (some (q.call method [])) :: cs) s Q := by
  refine .declareAs (eval_read hs.parcel kind hMethod evalAll_nil (.inl rfl) hParcel) ?_
  exact hRest _ (.start (t := s.refit rest) ((SameBut.refl _ s).of_locals rfl) rfl hz c) rfl

theorem declareCopy_stops {final : Bool} {type method kind z : String} {changed : String → Prop}
    {c : Cell α} {cs : List Stmt} {fault : Fault} (hs : Ready q s) (hz : changed z)
    (hMethod : ParcelMethod.ofName? method = some (.read kind))
    (hParcel : s.parcel = ⟨kind, .copy c⟩ :: rest)
    (hRest : ∀ t, Building changed z s c [] t → Stops p cs t fault) :
    Stops p (.declare final type z (some (q.call method [])) :: cs) s fault :=
  .declareAs (eval_read hs.parcel kind hMethod evalAll_nil (.inl rfl) hParcel)
    (hRest _ (.start (t := s.refit rest) ((SameBut.refl _ s).of_locals rfl) rfl hz c))

/-- The interfaces behind an array of binders are put into an array. -/
theorem createInterfaceArray_ends {element : TypeName} {declared : String} {a : Nat}
    {items binders : List (Value α)} (hs : Ready q s) (hy : Usable q n y)
    (hStub : Exposed n y s (className element ++ ".Stub")) (hHeap : heap <+: s.heap)
    (ha : heap[a]? = some (.array items)) (hSmall : items.length < 2 ^ 31)
    (hBinders : List.Forall₂ (HasBinder p (className element)) items binders)
    (hParcel : s.parcel = ⟨"BinderArray", .copy (.array binders)⟩ :: rest) :
    Ends p ((Scheme.createInterfaceArray element q (.after n) y).declaring declared y) s
      (Received n y s rest (.ref a)) := by
  have hLength : items.length = binders.length := hBinders.length_eq
  refine .declare (declareCopy_ends hs (scratchAnd n y .binders) (by decide) hParcel ?_)
  intro t hRead hRest
  have hItems : t.heap[a]? = some (.array items) :=
    getElem?_of_isPrefix (hHeap.trans hRead.isPrefix) ha
  refine .yes (eval_present (eval_local hRead.place)) ?_
  refine .assign (eval_newArray (eval_length (eval_local hRead.place) hRead.getElem?_self)) ?_
  -- The first interfaces are in their places, and the binders are where they were.
  refine .upTo (n := binders.length) (by omega)
    (fun k u => Building (ScratchAnd n y) y t (.array (filled (defaultOf element.print) k items)) []
      u ∧ u.locals ((Temporaries.after n).name .binders) = some (.ref s.heap.length) ∧
      u.parcel = rest) ?_ ?_ ?_ ?_
  · refine ⟨.set ?_ (scratchAnd n y .i) (hy.ne_temporary .i).symm _, ?_, hRest⟩
    · rw [filled_zero, hLength]
      exact .start (.refl _ t) rfl (.inl rfl) _
    · simp [State.set_locals, (hy.ne_temporary .binders).symm, hRead.place]
  · rintro k u ⟨hBuild, hBound, -⟩
    exact eval_length (eval_local hBound) (hBuild.getElem?_old hRead.getElem?_self)
  · rintro k u hk hi ⟨hBuild, hBound, hRest⟩
    have hPlace : k < items.length := by omega
    have hBinder : HasBinder p (className element) items[k] binders[k] :=
      hBinders.get hPlace (by omega)
    have hGet := eval_index (p := p) (eval_local hBound) (eval_local hi)
      (hBuild.getElem?_old hRead.getElem?_self) (List.getElem?_eq_getElem (by omega))
    have hSame := hRead.locals.trans hBuild.locals
    have hVisible := hStub.visible (hs.of_scratchAnd hy hSame) (dot_mem_stub _) hSame
    refine .assignAt (eval_asInterface hVisible hBinder hGet) (eval_local hBuild.place)
      (eval_local hi) hBuild.getElem?_self (by rw [length_filled _ (by omega)]; omega)
      (.nil ⟨hi, ?_, ?_, hRest⟩)
    · rw [filled_set _ (List.getElem?_eq_getElem hPlace)]
      exact (hBuild.store _).set (scratchAnd n y .i) (hy.ne_temporary .i).symm _
    · simp [State.set_locals, hBound]
  · rintro u ⟨hBuild, -, hRest⟩
    rw [Int.toNat_natCast, ← hLength, filled_length] at hBuild
    exact .nil (hBuild.received hRead.locals hRead.isPrefix hRest
      (.copy (hBuild.getElem?_old hItems) hBuild.getElem?_self))

private theorem takeWhile_arrayList (rest : List Char) :
    ("java.util.ArrayList<".toList ++ rest).takeWhile (· != '<') =
      "java.util.ArrayList".toList := by
  have hStart : "java.util.ArrayList<".toList = "java.util.ArrayList".toList ++ ['<'] := by decide
  have hNone : "java.util.ArrayList".toList.all (· != '<') = true := by decide
  rw [hStart, List.append_assoc, List.takeWhile_append_of_pos (List.all_eq_true.mp hNone),
    List.singleton_append, List.takeWhile_cons_of_neg (by decide), List.append_nil]

/-- Lists of all contents are of one class. -/
theorem withoutArguments_arrayListOf (content : String) :
    withoutArguments (Scheme.arrayListOf content) = "java.util.ArrayList" := by
  have hChars : (Scheme.arrayListOf content).toList =
      "java.util.ArrayList<".toList ++ (content.toList ++ ">".toList) := by
    unfold Scheme.arrayListOf
    simp only [String.toList_append, List.append_assoc]
  rw [withoutArguments, hChars, takeWhile_arrayList]
  decide

/-- The interfaces behind a list of binders are put into a list. -/
theorem createInterfaceList_ends {content : TypeName} {declared : String} {a : Nat}
    {items binders : List (Value α)} (hs : Ready q s) (hy : Usable q n y)
    (hStub : Exposed n y s (content.base ++ ".Stub")) (hHeap : heap <+: s.heap)
    (ha : heap[a]? = some (.list items))
    (hBinders : List.Forall₂ (HasBinder p content.base) items binders)
    (hParcel : s.parcel = ⟨"BinderList", .copy (.list binders)⟩ :: rest) :
    Ends p ((Scheme.createInterfaceList content q (.after n) y).declaring declared y) s
      (Received n y s rest (.ref a)) := by
  have hLength : items.length = binders.length := hBinders.length_eq
  refine .declare (declareCopy_ends hs (scratchAnd n y .binders) (by decide) hParcel ?_)
  intro t hRead hRest
  have hItems : t.heap[a]? = some (.list items) :=
    getElem?_of_isPrefix (hHeap.trans hRead.isPrefix) ha
  refine .yes (eval_present (eval_local hRead.place)) ?_
  refine .declareAs (eval_size (eval_local hRead.place) hRead.getElem?_self) ?_
  refine .assign (eval_newList (withoutArguments_arrayListOf _)
    (evalAll_singleton (eval_local (State.set_locals_self _ _ _)))) ?_
  have hStart := Building.start ((SameBut.refl (ScratchAnd n y) t).set (scratchAnd n y .size)
    (.int binders.length)) rfl (z := y) (.inl rfl) (.list [])
  refine .each (eval_local (v := .ref s.heap.length) ?_)
    (elements_ref (.inr (hStart.getElem?_old hRead.getElem?_self)))
    (fun k u => Building (ScratchAnd n y) y t (.list (items.take k)) [] u ∧ u.parcel = rest) ?_ ?_ ?_
  · simp [State.set_locals, (hy.ne_temporary .binders).symm, hRead.place]
  · exact ⟨hStart, hRest⟩
  · rintro k binder u hBinder ⟨hBuild, hRest⟩
    obtain ⟨hk, rfl⟩ := List.getElem?_eq_some_iff.mp hBinder
    have hPlace : k < items.length := by omega
    have hPair : HasBinder p content.base items[k] binders[k] := hBinders.get hPlace hk
    have hNext := hBuild.set (scratchAnd n y .binder) (hy.ne_temporary .binder).symm binders[k]
    have hSame := hRead.locals.trans hNext.locals
    have hVisible := hStub.visible (hs.of_scratchAnd hy hSame) (dot_mem_stub _) hSame
    refine .run (eval_add (eval_local hNext.place)
      (eval_asInterface hVisible hPair (eval_local (State.set_locals_self _ _ _)))
      hNext.getElem?_self) (.nil ⟨?_, hRest⟩)
    rw [← List.take_succ_eq_append_getElem hPlace]
    exact hNext.store _
  · rintro u ⟨hBuild, hRest⟩
    rw [← hLength, List.take_length] at hBuild
    exact .nil (hBuild.received hRead.locals hRead.isPrefix hRest
      (.copy (hBuild.getElem?_old hItems) hBuild.getElem?_self))

/-- Reading an element beside a collection that is being built. -/
theorem eval_readSerializable {changed : String → Prop} {z type : String} {t : State α}
    {c : Cell α} {copies : List (Cell α)} (hs : Ready q t)
    (hBuild : Building changed z s c copies t) (hFits : Fits type v)
    (hParcel : t.parcel = serialized heap v :: rest) :
    ∃ w u more, eval p (Scheme.readSerializable type q) t = .ok w u ∧
      u.locals = t.locals ∧ u.parcel = rest ∧ Building changed z s c (copies ++ more) u ∧
      Restored heap (s.heap.length + 1) (copies ++ more) v w := by
  obtain ⟨w, u, more, hContent, hLocals, hRest, hGrown, hRestored⟩ :=
    ofContent_contentOf (s := t.refit rest) (s.heap ++ [c]) copies heap v (by simp [hBuild.heap])
  have hCall : eval p (q.call "readSerializable" []) t = .ok w u :=
    (eval_read hs.parcel "Serializable" (by decide) evalAll_nil (.inl rfl) hParcel).trans hContent
  rw [List.length_append, List.length_singleton] at hRestored
  exact ⟨w, u, more, eval_cast (hRestored.fits hFits) hCall, hLocals, hRest,
    hBuild.grow hLocals hGrown, hRestored⟩

/-- A temporary takes over a number from the parcel. -/
theorem declareInt_ends {final : Bool} {type z : String} {changed : String → Prop} {k : Int}
    {cs : List Stmt} {Q : State α → Prop} (hs : Ready q s) (hz : changed z)
    (hParcel : s.parcel = number k :: rest)
    (hRest : ∀ t, SameBut changed s t → t.heap = s.heap → t.locals z = some (.int k) →
      t.parcel = rest → Ends p cs t Q) :
    Ends p (.declare final type z (some (q.call "readInt" [])) :: cs) s Q := by
  refine .declareAs (eval_readInt hs hParcel) (hRest _ ?_ rfl (State.set_locals_self _ _ _) rfl)
  exact ((SameBut.refl _ s).of_locals rfl).set hz _

/-- A collection takes the elements one by one. Its shape says what it is when it has
taken some of them. -/
theorem createSerializables_ends {make : Expr} {keep : Stmt} {type declared : String}
    {items : List (Value α)} (shape : List (Value α) → Cell α) (hs : Ready q s) (hy : Usable q n y)
    (hHeap : heap <+: s.heap) (hSmall : items.length < 2 ^ 31) (hFits : ∀ v ∈ items, Fits type v)
    (hParcel : s.parcel = number items.length :: items.map (serialized heap) ++ rest)
    (hMake : ∀ t, t.locals ((Temporaries.after n).name .size) = some (.int items.length) →
      eval p make t = .ok (.ref t.heap.length) (t.extend (shape [])))
    (hKeep : ∀ ws w t u, ws.length < items.length → t.locals y = some (.ref s.heap.length) →
      t.locals ((Temporaries.after n).name .i) = some (.int ws.length) → u.locals = t.locals →
      eval p (Scheme.readSerializable type q) t = .ok w u →
      u.heap[s.heap.length]? = some (shape ws) →
      Ends p [keep] t (· = u.store s.heap.length (shape (ws ++ [w]))))
    (hAlike : ∀ ws (heap' : List (Cell α)), heap <+: heap' →
      heap'[s.heap.length]? = some (shape ws) → items.length = ws.length →
      (∀ (k : Nat) v w, items[k]? = some v → ws[k]? = some w → Alike heap' v w) →
      Alike heap' v (.ref s.heap.length)) :
    Ends p (.declare true declared y none :: [.declare true "int" ((Temporaries.after n).name .size)
        (some (q.call "readInt" [])),
      .branch (.binary .greaterEqual ((Temporaries.after n).var .size) (.int 0))
        [.assign (.name y) make, upTo ((Temporaries.after n).name .i)
          ((Temporaries.after n).var .size) [keep]]
        [.assign (.name y) .null]]) s (Received n y s rest v) := by
  refine .declare (declareInt_ends hs (scratchAnd n y .size) hParcel ?_)
  intro t hSame hOld hSize hRest
  refine .yes (eval_nonnegative (eval_local hSize)) ?_
  refine .assign (hMake t hSize) ?_
  -- The first elements are restored, and the others are still in the parcel.
  refine .upTo (n := items.length) (by omega)
    (fun k t => ∃ ws copies, Building (ScratchAnd n y) y s (shape ws) copies t ∧
      List.Forall₂ (Restored heap (s.heap.length + 1) copies) (items.take k) ws ∧
      t.locals ((Temporaries.after n).name .size) = some (.int items.length) ∧
      t.parcel = (items.drop k).map (serialized heap) ++ rest) ?_ ?_ ?_ ?_
  · refine ⟨[], [], .set ?_ (scratchAnd n y .i) (hy.ne_temporary .i).symm _, .nil, ?_, hRest⟩
    · exact .start hSame hOld (.inl rfl) _
    · simp [State.set_locals, (hy.ne_temporary .size).symm, hSize]
  · rintro k t ⟨ws, copies, -, -, hSize, -⟩
    exact eval_local hSize
  · rintro k t hk hi ⟨ws, copies, hBuild, hRestored, hSize, hRest⟩
    have hPlace : k < items.length := by omega
    rw [List.drop_eq_getElem_cons hPlace, List.map_cons, List.cons_append] at hRest
    obtain ⟨w, u, more, hRead, hLocals, hNext, hGrown, hw⟩ := eval_readSerializable (p := p)
      (hs.of_scratchAnd hy hBuild.locals) hBuild (hFits _ (List.getElem_mem hPlace)) hRest
    obtain rfl : ws.length = k := by
      rw [← hRestored.length_eq, List.length_take, Nat.min_eq_left (by omega)]
    refine (hKeep ws w t u hPlace hBuild.place hi hLocals hRead hGrown.getElem?_self).mono ?_
    rintro _ rfl
    refine ⟨hLocals ▸ hi, ws ++ [w], copies ++ more, ?_, ?_, ?_, hNext⟩
    · exact (hGrown.store _).set (scratchAnd n y .i) (hy.ne_temporary .i).symm _
    · exact restored_snoc hRestored (List.getElem?_eq_getElem hPlace) hw
    · simp [State.set_locals, hLocals, hSize]
  · rintro t ⟨ws, copies, hBuild, hRestored, -, hRest⟩
    simp only [Int.toNat_natCast, List.take_length, List.drop_length, List.map_nil,
      List.nil_append] at hRestored hRest
    exact .nil (hBuild.received (.refl _ s) List.prefix_rfl hRest
      (hAlike ws t.heap (hHeap.trans hBuild.isPrefix) hBuild.getElem?_self hRestored.length_eq
        (hBuild.alike_items hHeap hRestored)))

/-- An array takes the elements one by one. -/
theorem createSerializableArray_ends {element : TypeName} {declared : String} {a : Nat}
    {items : List (Value α)} (hs : Ready q s) (hy : Usable q n y) (hHeap : heap <+: s.heap)
    (ha : heap[a]? = some (.array items)) (hSmall : items.length < 2 ^ 31)
    (hFits : ∀ v ∈ items, Fits element.print v)
    (hParcel : s.parcel = number items.length :: items.map (serialized heap) ++ rest) :
    Ends p ((Scheme.createSerializableArray element q (.after n) y).declaring declared y) s
      (Received n y s rest (.ref a)) := by
  refine createSerializables_ends
    (fun ws => .array (ws ++ List.replicate (items.length - ws.length) (defaultOf element.print)))
    hs hy hHeap hSmall hFits hParcel (fun t hSize => eval_newArray (eval_local hSize)) ?_ ?_
  · intro ws w t u hPlace hy hi hLocals hRead hSelf
    rw [← hLocals] at hy hi
    refine .assignAt hRead (eval_local hy) (eval_local hi) hSelf (by simp; omega) (.nil ?_)
    rw [append_blank_set _ ws w hPlace, List.length_append, List.length_singleton]
  · intro ws heap' hOld hSelf hLength hItems
    rw [hLength, Nat.sub_self, List.replicate_zero, List.append_nil] at hSelf
    exact .array (getElem?_of_isPrefix hOld ha) hSelf hLength hItems

/-- A list takes the elements one by one. -/
theorem createSerializableList_ends {content : TypeName} {declared : String} {a : Nat}
    {items : List (Value α)} (hs : Ready q s) (hy : Usable q n y) (hHeap : heap <+: s.heap)
    (ha : heap[a]? = some (.list items)) (hSmall : items.length < 2 ^ 31)
    (hFits : ∀ v ∈ items, Fits content.print v)
    (hParcel : s.parcel = number items.length :: items.map (serialized heap) ++ rest) :
    Ends p ((Scheme.createSerializableList content q (.after n) y).declaring declared y) s
      (Received n y s rest (.ref a)) := by
  refine createSerializables_ends .list hs hy hHeap hSmall hFits hParcel ?_ ?_ ?_
  · intro t hSize
    exact eval_newList (withoutArguments_arrayListOf _) (evalAll_singleton (eval_local hSize))
  · intro ws w t u _ hy _ _ hRead hSelf
    exact .run (eval_add (eval_local hy) hRead hSelf) (.nil rfl)
  · intro ws heap' hOld hSelf hLength hItems
    exact .list (getElem?_of_isPrefix hOld ha) hSelf hLength hItems

/-- Null instead of a collection of binders gives null. -/
theorem createNoBinders_ends {yes : List Stmt} {type declared method kind : String} (hs : Ready q s)
    (hMethod : ParcelMethod.ofName? method = some (.read kind))
    (hParcel : s.parcel = ⟨kind, .value .null⟩ :: rest) :
    Ends p (.declare true declared y none :: [.declare true type ((Temporaries.after n).name .binders)
        (some (q.call method [])), .branch (.present ((Temporaries.after n).var .binders)) yes
        [.assign (.name y) .null]]) s (Received n y s rest .null) := by
  refine .declare (.declareAs (eval_read hs.parcel kind hMethod evalAll_nil (.inl rfl) hParcel) ?_)
  refine .no (eval_present (eval_local (State.set_locals_self _ _ _))) ?_
  refine .assign eval_null (.nil ⟨rfl, List.prefix_rfl, ?_, .null, by simp, .same _⟩)
  exact (((SameBut.refl _ s).of_locals rfl).set (scratchAnd n y .binders) _).set (.inl rfl) _

/-- A negative size gives null. -/
theorem createNoElements_ends {yes : List Stmt} {declared : String} (hs : Ready q s)
    (hParcel : s.parcel = number (-1) :: rest) :
    Ends p (.declare true declared y none :: [.declare true "int" ((Temporaries.after n).name .size)
        (some (q.call "readInt" [])),
      .branch (.binary .greaterEqual ((Temporaries.after n).var .size) (.int 0)) yes
        [.assign (.name y) .null]]) s (Received n y s rest .null) := by
  refine .declare (declareInt_ends hs (scratchAnd n y .size) hParcel ?_)
  intro t hSame hOld hSize hRest
  refine .no (eval_nonnegative (eval_local hSize)) ?_
  refine .assign eval_null (.nil ⟨hRest, hOld ▸ List.prefix_rfl, ?_, .null, by simp, .same _⟩)
  exact hSame.set (.inl rfl) _

/-- A reader takes what the wire format has for a value, and declares a value like
it, if no variable hides the class that makes the value. -/
theorem create_ends {scheme : Scheme} {d : Declared} {flags : Value α} {type : String} {count : Nat}
    {f : Fragment} {es : List (Entry α)} (hEmit : (scheme.create d q).emit? y n = some (f, count))
    (hScheme : HasMethods scheme) (hs : Ready q s) (hy : Usable q n y)
    (hExposed : ∀ c ∈ classConstant? scheme, Exposed n y s c) (hHeap : heap <+: s.heap)
    (hWire : OnWire p flags heap d scheme v es) (hParcel : s.parcel = es ++ rest) :
    Ends p (f.declaring type y) s (Received n y s rest v) := by
  cases hWire with
  | whole hKind _ hFits =>
      exact createWhole_ends hEmit hScheme hKind hs hExposed hFits hHeap hParcel
  | absentObject =>
      cases hEmit
      exact createAbsent_ends hs hParcel
  | object ha hRestores hFlatten hFits =>
      cases hEmit
      exact createObject_ends hs (hExposed _ rfl) hHeap ha hRestores hFlatten hFits hParcel
  | interface hBinder hFits =>
      cases hEmit
      exact createInterface_ends hs (hExposed _ rfl) hBinder hFits hParcel
  | @boolean b =>
      cases hEmit
      have hRead := eval_paren (eval_nonzero (eval_readInt (p := p) hs hParcel))
      have hValue : decide ((if b then 1 else 0 : Int) ≠ 0) = b := by cases b <;> rfl
      rw [hValue] at hRead
      exact declareValue_ends hRead rfl rfl rfl
  | absentUuid =>
      cases hEmit
      exact createAbsent_ends hs hParcel
  | uuid =>
      cases hEmit
      exact createUuid_ends hs hy hParcel
  | absentInterfaceArray =>
      cases Emission.emit?_of_ite hEmit
      exact createNoBinders_ends hs (by decide) hParcel
  | interfaceArray ha hSmall hBinders =>
      cases Emission.emit?_of_ite hEmit
      exact createInterfaceArray_ends hs hy (hExposed _ rfl) hHeap ha hSmall hBinders hParcel
  | absentSerializableArray =>
      cases Emission.emit?_of_ite hEmit
      exact createNoElements_ends hs hParcel
  | serializableArray ha hSmall hFits =>
      cases Emission.emit?_of_ite hEmit
      exact createSerializableArray_ends hs hy hHeap ha hSmall hFits hParcel
  | absentInterfaceList =>
      cases hEmit
      exact createNoBinders_ends hs (by decide) hParcel
  | interfaceList ha hBinders =>
      cases hEmit
      exact createInterfaceList_ends hs hy (hExposed _ rfl) hHeap ha hBinders hParcel
  | absentSerializableList =>
      cases hEmit
      exact createNoElements_ends hs hParcel
  | serializableList ha hSmall hFits =>
      cases hEmit
      exact createSerializableList_ends hs hy hHeap ha hSmall hFits hParcel

end BinderIdl.Wire
