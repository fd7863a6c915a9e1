import BinderIdl.Proofs.Wire.RoundTrip
import BinderIdl.Proofs.Wire.UuidRead

/-! Null for an argument that goes and comes back. Null is written as an entry of its own, is
null at the other end, and comes back as that entry. Code that updates an argument by more than
one call of a parcel method looks at the entry before it uses the argument, so null stays null.
One reader looks too late: a sparse array is emptied first. -/
namespace BinderIdl.Wire

open Java Machine

variable {α : Type}

/-- Null travels as some entries by a scheme, and the code that updates an argument of the
scheme is more than one call. -/
inductive NullAs : Scheme → List (Entry α) → Prop
  | object {type : TypeName} : NullAs (.object type .parcelable) [number 0]
  | interfaceArray {element : TypeName} :
      NullAs (.array element .interface) [⟨"BinderArray", .value .null⟩]
  | serializableArray {element : TypeName} : NullAs (.array element .serializable) [number (-1)]
  | interfaceList {content : TypeName} :
      NullAs (.list content .interface) [⟨"BinderList", .value .null⟩]
  | serializableList {content : TypeName} : NullAs (.list content .serializable) [number (-1)]
  | uuidArray {element : TypeName} : NullAs (.uuidArray element) [⟨"LongArray", .value .null⟩]
  | uuidList {content : TypeName} : NullAs (.uuidList content) [⟨"LongArray", .value .null⟩]
  | sparseBooleanArray : NullAs .sparseBooleanArray [⟨"SparseBooleanArray", .value .null⟩]

/-- A state after a fragment has left some entries and has changed nothing but its
temporaries. -/
structure Untouched (n : Nat) (s : State α) (rest : List (Entry α)) (t : State α) : Prop where
  parcel : t.parcel = rest
  heap : t.heap = s.heap
  locals : SameBut (Scratch n) s t

variable {p : Platform α} {q : Parcel} {n count : Nat} {x y type : String} {s : State α}
  {es rest : List (Entry α)} {scheme : Scheme} {d : Declared} {f : Fragment}

variable [DecidableEq α]

/-- A collection that is null is not looked into. -/
theorem skipNull_ends {final : Bool} {method kind : String} {r : Role} {yes : List Stmt}
    (hs : Ready q s) (hMethod : ParcelMethod.ofName? method = some (.read kind))
    (hParcel : s.parcel = ⟨kind, .value .null⟩ :: rest) :
    Ends p [.declare final type ((Temporaries.after n).name r) (some (q.call method [])),
      .branch (.present ((Temporaries.after n).var r)) yes []] s (Untouched n s rest) := by
  refine .declareAs (eval_read hs.parcel kind hMethod evalAll_nil (.inl rfl) hParcel) ?_
  refine .no (eval_present (eval_local (State.set_locals_self _ _ _))) (.nil ⟨rfl, rfl, ?_⟩)
  exact ((SameBut.refl _ s).refit rest).set (scratch n r) _

/-- No object is read behind the flag that there is none. -/
theorem updateAbsent_ends (hs : Ready q s) (hParcel : s.parcel = number 0 :: rest) :
    Ends p (Scheme.updateObject q x).body s (Untouched n s rest) :=
  .no (eval_nonzero (eval_readInt hs hParcel)) (.nil ⟨rfl, rfl, (SameBut.refl _ s).refit rest⟩)

/-- A list is not emptied for a negative size. -/
theorem skipElements_ends {yes : List Stmt} (hs : Ready q s)
    (hParcel : s.parcel = number (-1) :: rest) :
    Ends p [.declare true "int" ((Temporaries.after n).name .size) (some (q.call "readInt" [])),
      .branch (.binary .greaterEqual ((Temporaries.after n).var .size) (.int 0)) yes []] s
      (Untouched n s rest) := by
  refine declareInt_ends hs (scratch n .size) hParcel ?_
  intro t hSame hHeap hSize hRest
  exact .no (eval_nonnegative (eval_local hSize)) (.nil ⟨hRest, hHeap, hSame⟩)

/-- A negative size is a loop without rounds. -/
theorem noRounds_ends {body : List Stmt} (hs : Ready q s)
    (hParcel : s.parcel = number (-1) :: rest) :
    Ends p [.declare true "int" ((Temporaries.after n).name .size) (some (q.call "readInt" [])),
      upTo ((Temporaries.after n).name .i) ((Temporaries.after n).var .size) body] s
      (Untouched n s rest) := by
  refine declareInt_ends hs (scratch n .size) hParcel ?_
  intro t hSame hHeap hSize hRest
  have hApart : (Temporaries.after n).name .size ≠ (Temporaries.after n).name .i := by simp
  refine .upTo (n := -1) (by decide) (fun _ u => u = t.set ((Temporaries.after n).name .i) (.int 0))
    rfl ?_ ?_ ?_
  · rintro k u rfl
    exact eval_local (by rw [State.set_locals, if_neg hApart, hSize])
  · intro k u hk
    omega
  · rintro u rfl
    exact .nil ⟨hRest, hHeap, hSame.set (scratch n .i) _⟩

namespace NullAs

/-- Nothing is looked up to write null, neither flags nor a class. -/
theorem write_ends (h : NullAs scheme es) (hEmit : (scheme.write q).emit? x n = some (f, count))
    (hs : Ready q s) (hx : Usable q n x) (hv : s.locals x = some .null) :
    Ends p f.body s (Sent n s es) := by
  have hUuids : ∀ {scheme : Scheme}, (scheme.write q).emit? x n = some (f, count) →
      IsUuids s.heap scheme .null none →
      Ends p f.body s (Sent n s [⟨"LongArray", .value .null⟩]) := by
    intro scheme hEmit hNone
    obtain ⟨z, -, hEnds⟩ := writeCollection_ends hEmit hs (by simp) hx hv hNone (by simp) (by simp)
    exact hEnds
  cases h with
  | object =>
      cases hEmit
      exact writeAbsent_ends hs hv (by decide) (eval_int 0) rfl rfl
  | interfaceArray =>
      cases Emission.emit?_of_ite hEmit
      exact writeAbsent_ends hs hv (by decide) eval_null rfl rfl
  | serializableArray =>
      cases Emission.emit?_of_ite hEmit
      exact writeAbsent_ends hs hv (by decide) (eval_int (-1)) rfl rfl
  | interfaceList =>
      cases hEmit
      exact writeAbsent_ends hs hv (by decide) eval_null rfl rfl
  | serializableList =>
      cases hEmit
      exact writeAbsent_ends hs hv (by decide) (eval_int (-1)) rfl rfl
  | uuidArray => exact hUuids hEmit .absentArray
  | uuidList => exact hUuids hEmit .absentList
  | sparseBooleanArray =>
      cases hEmit
      refine .run (eval_write hs.parcel "SparseBooleanArray" (by decide)
        (evalAll_singleton (eval_local hv)) rfl) (.nil ?_)
      exact ⟨rfl, List.prefix_rfl, .refl _ s⟩

/-- No class is looked up to make null of the entries of null. -/
theorem create_ends (h : NullAs scheme es)
    (hEmit : (scheme.create d q).emit? y n = some (f, count)) (hs : Ready q s)
    (hy : Usable q n y) (hParcel : s.parcel = es ++ rest) :
    Ends p (f.declaring type y) s fun t => t.parcel = rest ∧ t.locals y = some .null := by
  have hCommon : Ends p (f.declaring type y) s (Received n y s rest .null) →
      Ends p (f.declaring type y) s fun t => t.parcel = rest ∧ t.locals y = some .null := by
    refine fun hEnds => hEnds.mono ?_
    rintro t ⟨hRest, -, -, w, hw, hAlike⟩
    cases hAlike
    exact ⟨hRest, hw⟩
  have hUuids : ∀ {scheme : Scheme}, (scheme.create d q).emit? y n = some (f, count) →
      IsUuids s.heap scheme .null none →
      s.parcel = (⟨"LongArray", .value .null⟩ : Entry α) :: rest →
      Ends p (f.declaring type y) s fun t => t.parcel = rest ∧ t.locals y = some .null := by
    intro scheme hEmit hNone hParcel
    refine (createCollection_ends (z := ⟨0, 0⟩) hEmit hs hy hNone (by simp) (by simp)
      hParcel).mono ?_
    rintro t ⟨hRest, -, -, w, hw, hNull⟩
    cases hNull <;> exact ⟨hRest, hw⟩
  cases h with
  | object =>
      cases hEmit
      exact hCommon (createAbsent_ends hs hParcel)
  | interfaceArray =>
      cases Emission.emit?_of_ite hEmit
      exact hCommon (createNoBinders_ends hs (by decide) hParcel)
  | serializableArray =>
      cases Emission.emit?_of_ite hEmit
      exact hCommon (createNoElements_ends hs hParcel)
  | interfaceList =>
      cases hEmit
      exact hCommon (createNoBinders_ends hs (by decide) hParcel)
  | serializableList =>
      cases hEmit
      exact hCommon (createNoElements_ends hs hParcel)
  | uuidArray => exact hUuids hEmit .absentArray hParcel
  | uuidList => exact hUuids hEmit .absentList hParcel
  | sparseBooleanArray =>
      exact hCommon (createWhole_ends hEmit (by rintro _ ⟨⟩) rfl hs (by rintro _ ⟨⟩)
        (by simp [isCast]) List.prefix_rfl hParcel)

/-- Whatever the variable holds, a reader leaves it alone if null comes back. -/
theorem update_ends (h : NullAs scheme es) (hOther : scheme ≠ .sparseBooleanArray)
    (hEmit : (scheme.update q).emit? x n = some (f, count)) (hs : Ready q s)
    (hParcel : s.parcel = es ++ rest) : Ends p f.body s (Untouched n s rest) := by
  cases h with
  | object =>
      cases hEmit
      exact updateAbsent_ends hs hParcel
  | interfaceArray =>
      cases Emission.emit?_of_ite hEmit
      exact skipNull_ends hs (by decide) hParcel
  | serializableArray =>
      cases Emission.emit?_of_ite hEmit
      exact noRounds_ends hs hParcel
  | interfaceList =>
      cases hEmit
      exact skipNull_ends hs (by decide) hParcel
  | serializableList =>
      cases hEmit
      exact skipElements_ends hs hParcel
  | uuidArray | uuidList =>
      cases hEmit
      exact skipNull_ends hs (by decide) hParcel
  | sparseBooleanArray => exact absurd rfl hOther

end NullAs

/-- A sparse array that is null cannot be emptied. -/
theorem updateSparseBooleanArray_fails
    (hEmit : (Scheme.sparseBooleanArray.update q).emit? x n = some (f, count))
    (hv : s.locals x = some .null) (bound : Nat) :
    execAll p bound f.body s = .error .nullDereference s := by
  cases hEmit
  have hClear : eval p (.call (.name x) "clear" []) s = .error .nullDereference s := by
    rw [eval_call (eval_local hv) evalAll_nil]
    rfl
  simp [Fragment.body, Scheme.updateSparseBooleanArray, execAll, exec, hClear]

/-- Null for an argument that goes and comes back, in the order in which its code is run. The
proxy writes it and keeps it; the dispatcher declares null, whatever follows in the parcel,
and writes null back; and the proxy, whose variable is still null, takes the entries of the
argument and no others, and its variable is null at the end. Each end may run in any state
that has what the code before left for it. A sparse array is the exception: there the last
step dereferences null. -/
theorem null_comes_back (p : Platform α) (b : Binding) (hDirection : b.argument.direction = .inout)
    (hNull : NullAs b.scheme es) {k l m n k' l' m' n' : Nat} {send take answer update : Fragment}
    (hSend : b.code .proxy .pre x k = .ok (send, k'))
    (hTake : b.code .dispatcher .pre y l = .ok (take, l'))
    (hAnswer : b.code .dispatcher .post y m = .ok (answer, m'))
    (hUpdate : b.code .proxy .post x n = .ok (update, n'))
    (hx : Usable .proxyData k x) (hy : Usable .data l y) (hy' : Usable .reply m y)
    (hx' : Usable .proxyReply n x) {s : State α} (hs : Ready .proxyData s)
    (hv : s.locals x = some .null) :
    Ends p send.body s fun s₁ => Sent k s es s₁ ∧ s₁.locals x = some .null ∧
      ∀ (u : State α) (rest : List (Entry α)), Ready .data u → u.parcel = es ++ rest →
        Ends p (take.declaring b.argument.type y) u fun u₁ =>
          u₁.parcel = rest ∧ u₁.locals y = some .null ∧
          ∀ v : State α, Ready .reply v → v.locals y = u₁.locals y →
            Ends p answer.body v fun v₁ => Sent m v es v₁ ∧
              ∀ (w : State α) (rest' : List (Entry α)), Ready .proxyReply w →
                w.locals x = s₁.locals x → w.parcel = es ++ rest' →
                (b.scheme ≠ .sparseBooleanArray → Ends p update.body w fun w₁ =>
                  w₁.parcel = rest' ∧ w₁.locals x = some .null) ∧
                (b.scheme = .sparseBooleanArray → ∀ bound,
                  execAll p bound update.body w = .error .nullDereference w) := by
  have hOperations : Operation.of? .proxy b.argument.direction .pre = some .write ∧
      Operation.of? .dispatcher b.argument.direction .pre = some .create ∧
      Operation.of? .dispatcher b.argument.direction .post = some .write ∧
      Operation.of? .proxy b.argument.direction .post = some .update := by
    rw [hDirection]
    exact ⟨rfl, rfl, rfl, rfl⟩
  obtain ⟨hPre, hPre', hPost, hPost'⟩ := hOperations
  have hWrite := Binding.emit?_of_code .write hPre hSend
  have hCreate := Binding.emit?_of_code .create hPre' hTake
  have hReturn := Binding.emit?_of_code .write hPost hAnswer
  have hRead := Binding.emit?_of_code .update hPost' hUpdate
  refine (hNull.write_ends hWrite hs hx hv).mono fun s₁ hSent => ?_
  have hKept : s₁.locals x = some .null := (hSent.locals x hx.not_scratch).trans hv
  refine ⟨hSent, hKept, fun u rest hu hParcel => ?_⟩
  refine (hNull.create_ends hCreate hu hy hParcel).mono fun u₁ hTaken => ?_
  obtain ⟨hRest, hDeclared⟩ := hTaken
  refine ⟨hRest, hDeclared, fun v hReady hSame => ?_⟩
  refine (hNull.write_ends hReturn hReady hy' (hSame.trans hDeclared)).mono fun v₁ hSent' => ?_
  refine ⟨hSent', fun w rest' hw hSame' hParcel' => ⟨fun hOther => ?_, fun hSparse => ?_⟩⟩
  · refine (hNull.update_ends hOther hRead hw hParcel').mono fun w₁ hEnd => ⟨hEnd.parcel, ?_⟩
    rw [hEnd.locals x hx'.not_scratch, hSame', hKept]
  · simp only [hSparse] at hRead
    exact updateSparseBooleanArray_fails hRead (hSame'.trans hKept)

/-- A state with null in one variable and a parcel in another. -/
private def nullIn (x : String) (q : Parcel) (entries : List (Entry Unit)) : State Unit where
  locals z := if z = x then some .null else if z = q.name then some .parcel else none
  heap := []
  parcel := entries
  draws _ := ⟨0, 0⟩

private theorem usable_first {x : String} (hx : x ∈ ["settings", "masks", "_arg0", "code"])
    (q : Parcel) : Usable q 0 x := by
  simp only [List.mem_cons, List.not_mem_nil, or_false] at hx
  rcases hx with rfl | rfl | rfl | rfl <;>
    exact ⟨by decide, by cases q <;> decide, fun r => by cases r <;> decide⟩

private theorem ready_nullIn {x : String} {q : Parcel} (hx : Usable q 0 x)
    (entries : List (Entry Unit)) : Ready q (nullIn x q entries) where
  parcel := by simp [nullIn, hx.ne_parcel.symm]
  classes name hDot := by
    have hName : name ≠ x := by
      rintro rfl
      exact hx.noDot hDot
    have hParcel : name ≠ q.name := by
      rintro rfl
      revert hDot
      cases q <;> decide
    simp [nullIn, hName, hParcel]

/-- An array of settings that the callee may change. They are Serializable by an import. -/
private def sharedSettings : Binding where
  owner := 0
  context := { imports := [⟨.serializable, "com.example.Settings"⟩] }
  argument := ⟨.inout, "Settings[]", "settings", none⟩
  type := .mk "Settings" [] 1 none

theorem null_comes_back_settings : ∃ send take answer update,
    sharedSettings.code .proxy .pre "settings" 0 = .ok (send, 1) ∧
    sharedSettings.code .dispatcher .pre "_arg0" 0 = .ok (take, 1) ∧
    sharedSettings.code .dispatcher .post "_arg0" 0 = .ok (answer, 1) ∧
    sharedSettings.code .proxy .post "settings" 0 = .ok (update, 1) ∧
    Ends bare send.body (nullIn "settings" .proxyData []) fun s₁ => s₁.parcel = [number (-1)] ∧
      Ends bare (take.declaring "Settings[]" "_arg0") (nullIn "code" .data [number (-1)]) fun u₁ =>
        u₁.locals "_arg0" = some .null ∧
        Ends bare answer.body (nullIn "_arg0" .reply []) fun v₁ => v₁.parcel = [number (-1)] ∧
          Ends bare update.body (nullIn "settings" .proxyReply [number (-1)]) fun w₁ =>
            w₁.parcel = [] ∧ w₁.locals "settings" = some .null := by
  have hScheme : sharedSettings.scheme = .array (.plain "Settings") .serializable := by rfl
  have hNull : NullAs (α := Unit) sharedSettings.scheme [number (-1)] := by
    rw [hScheme]
    exact .serializableArray
  have hCaller := usable_first (x := "settings") (by decide)
  have hCallee := usable_first (x := "_arg0") (by decide)
  have hCode := usable_first (x := "code") (by decide)
  refine ⟨_, _, _, _, rfl, rfl, rfl, rfl, (null_comes_back bare sharedSettings rfl hNull rfl rfl rfl
    rfl (hCaller _) (hCallee _) (hCallee _) (hCaller _) (ready_nullIn (hCaller _) []) rfl).mono ?_⟩
  rintro s₁ ⟨hSent, hKept, hTake⟩
  refine ⟨hSent.parcel, (hTake _ [] (ready_nullIn (hCode _) _) rfl).mono ?_⟩
  rintro u₁ ⟨-, hDeclared, hAnswer⟩
  refine ⟨hDeclared, (hAnswer _ (ready_nullIn (hCallee _) []) hDeclared.symm).mono ?_⟩
  rintro v₁ ⟨hSent', hUpdate⟩
  refine ⟨hSent'.parcel, (hUpdate _ [] (ready_nullIn (hCaller _) _) hKept.symm rfl).1 ?_⟩
  rw [hScheme]
  simp

/-- A sparse array that the callee may change. -/
private def sharedMasks : Binding where
  owner := 0
  context := {}
  argument := ⟨.inout, "SparseBooleanArray", "masks", none⟩
  type := .plain "SparseBooleanArray"

/-- A sparse array has code in all four cells. The dispatcher writes null back for null, and
the proxy dereferences its own null over it. -/
theorem null_masks_dereferenced : ∃ send take answer update,
    sharedMasks.code .proxy .pre "masks" 0 = .ok (send, 0) ∧
    sharedMasks.code .dispatcher .pre "_arg0" 0 = .ok (take, 0) ∧
    sharedMasks.code .dispatcher .post "_arg0" 0 = .ok (answer, 0) ∧
    sharedMasks.code .proxy .post "masks" 0 = .ok (update, 1) ∧
    (Ends bare answer.body (nullIn "_arg0" .reply []) fun t =>
      t.parcel = [⟨"SparseBooleanArray", .value .null⟩]) ∧
    ∀ bound, execAll bare bound update.body
      (nullIn "masks" .proxyReply [⟨"SparseBooleanArray", .value .null⟩]) =
      .error .nullDereference
        (nullIn "masks" .proxyReply [⟨"SparseBooleanArray", .value .null⟩]) := by
  have hCallee := usable_first (x := "_arg0") (by decide) .reply
  refine ⟨_, _, _, _, rfl, rfl, rfl, rfl, ?_, ?_⟩
  · exact (NullAs.sparseBooleanArray.write_ends rfl (ready_nullIn hCallee []) hCallee rfl).mono
      fun t hSent => hSent.parcel
  · exact updateSparseBooleanArray_fails rfl rfl

end BinderIdl.Wire
