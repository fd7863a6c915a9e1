import BinderIdl.Proofs.Wire.UuidWrite

/-! Reading collections of identifiers. The reader goes through the array of halves
in pairs; a pair with the halves of the substitute stands for null, and since the
collection does not contain the substitute no other pair does. -/
namespace BinderIdl.Wire

open Java Machine

variable {α : Type} {q : Parcel} {n : Nat} {z : Uuid} {us : List (Option Uuid)} {a : Nat}
  {s t u : State α}

/-- What the reader has found out before it stores identifiers. The halves are at an
address. -/
structure Unpacking (q : Parcel) (n : Nat) (z : Uuid) (us : List (Option Uuid)) (a : Nat)
    (t : State α) : Prop where
  ready : Ready q t
  bits : t.locals ((Temporaries.after n).name .bits) = some (.ref a)
  array : t.heap[a]? = some (.array (halves z us))
  hasNull : t.locals ((Temporaries.after n).name .hasNull) = some (.bool (none ∈ us))
  upper : none ∈ us → t.locals ((Temporaries.after n).name .nullMsb) = some (.int z.upper.toInt)
  lower : none ∈ us → t.locals ((Temporaries.after n).name .nullLsb) = some (.int z.lower.toInt)
  length : t.locals ((Temporaries.after n).name .length) = some (.int us.length)

/-- The temporaries that change while identifiers are stored. -/
def IsCounter : Role → Prop
  | .i | .j | .msb | .lsb | .uuid => True
  | _ => False

namespace Unpacking

theorem set (h : Unpacking q n z us a t) {r : Role} (hr : IsCounter r) (v : Value α) :
    Unpacking q n z us a (t.set ((Temporaries.after n).name r) v) where
  ready := h.ready.of_scratch ((SameBut.refl _ t).set (scratch n r) v)
  bits := by cases r <;> simp_all [State.set_locals, IsCounter, h.bits]
  array := h.array
  hasNull := by cases r <;> simp_all [State.set_locals, IsCounter, h.hasNull]
  upper := by cases r <;> simp_all [State.set_locals, IsCounter, h.upper]
  lower := by cases r <;> simp_all [State.set_locals, IsCounter, h.lower]
  length := by cases r <;> simp_all [State.set_locals, IsCounter, h.length]

theorem of_locals (h : Unpacking q n z us a t) (hLocals : u.locals = t.locals)
    (hArray : u.heap[a]? = t.heap[a]?) : Unpacking q n z us a u where
  ready := ⟨hLocals ▸ h.ready.parcel, hLocals ▸ h.ready.classes⟩
  bits := hLocals ▸ h.bits
  array := hArray.trans h.array
  hasNull := hLocals ▸ h.hasNull
  upper := hLocals ▸ h.upper
  lower := hLocals ▸ h.lower
  length := hLocals ▸ h.length

/-- The reader's own variable and the object in it do not disturb what is known. -/
theorem declare {y : String} (h : Unpacking q n z us a t) (hy : Usable q n y) (c : Cell α)
    (v : Value α) : Unpacking q n z us a ((t.extend c).set y v) := by
  have hOther : ∀ r, ((t.extend c).set y v).locals ((Temporaries.after n).name r) =
      t.locals ((Temporaries.after n).name r) := by
    intro r
    rw [State.set_locals, if_neg (hy.ne_temporary r).symm]
    rfl
  refine ⟨?_, (hOther _).trans h.bits, ?_, (hOther _).trans h.hasNull,
    fun hMem => (hOther _).trans (h.upper hMem), fun hMem => (hOther _).trans (h.lower hMem),
    (hOther _).trans h.length⟩
  · exact h.ready.of_scratchAnd hy (((SameBut.refl _ t).of_locals rfl).set (.inl rfl) v)
  · exact getElem?_of_isPrefix (List.prefix_append _ _) h.array

end Unpacking

/-- A state after a fragment has declared a variable with a collection of identifiers
and has left some entries. -/
structure ReceivedUuids (n : Nat) (y : String) (s : State α) (rest : List (Entry α))
    (scheme : Scheme) (content : Option (List (Option Uuid))) (t : State α) : Prop where
  parcel : t.parcel = rest
  heap : s.heap <+: t.heap
  locals : SameBut (ScratchAnd n y) s t
  value : ∃ w, t.locals y = some w ∧ IsUuids t.heap scheme w content

/-- The reader's collection is the second object that reading adds. -/
theorem Building.receivedUuids {y : String} {c c' : Cell α} {rest : List (Entry α)}
    {scheme : Scheme} (h : Building (ScratchAnd n y) y (s.extend c') c [] t)
    (hParcel : t.parcel = rest)
    (hUuids : ∀ a, t.heap[a]? = some c → IsUuids t.heap scheme (.ref a) (some us)) :
    ReceivedUuids n y s rest scheme (some us) t where
  parcel := hParcel
  heap := (List.prefix_append _ _).trans h.isPrefix
  locals := h.locals
  value := ⟨_, h.place, hUuids _ h.getElem?_self⟩

variable [DecidableEq α] {p : Platform α} {Q : State α → Prop}

/-- The reader takes a pair for null exactly if it stands for null. -/
theorem eval_isSubstitute {o : Option Uuid} (h : Unpacking q n z us a t) (hz : some z ∉ us)
    (ho : o ∈ us)
    (hUpper : t.locals ((Temporaries.after n).name .msb) = some (.int (o.getD z).upper.toInt))
    (hLower : t.locals ((Temporaries.after n).name .lsb) = some (.int (o.getD z).lower.toInt)) :
    eval p (.binary .and (.binary .and ((Temporaries.after n).var .hasNull)
        (.binary .equal ((Temporaries.after n).var .msb) ((Temporaries.after n).var .nullMsb)))
        (.binary .equal ((Temporaries.after n).var .lsb) ((Temporaries.after n).var .nullLsb))) t =
      .ok (.bool (o = none)) t := by
  have hEval := eval_and (p := p) (eval_and (eval_local h.hasNull) fun hMem =>
      eval_equal (eval_local hUpper) (eval_local (h.upper (of_decide_eq_true hMem)))) fun hBoth =>
    eval_equal (eval_local hLower)
      (eval_local (h.lower (of_decide_eq_true (Bool.and_eq_true_iff.mp hBoth).1)))
  have hValue : (decide (none ∈ us) && decide (Value.int (o.getD z).upper.toInt =
      (.int z.upper.toInt : Value α)) && decide (Value.int (o.getD z).lower.toInt =
        (.int z.lower.toInt : Value α))) = decide (o = none) := by
    cases o with
    | none => simp [ho]
    | some w =>
        have hNe : w.upper = z.upper → w.lower ≠ z.lower := by
          intro hu hl
          obtain rfl : w = z := by cases w; cases z; simp_all
          exact hz ho
        by_cases hu : w.upper = z.upper <;> simp_all [BitVec.toInt_inj]
  rw [hValue] at hEval
  exact hEval

/-- The next half is taken from its place. -/
theorem takeHalf_ends {T : State α → Prop} {final : Bool} {type : String} {r : Role} {k : Nat}
    {w : Value α} {cs : List Stmt}
    (hSet : ∀ t r v, IsCounter r → T t → T (t.set ((Temporaries.after n).name r) v))
    (hr : IsCounter r) (hrj : r ≠ .j) (h : Unpacking q n z us a t) (hT : T t)
    (hSmall : us.length < 2 ^ 30) (hj : t.locals ((Temporaries.after n).name .j) = some (.int k))
    (hw : (halves z us)[k]? = some w)
    (hRest : ∀ u, Unpacking q n z us a u → T u →
      SameBut (fun x => x = (Temporaries.after n).name .j ∨ x = (Temporaries.after n).name r) t u →
      u.locals ((Temporaries.after n).name .j) = some (.int (k + 1 : Nat)) →
      u.locals ((Temporaries.after n).name r) = some w → u.parcel = t.parcel → Ends p cs u Q) :
    Ends p (.declare final type ((Temporaries.after n).name r) (some (.index
      ((Temporaries.after n).var .bits) (.postIncrement ((Temporaries.after n).var .j)))) :: cs)
      t Q := by
  have hk : k < 2 * us.length := by
    rw [← length_halves (α := α) z us]
    exact (List.getElem?_eq_some_iff.mp hw).1
  refine .declareAs (eval_index (eval_local h.bits) (eval_postIncrement hj (by omega)) h.array hw) ?_
  refine hRest _ ((h.set (r := .j) trivial _).set hr _) (hSet _ _ _ hr (hSet _ _ _ trivial hT)) ?_ ?_
    (State.set_locals_self _ _ _) rfl
  · exact ((SameBut.refl _ t).set (.inl rfl) _).set (.inr rfl) _
  · simp [State.set_locals, hrj.symm]

/-- One pair of halves becomes an identifier or null. -/
theorem unpackOne_ends {T : State α → Prop} {k : Nat} {o : Option Uuid} {cs : List Stmt}
    (hSet : ∀ t r v, IsCounter r → T t → T (t.set ((Temporaries.after n).name r) v))
    (h : Unpacking q n z us a t) (hT : T t) (hz : some z ∉ us) (hSmall : us.length < 2 ^ 30)
    (ho : us[k]? = some o) (hi : t.locals ((Temporaries.after n).name .i) = some (.int k))
    (hj : t.locals ((Temporaries.after n).name .j) = some (.int (2 * k : Nat)))
    (hRest : ∀ u, Unpacking q n z us a u → T u →
      u.locals ((Temporaries.after n).name .i) = some (.int k) →
      u.locals ((Temporaries.after n).name .j) = some (.int (2 * (k + 1) : Nat)) →
      u.locals ((Temporaries.after n).name .uuid) = some (nullable o) → u.parcel = t.parcel →
      Ends p cs u Q) :
    Ends p (.declare true "long" ((Temporaries.after n).name .msb) (some (.index
        ((Temporaries.after n).var .bits) (.postIncrement ((Temporaries.after n).var .j)))) ::
      .declare true "long" ((Temporaries.after n).name .lsb) (some (.index
        ((Temporaries.after n).var .bits) (.postIncrement ((Temporaries.after n).var .j)))) ::
      .declare true uuidType ((Temporaries.after n).name .uuid) none ::
      .branch (.binary .and (.binary .and ((Temporaries.after n).var .hasNull)
          (.binary .equal ((Temporaries.after n).var .msb) ((Temporaries.after n).var .nullMsb)))
          (.binary .equal ((Temporaries.after n).var .lsb) ((Temporaries.after n).var .nullLsb)))
        [.assign ((Temporaries.after n).var .uuid) .null]
        [.assign ((Temporaries.after n).var .uuid) (.new uuidType
          [(Temporaries.after n).var .msb, (Temporaries.after n).var .lsb])] :: cs) t Q := by
  obtain ⟨hUpper, hLower⟩ := halves_getElem? (α := α) (z := z) ho
  refine takeHalf_ends hSet (r := .msb) trivial (by decide) h hT hSmall hj hUpper ?_
  intro u h hT hSame hj hMsb hParcel
  refine takeHalf_ends hSet (r := .lsb) trivial (by decide) h hT hSmall hj hLower ?_
  intro w h hT hSame' hj hLsb hParcel'
  have hMsb := (hSame' ((Temporaries.after n).name .msb) (by simp)).trans hMsb
  have hi : w.locals ((Temporaries.after n).name .i) = some (.int k) := by
    rw [hSame' _ (by simp), hSame _ (by simp), hi]
  have hTest := eval_isSubstitute (p := p) h hz (List.mem_of_getElem? ho) hMsb hLsb
  have hLast : ∀ {v : Value α}, v = nullable o →
      Ends p cs (w.set ((Temporaries.after n).name .uuid) v) Q := by
    rintro _ rfl
    refine hRest _ (h.set (r := .uuid) trivial _) (hSet _ _ _ trivial hT) ?_ ?_
      (State.set_locals_self _ _ _) (hParcel'.trans hParcel)
    · simp [State.set_locals, hi]
    · rw [State.set_locals, if_neg (by simp)]
      exact hj
  refine .declare ?_
  cases o with
  | none => exact .yes hTest (.assign eval_null (hLast rfl))
  | some u =>
      refine .no hTest (.assign ?_ (hLast rfl))
      exact eval_newUuid (eval_local hMsb) (eval_local hLsb)

/-- The loop stores every identifier in turn. -/
theorem unpackAll_ends {T : Nat → State α → Prop} {store cs : List Stmt} {rest : List (Entry α)}
    (hSet : ∀ k t r v, IsCounter r → T k t → T k (t.set ((Temporaries.after n).name r) v))
    (h : Unpacking q n z us a t) (hT : T 0 t) (hz : some z ∉ us) (hSmall : us.length < 2 ^ 30)
    (hParcel : t.parcel = rest)
    (hStore : ∀ k t o, us[k]? = some o → Unpacking q n z us a t → T k t →
      t.locals ((Temporaries.after n).name .i) = some (.int k) →
      t.locals ((Temporaries.after n).name .uuid) = some (nullable o) →
      Ends p store t fun u => u.locals = t.locals ∧ u.heap[a]? = t.heap[a]? ∧
        u.parcel = t.parcel ∧ T (k + 1) u)
    (hRest : ∀ u, T us.length u → u.parcel = rest → Ends p cs u Q) :
    Ends p (.count [((Temporaries.after n).name .i, .int 0), ((Temporaries.after n).name .j, .int 0)]
      (.binary .less ((Temporaries.after n).var .i) ((Temporaries.after n).var .length))
      (.preIncrement ((Temporaries.after n).var .i))
      [.declare true "long" ((Temporaries.after n).name .msb) (some (.index
          ((Temporaries.after n).var .bits) (.postIncrement ((Temporaries.after n).var .j)))),
        .declare true "long" ((Temporaries.after n).name .lsb) (some (.index
          ((Temporaries.after n).var .bits) (.postIncrement ((Temporaries.after n).var .j)))),
        .declare true uuidType ((Temporaries.after n).name .uuid) none,
        .branch (.binary .and (.binary .and ((Temporaries.after n).var .hasNull)
            (.binary .equal ((Temporaries.after n).var .msb) ((Temporaries.after n).var .nullMsb)))
            (.binary .equal ((Temporaries.after n).var .lsb) ((Temporaries.after n).var .nullLsb)))
          [.assign ((Temporaries.after n).var .uuid) .null]
          [.assign ((Temporaries.after n).var .uuid) (.new uuidType
            [(Temporaries.after n).var .msb, (Temporaries.after n).var .lsb])],
        .inset store] :: cs) t Q := by
  have hTest : ∀ (k : Nat) u, Unpacking q n z us a u →
      u.locals ((Temporaries.after n).name .i) = some (.int k) →
      eval p (.binary .less ((Temporaries.after n).var .i) ((Temporaries.after n).var .length)) u =
        .ok (.bool (k < us.length)) u := by
    intro k u h hi
    simp [Temporaries.var, eval, resolve, hi, h.length, operate, Run.number]
  refine .count (t := (t.set ((Temporaries.after n).name .i) (.int 0)).set
      ((Temporaries.after n).name .j) (.int 0)) (by simp [start, eval, Run.setLocal])
    (fun k u => Unpacking q n z us a u ∧ T k u ∧ u.parcel = rest ∧
      u.locals ((Temporaries.after n).name .i) = some (.int k) ∧
      u.locals ((Temporaries.after n).name .j) = some (.int (2 * k : Nat))) us.length ?_ ?_ ?_ ?_
  · exact ⟨(h.set (r := .i) trivial _).set (r := .j) trivial _,
      hSet _ _ .j _ trivial (hSet _ _ .i _ trivial hT), hParcel, by simp [State.set_locals], by simp⟩
  · rintro k u hk ⟨h, hT, hParcel, hi, hj⟩
    refine ⟨by simpa [hk] using hTest k u h hi, ?_⟩
    refine unpackOne_ends (hSet k) h hT hz hSmall (List.getElem?_eq_getElem hk) hi hj ?_
    intro w h hT hi hj hUuid hParcel'
    refine .inset (.append (hStore k w _ (List.getElem?_eq_getElem hk) h hT hi hUuid) ?_)
    rintro w' ⟨hLocals, hArray, hKept, hT⟩
    have hi : w'.locals ((Temporaries.after n).name .i) = some (.int k) := hLocals ▸ hi
    refine .nil ⟨_, _, eval_preIncrement hi (by omega), ?_, ?_, ?_, by simp, ?_⟩
    · exact (h.of_locals hLocals hArray).set (r := .i) trivial _
    · exact hSet _ _ .i _ trivial hT
    · exact (hKept.trans hParcel').trans hParcel
    · simp [State.set_locals, hLocals, hj]
  · rintro u ⟨h, -, -, hi, -⟩
    simpa using hTest us.length u h hi
  · rintro u ⟨-, hT, hParcel, -, -⟩
    exact hRest u hT hParcel

/-- Behind the array the reader finds out whether there is a substitute, which one it
is, and how many identifiers there are. -/
theorem learn_ends {cs : List Stmt} {rest : List (Entry α)} (hs : Ready q s)
    (hSmall : us.length < 2 ^ 30)
    (hBuild : Building (Scratch n) ((Temporaries.after n).name .bits) s (.array (halves z us)) [] t)
    (hParcel : t.parcel =
      (if none ∈ us then [number 1, half z.upper, half z.lower] else [number 0]) ++ rest)
    (hRest : ∀ u, Unpacking q n z us s.heap.length u → SameBut (Scratch n) s u → u.heap = t.heap →
      u.parcel = rest → Ends p cs u Q) :
    Ends p (.declare true "boolean" ((Temporaries.after n).name .hasNull)
        (some (.paren (.nonzero (q.call "readInt" [])))) ::
      .declare false "long" ((Temporaries.after n).name .nullMsb) (some (.int 0)) ::
      .declare false "long" ((Temporaries.after n).name .nullLsb) (some (.int 0)) ::
      .branch ((Temporaries.after n).var .hasNull)
        [.assign ((Temporaries.after n).var .nullMsb) (q.call "readLong" []),
          .assign ((Temporaries.after n).var .nullLsb) (q.call "readLong" [])] [] ::
      .declare true "int" ((Temporaries.after n).name .length) (some (.binary .divide
        (.field ((Temporaries.after n).var .bits) "length") (.int 2))) :: cs) t Q := by
  have hReady := hs.of_scratch hBuild.locals
  -- The number of identifiers is half the number of halves.
  have hDivide : ∀ u : State α, u.locals ((Temporaries.after n).name .bits) =
      some (.ref s.heap.length) → u.heap = t.heap → eval p (.binary .divide
        (.field ((Temporaries.after n).var .bits) "length") (.int 2)) u = .ok (.int us.length) u := by
    intro u hBits hHeap
    refine eval_half ?_ hSmall
    rw [← length_halves (α := α) z us]
    exact eval_length (eval_local hBits) (hHeap ▸ hBuild.getElem?_self)
  by_cases hMem : none ∈ us
  · rw [if_pos hMem] at hParcel
    refine .declareAs (eval_paren (eval_nonzero (eval_readInt hReady hParcel))) ?_
    refine .declareAs (eval_int 0) (.declareAs (eval_int 0) ?_)
    refine .yes (eval_local (by simp [State.set_locals])) ?_
    have hSame := (((hBuild.locals.refit (half z.upper :: half z.lower :: rest)).set
      (scratch n .hasNull) (.bool true)).set (scratch n .nullMsb) (.int 0)).set
      (scratch n .nullLsb) (.int 0)
    refine .assign (eval_readLong (hs.of_scratch hSame) rfl) ?_
    have hSame := (hSame.refit (half z.lower :: rest)).set (scratch n .nullMsb)
      (.int z.upper.toInt)
    refine .assign (eval_readLong (hs.of_scratch hSame) rfl) ?_
    have hSame := (hSame.refit rest).set (scratch n .nullLsb) (.int z.lower.toInt)
    refine .declareAs (hDivide _ (by simp [State.set_locals, hBuild.place]) rfl) ?_
    have hSame := hSame.set (scratch n .length) (.int us.length)
    exact hRest _ ⟨hs.of_scratch hSame, by simp [State.set_locals, hBuild.place],
      hBuild.getElem?_self, by simp [State.set_locals, hMem], fun _ => by simp [State.set_locals],
      fun _ => by simp [State.set_locals], by simp⟩ hSame rfl rfl
  · rw [if_neg hMem] at hParcel
    refine .declareAs (eval_paren (eval_nonzero (eval_readInt hReady hParcel))) ?_
    refine .declareAs (eval_int 0) (.declareAs (eval_int 0) ?_)
    refine .no (eval_local (by simp [State.set_locals])) ?_
    refine .declareAs (hDivide _ (by simp [State.set_locals, hBuild.place]) rfl) ?_
    have hSame := ((((hBuild.locals.refit rest).set (scratch n .hasNull) (.bool false)).set
      (scratch n .nullMsb) (.int 0)).set (scratch n .nullLsb) (.int 0)).set
      (scratch n .length) (.int us.length)
    exact hRest _ ⟨hs.of_scratch hSame, by simp [State.set_locals, hBuild.place],
      hBuild.getElem?_self, by simp [State.set_locals, hMem], fun h => absurd h hMem,
      fun h => absurd h hMem, by simp⟩ hSame rfl rfl

/-- Reading a collection of identifiers stores every one of them, and takes from the
parcel what stands for the collection. -/
theorem readUuids_ends {T : Nat → State α → Prop} {prepare store otherwise : List Stmt}
    {rest : List (Entry α)} (hs : Ready q s) (hz : some z ∉ us) (hSmall : us.length < 2 ^ 30)
    (hParcel : s.parcel = uuidEntries z us ++ rest)
    (hSet : ∀ k t r v, IsCounter r → T k t → T k (t.set ((Temporaries.after n).name r) v))
    (hPrepare : ∀ t, Unpacking q n z us s.heap.length t → SameBut (Scratch n) s t →
      t.heap = s.heap ++ [.array (halves z us)] → Ends p prepare t fun u =>
        Unpacking q n z us s.heap.length u ∧ u.parcel = t.parcel ∧ T 0 u)
    (hStore : ∀ k t o, us[k]? = some o → Unpacking q n z us s.heap.length t → T k t →
      t.locals ((Temporaries.after n).name .i) = some (.int k) →
      t.locals ((Temporaries.after n).name .uuid) = some (nullable o) →
      Ends p store t fun u => u.locals = t.locals ∧
        u.heap[s.heap.length]? = t.heap[s.heap.length]? ∧ u.parcel = t.parcel ∧ T (k + 1) u)
    (hDone : ∀ u, T us.length u → u.parcel = rest → Q u) :
    Ends p (Scheme.readUuids prepare store otherwise q (.after n)) s Q := by
  refine declareCopy_ends hs (scratch n .bits) (by decide) hParcel ?_
  intro t hBuild hRest
  refine .yes (eval_present (eval_local hBuild.place)) ?_
  rw [List.append_nil, List.append_assoc]
  refine learn_ends hs hSmall hBuild hRest ?_
  intro u h hSame hHeap hRest
  -- Code that prepares nothing is left out.
  have hPrepared : Ends p (if prepare.isEmpty then [] else [.inset prepare]) u fun w =>
      Unpacking q n z us s.heap.length w ∧ w.parcel = u.parcel ∧ T 0 w := by
    have hRun := hPrepare u h hSame (hHeap.trans hBuild.heap)
    cases prepare with
    | nil => exact hRun
    | cons c cs => exact .inset (by rw [List.append_nil]; exact hRun)
  show Ends p ((if prepare.isEmpty then [] else [.inset prepare]) ++ _) u Q
  refine .append hPrepared ?_
  rintro w ⟨h, hKept, hT⟩
  exact unpackAll_ends hSet h hT hz hSmall (hKept.trans hRest) hStore
    fun w hT hParcel => .nil (hDone w hT hParcel)

section Create

variable {y type : String} {element : TypeName} {rest : List (Entry α)}

/-- An array of identifiers is read as it was written. -/
theorem createUuidArray_ends (hs : Ready q s) (hy : Usable q n y) (hz : some z ∉ us)
    (hSmall : us.length < 2 ^ 30) (hParcel : s.parcel = uuidEntries z us ++ rest) :
    Ends p ((Scheme.createUuidArray q (.after n) y).declaring type y) s
      (ReceivedUuids n y s rest (.uuidArray element) (some us)) := by
  refine .declare (readUuids_ends (T := fun k t => Building (ScratchAnd n y) y
    (s.extend (.array (halves z us))) (.array (filled .null k (us.map nullable))) [] t)
    hs hz hSmall hParcel ?_ ?_ ?_ ?_)
  · exact fun k t r v _ hT => hT.set (scratchAnd n y r) (hy.ne_temporary r).symm v
  · intro t h hSame hHeap
    refine .assign (eval_newArray (eval_local h.length)) (.nil ⟨h.declare hy _ _, rfl, ?_⟩)
    have hBase : SameBut (ScratchAnd n y) (s.extend (.array (halves z us))) t :=
      fun x hx => hSame x fun hc => hx (.inr hc)
    rw [filled_zero, List.length_map]
    exact .start hBase hHeap (.inl rfl) _
  · intro k t o ho h hT hi hUuid
    have hk : k < us.length := (List.getElem?_eq_some_iff.mp ho).1
    refine .assignAt (eval_local hUuid) (eval_local hT.place) (eval_local hi) hT.getElem?_self
      (by rw [length_filled _ (by simp; omega)]; simp; omega) (.nil ⟨rfl, ?_, rfl, ?_⟩)
    · exact List.getElem?_set_ne (by simp)
    · rw [filled_set _ (by simp [ho])]
      exact hT.store _
  · intro t hT hParcel
    rw [← List.length_map (f := nullable (α := α)), filled_length] at hT
    exact hT.receivedUuids hParcel fun _ => .array

/-- A list of identifiers is read as it was written. -/
theorem createUuidList_ends (hs : Ready q s) (hy : Usable q n y) (hz : some z ∉ us)
    (hSmall : us.length < 2 ^ 30) (hParcel : s.parcel = uuidEntries z us ++ rest) :
    Ends p ((Scheme.createUuidList q (.after n) y).declaring type y) s
      (ReceivedUuids n y s rest (.uuidList element) (some us)) := by
  refine .declare (readUuids_ends (T := fun k t => Building (ScratchAnd n y) y
    (s.extend (.array (halves z us))) (.list ((us.map nullable).take k)) [] t)
    hs hz hSmall hParcel ?_ ?_ ?_ ?_)
  · exact fun k t r v _ hT => hT.set (scratchAnd n y r) (hy.ne_temporary r).symm v
  · intro t h hSame hHeap
    refine .assign (eval_newList (withoutArguments_arrayListOf _)
      (evalAll_singleton (eval_local h.length))) (.nil ⟨h.declare hy _ _, rfl, ?_⟩)
    have hBase : SameBut (ScratchAnd n y) (s.extend (.array (halves z us))) t :=
      fun x hx => hSame x fun hc => hx (.inr hc)
    exact .start hBase hHeap (.inl rfl) _
  · intro k t o ho h hT hi hUuid
    refine .run (eval_add (eval_local hT.place) (eval_local hUuid) hT.getElem?_self)
      (.nil ⟨rfl, ?_, rfl, ?_⟩)
    · exact List.getElem?_set_ne (by simp)
    · have hItem : (us.map (nullable (α := α)))[k]?.toList = [nullable o] := by simp [ho]
      rw [List.take_add_one, hItem]
      exact hT.store _
  · intro t hT hParcel
    rw [← List.length_map (f := nullable (α := α)), List.take_length] at hT
    exact hT.receivedUuids hParcel fun _ => .list

/-- Null in the place of the halves gives null. -/
theorem createNoUuids_ends {prepare store : List Stmt} {scheme : Scheme} (hs : Ready q s)
    (hParcel : s.parcel = ⟨"LongArray", .value .null⟩ :: rest)
    (hUuids : IsUuids s.heap scheme .null none) :
    Ends p (.declare true type y none ::
      Scheme.readUuids prepare store [.assign (.name y) .null] q (.after n)) s
      (ReceivedUuids n y s rest scheme none) := by
  refine .declare (.declareAs (eval_read hs.parcel "LongArray" (by decide) evalAll_nil (.inl rfl)
    hParcel) ?_)
  refine .no (eval_present (eval_local (State.set_locals_self _ _ _))) ?_
  refine .assign eval_null (.nil ⟨rfl, List.prefix_rfl, ?_, .null, by simp, hUuids⟩)
  exact (((SameBut.refl _ s).refit rest).set (scratchAnd n y .bits) _).set (.inl rfl) _

/-- Every collection of identifiers, and none, is read from its entries. -/
theorem createCollection_ends {scheme : Scheme} {d : Declared} {count : Nat} {f : Fragment}
    {heap : List (Cell α)} {v : Value α} {content : Option (List (Option Uuid))}
    (hEmit : (scheme.create d q).emit? y n = some (f, count)) (hs : Ready q s) (hy : Usable q n y)
    (hUuids : IsUuids heap scheme v content) (hz : ∀ us ∈ content, some z ∉ us)
    (hSmall : ∀ us ∈ content, us.length < 2 ^ 30)
    (hParcel : s.parcel = collectionEntries z content ++ rest) :
    Ends p (f.declaring type y) s (ReceivedUuids n y s rest scheme content) := by
  cases hUuids with
  | absentArray =>
      cases hEmit
      exact createNoUuids_ends hs hParcel .absentArray
  | absentList =>
      cases hEmit
      exact createNoUuids_ends hs hParcel .absentList
  | @array _ _ us ha =>
      cases hEmit
      exact createUuidArray_ends hs hy (hz us rfl) (hSmall us rfl) hParcel
  | @list _ _ us ha =>
      cases hEmit
      exact createUuidList_ends hs hy (hz us rfl) (hSmall us rfl) hParcel

end Create

end BinderIdl.Wire
