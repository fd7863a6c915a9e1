import BinderIdl.Proofs.Wire.RoundTrip
import Mathlib.Data.Nat.Find

/-! Collections of identifiers. All halves travel in one array, in which an absent
identifier has the halves of a substitute; the substitute is drawn at random
until the collection does not contain it, and it travels behind the array. The class
that draws is named with its package, so a variable named like the package stops the
writer at the first absent identifier. -/
namespace BinderIdl.Wire

open Java Machine

variable {α : Type}

/-- An identifier or null. -/
def nullable : Option Uuid → Value α
  | none => .null
  | some u => .uuid u

/-- The halves of identifiers, with those of a substitute for absent ones. -/
def halves (z : Uuid) (us : List (Option Uuid)) : List (Value α) :=
  us.flatMap fun o => [.int (o.getD z).upper.toInt, .int (o.getD z).lower.toInt]

/-- The entries that stand for a collection of identifiers, given a substitute. The
substitute travels only if an identifier is absent. -/
def uuidEntries (z : Uuid) (us : List (Option Uuid)) : List (Entry α) :=
  ⟨"LongArray", .copy (.array (halves z us))⟩ ::
    if none ∈ us then [number 1, half z.upper, half z.lower] else [number 0]

/-- A value is a collection of identifiers, in the way of a scheme. Null is none. -/
inductive IsUuids (heap : List (Cell α)) : Scheme → Value α → Option (List (Option Uuid)) → Prop
  | absentArray {element : TypeName} : IsUuids heap (.uuidArray element) .null none
  | array {element : TypeName} {a : Nat} {us : List (Option Uuid)}
      (ha : heap[a]? = some (.array (us.map nullable))) :
      IsUuids heap (.uuidArray element) (.ref a) (some us)
  | absentList {content : TypeName} : IsUuids heap (.uuidList content) .null none
  | list {content : TypeName} {a : Nat} {us : List (Option Uuid)}
      (ha : heap[a]? = some (.list (us.map nullable))) :
      IsUuids heap (.uuidList content) (.ref a) (some us)

/-- The entries that stand for a collection or for none. -/
def collectionEntries (z : Uuid) : Option (List (Option Uuid)) → List (Entry α)
  | none => [⟨"LongArray", .value .null⟩]
  | some us => uuidEntries z us

theorem length_halves (z : Uuid) (us : List (Option Uuid)) :
    (halves z us : List (Value α)).length = 2 * us.length := by
  induction us with
  | nil => rfl
  | cons o us ih =>
      rw [halves, List.flatMap_cons, List.length_append, ← halves, ih, List.length_cons]
      simp only [List.length_cons, List.length_nil]
      omega

/-- The halves of an identifier stand beside each other, at twice its index. -/
theorem halves_getElem? {z : Uuid} {us : List (Option Uuid)} {k : Nat} {o : Option Uuid}
    (h : us[k]? = some o) :
    (halves z us : List (Value α))[2 * k]? = some (.int (o.getD z).upper.toInt) ∧
      (halves z us : List (Value α))[2 * k + 1]? = some (.int (o.getD z).lower.toInt) := by
  induction us generalizing k with
  | nil => cases h
  | cons o' us ih =>
      cases k with
      | zero =>
          cases h
          exact ⟨rfl, rfl⟩
      | succ k => exact ih h

theorem isNumber_of_mem_halves {z : Uuid} {us : List (Option Uuid)} {v : Value α}
    (h : v ∈ halves z us) : isNumber .long v = true := by
  obtain ⟨o, -, hv⟩ := List.mem_flatMap.mp h
  simp only [List.mem_cons, List.not_mem_nil, or_false] at hv
  obtain rfl | rfl := hv <;> exact decide_eq_true (long_has_toInt _)

/-- The first of the identifiers to be drawn that is not in a collection. -/
structure FirstFresh (draws : Nat → Uuid) (us : List (Option Uuid)) (k : Nat) : Prop where
  fresh : some (draws k) ∉ us
  earlier : ∀ j < k, some (draws j) ∈ us

theorem exists_firstFresh {draws : Nat → Uuid} {us : List (Option Uuid)}
    (h : ∃ k, some (draws k) ∉ us) : ∃ k, FirstFresh draws us k :=
  ⟨Nat.find h, Nat.find_spec h, fun _ hj => not_not.mp (Nat.find_min h hj)⟩

section Write

variable [DecidableEq α] {p : Platform α} {q : Parcel} {n : Nat} {x : String} {s t : State α}
  {us : List (Option Uuid)} {size asList : Expr} {cs : List Stmt} {Q : State α → Prop}

theorem contains_nullable (u : Uuid) :
    (us.map (nullable (α := α))).contains (.uuid u) = decide (some u ∈ us) := by
  rw [Bool.eq_iff_iff, List.contains_iff_mem, decide_eq_true_iff, List.mem_map]
  constructor
  · rintro ⟨o, ho, he⟩
    cases o with
    | none => cases he
    | some w => cases he; exact ho
  · exact fun h => ⟨some u, h, rfl⟩

/-- The expressions for the size of a collection of identifiers, and for a list that
knows what the collection contains, which may need a class below `java`. -/
structure Describes (p : Platform α) (n : Nat) (s : State α) (us : List (Option Uuid))
    (size asList : Expr) : Prop where
  size : eval p size s = .ok (.int us.length) s
  contains : s.locals "java" = none → ∀ t w, SameBut (Scratch n) s t → s.heap <+: t.heap →
    t.locals ((Temporaries.after n).name .nullUuid) = some w →
    eval p (.call asList "contains" [(Temporaries.after n).var .nullUuid]) t =
      .ok (.bool ((us.map nullable).contains w)) t

/-- The substitute that drawing comes to, where no variable hides the class that draws. -/
structure Substitutes (s : State α) (us : List (Option Uuid)) (z : Uuid) : Prop where
  java : s.locals "java" = none
  drawn : ∃ k, FirstFresh s.draws us k ∧ s.draws k = z

/-- Drawing goes on until the collection does not contain what was drawn. -/
theorem drawFresh_ends {k : Nat} (hs : Ready q s) (hJava : s.locals "java" = none)
    (hDescribes : Describes p n s us size asList)
    (hFirst : FirstFresh t.draws us k) (hSame : SameBut (Scratch n) s t) (hHeap : s.heap <+: t.heap)
    (hRest : ∀ u, SameBut (· = (Temporaries.after n).name .nullUuid) t u →
      u.locals ((Temporaries.after n).name .nullUuid) = some (.uuid (t.draws k)) →
      u.heap = t.heap → u.parcel = t.parcel → Ends p cs u Q) :
    Ends p (.loop [.assign ((Temporaries.after n).var .nullUuid)
        (.call (.name uuidType) "randomUUID" [])]
      (.call asList "contains" [(Temporaries.after n).var .nullUuid]) :: cs) t Q := by
  have hMore : ∀ {u : State α}, SameBut (· = (Temporaries.after n).name .nullUuid) t u →
      SameBut (Scratch n) s u := fun h => hSame.trans (h.mono fun x hx => ⟨.nullUuid, hx⟩)
  refine .loop (fun j u => SameBut (· = (Temporaries.after n).name .nullUuid) t u ∧
    (∀ i, j = i + 1 →
      u.locals ((Temporaries.after n).name .nullUuid) = some (.uuid (t.draws i))) ∧
    (∀ i, u.draws i = t.draws (j + i)) ∧ u.heap = t.heap ∧ u.parcel = t.parcel) k ?_ ?_ ?_ ?_
  · exact ⟨.refl _ t, by simp, by simp, rfl, rfl⟩
  · rintro j u hj ⟨hBut, -, hDraws, hOld, hParcel⟩
    have hClass : Visible u uuidType := (hs.of_scratch (hMore hBut)).visible (by decide)
      (java_free_of_scratch hJava (hMore hBut))
    refine .assign (eval_randomUUID hClass) (.nil ⟨?_, ?_, ?_, hOld, hParcel⟩)
    · exact (hBut.of_locals rfl).set rfl _
    · intro i hi
      obtain rfl : j = i := by omega
      rw [State.set_locals_self, hDraws 0, Nat.add_zero]
    · intro i
      rw [State.set_draws, Nat.add_assoc, Nat.add_comm 1 i]
      exact hDraws (i + 1)
  · rintro j u hj ⟨hBut, hDrawn, -, hOld, -⟩
    rw [hDescribes.contains hJava u _ (hMore hBut) (hOld ▸ hHeap) (hDrawn j rfl), contains_nullable]
    by_cases hLess : j < k
    · simp [hLess, hFirst.earlier j hLess]
    · obtain rfl : j = k := by omega
      simp [hFirst.fresh]
  · rintro u ⟨hBut, hDrawn, -, hOld, hParcel⟩
    exact hRest u hBut (hDrawn k rfl) hOld hParcel

/-- The next half goes into its place. -/
theorem storeNext_ends {H : List (Value α)} {e : Expr} {w : Value α} {k : Nat}
    (hBuild : Building (Scratch n) ((Temporaries.after n).name .bits) s
      (.array (filled (.int 0) k H)) [] t)
    (hi : t.locals ((Temporaries.after n).name .i) = some (.int k)) (hw : H[k]? = some w)
    (hSmall : H.length < 2 ^ 31) (he : eval p e t = .ok w t)
    (hRest : ∀ u, SameBut (· = (Temporaries.after n).name .i) t u →
      Building (Scratch n) ((Temporaries.after n).name .bits) s
        (.array (filled (.int 0) (k + 1) H)) [] u →
      u.locals ((Temporaries.after n).name .i) = some (.int (k + 1 : Nat)) →
      u.parcel = t.parcel → u.draws = t.draws → Ends p cs u Q) :
    Ends p (.assign (.index ((Temporaries.after n).var .bits)
      (.postIncrement ((Temporaries.after n).var .i))) e :: cs) t Q := by
  have hk : k < H.length := (List.getElem?_eq_some_iff.mp hw).1
  refine .assignAt he (eval_local hBuild.place) (eval_postIncrement hi (by omega))
    hBuild.getElem?_self (by rw [length_filled _ (by omega)]; omega) ?_
  rw [filled_set _ hw]
  refine hRest _ ((SameBut.set_self t _ _).of_locals rfl) ?_ ?_ rfl rfl
  · exact (hBuild.set (scratch n .i) (by simp) _).store _
  · simp

/-- The state of the writer's loop: the halves of the first identifiers are in their
places, and the substitute is known if one of them was absent. -/
structure Packing (n : Nat) (s : State α) (z : Uuid) (us : List (Option Uuid)) (k : Nat)
    (t : State α) : Prop where
  build : Building (Scratch n) ((Temporaries.after n).name .bits) s
    (.array (filled (.int 0) (2 * k) (halves z us))) [] t
  index : t.locals ((Temporaries.after n).name .i) = some (.int (2 * k : Nat))
  substitute : t.locals ((Temporaries.after n).name .nullUuid) =
    some (if none ∈ us.take k then .uuid z else .null)
  draws : none ∉ us.take k → t.draws = s.draws
  parcel : t.parcel = s.parcel

/-- The first absent identifier draws the substitute, and every absent one takes it. -/
theorem substitute_ends {z : Uuid} {k : Nat} {o : Option Uuid} (hs : Ready q s)
    (hDescribes : Describes p n s us size asList) (hDraw : o = none → Substitutes s us z)
    (hk : us[k]? = some o) (hPack : Packing n s z us k t)
    (hRest : ∀ u, SameBut (Scratch n) s u → u.heap = t.heap → u.parcel = t.parcel →
      u.locals ((Temporaries.after n).name .bits) = t.locals ((Temporaries.after n).name .bits) →
      u.locals ((Temporaries.after n).name .i) = t.locals ((Temporaries.after n).name .i) →
      u.locals ((Temporaries.after n).name .uuid) = some (.uuid (o.getD z)) →
      u.locals ((Temporaries.after n).name .nullUuid) =
        some (if none ∈ us.take (k + 1) then .uuid z else .null) →
      (none ∉ us.take (k + 1) → u.draws = s.draws) → Ends p cs u Q) :
    Ends p (.branch (.absent ((Temporaries.after n).var .uuid))
      [.branch (.absent ((Temporaries.after n).var .nullUuid))
        [.loop [.assign ((Temporaries.after n).var .nullUuid)
            (.call (.name uuidType) "randomUUID" [])]
          (.call asList "contains" [(Temporaries.after n).var .nullUuid])] [],
        .assign ((Temporaries.after n).var .uuid) ((Temporaries.after n).var .nullUuid)] [] :: cs)
      (t.set ((Temporaries.after n).name .uuid) (nullable o)) Q := by
  have hTake : us.take (k + 1) = us.take k ++ [o] := by rw [List.take_add_one, hk]; rfl
  have hSame := hPack.build.locals.set (scratch n .uuid) (nullable o)
  have hUuid := State.set_locals_self t ((Temporaries.after n).name .uuid) (nullable o)
  have hNull : (t.set ((Temporaries.after n).name .uuid) (nullable o)).locals
      ((Temporaries.after n).name .nullUuid) = some (if none ∈ us.take k then .uuid z else .null) := by
    simp [State.set_locals, hPack.substitute]
  cases o with
  | some u =>
      refine .no (eval_absent (eval_local hUuid)) (hRest _ hSame rfl rfl ?_ ?_ hUuid ?_ ?_)
      · simp [State.set_locals]
      · simp [State.set_locals]
      · simpa [hTake] using hNull
      · simpa [hTake] using hPack.draws
  | none =>
      have hMem : none ∈ us.take (k + 1) := by simp [hTake]
      refine .yes (eval_absent (eval_local hUuid)) ?_
      -- Whether it was drawn before or is drawn now, the substitute is in its variable.
      have hLast : ∀ u, SameBut (· = (Temporaries.after n).name .nullUuid)
          (t.set ((Temporaries.after n).name .uuid) .null) u →
          u.locals ((Temporaries.after n).name .nullUuid) = some (.uuid z) →
          u.heap = t.heap → u.parcel = t.parcel →
          Ends p (.assign ((Temporaries.after n).var .uuid) ((Temporaries.after n).var .nullUuid) :: cs)
            u Q := by
        intro u hBut hz hHeap hParcel
        have hOther : ∀ r : Role, r ≠ .nullUuid → r ≠ .uuid →
            u.locals ((Temporaries.after n).name r) = t.locals ((Temporaries.after n).name r) := by
          intro r hr hr'
          rw [hBut _ (by simpa using hr), State.set_locals, if_neg (by simpa using hr')]
        refine .assign (eval_local hz) (hRest _ ?_ hHeap hParcel ?_ ?_ ?_ ?_ ?_)
        · exact (hSame.trans (hBut.mono fun x hx => ⟨.nullUuid, hx⟩)).set (scratch n .uuid) _
        · simp [State.set_locals, hOther]
        · simp [State.set_locals, hOther]
        · simp
        · simp [State.set_locals, hz, hMem]
        · exact fun h => absurd hMem h
      by_cases hDrawn : none ∈ us.take k
      · rw [if_pos hDrawn] at hNull
        exact .no (eval_absent (eval_local hNull)) (hLast _ (.refl _ _) hNull rfl rfl)
      · rw [if_neg hDrawn] at hNull
        obtain ⟨hJava, j, hFirst, hz⟩ := hDraw rfl
        rw [← hPack.draws hDrawn] at hFirst hz
        refine .yes (eval_absent (eval_local hNull)) (drawFresh_ends hs hJava hDescribes hFirst
          hSame hPack.build.isPrefix fun u hBut hNew hHeap hParcel => ?_)
        rw [State.set_draws, hz] at hNew
        exact hLast u hBut hNew hHeap hParcel

/-- The first absent identifier stops the writer if a variable hides the class that draws. -/
theorem substitute_stops {z : Uuid} {k : Nat} {w : Value α} {c : Expr} {as : List Stmt}
    (hs : Ready q s) (hJava : s.locals "java" = some w) (hPack : Packing n s z us k t)
    (hBefore : none ∉ us.take k) :
    Stops p (.branch (.absent ((Temporaries.after n).var .uuid))
      (.branch (.absent ((Temporaries.after n).var .nullUuid))
        [.loop [.assign ((Temporaries.after n).var .nullUuid)
          (.call (.name uuidType) "randomUUID" [])] c] [] :: as) [] :: cs)
      (t.set ((Temporaries.after n).name .uuid) .null)
      (if w.isNull then .nullDereference else .noSuchMember) := by
  have hSame := hPack.build.locals.set (scratch n .uuid) .null
  have hUuid := State.set_locals_self t ((Temporaries.after n).name .uuid) .null
  have hNull : (t.set ((Temporaries.after n).name .uuid) .null).locals
      ((Temporaries.after n).name .nullUuid) = some .null := by
    simp [State.set_locals, hPack.substitute, hBefore]
  -- The name of the class means a member of the variable's value.
  have hPackage := (hSame "java" (not_scratch_of_stem n fun r => by cases r <;> decide)).trans hJava
  have hName := eval_hidden (p := p) (x := uuidType)
    ((hs.of_scratch hSame).classes _ (by decide)) hPackage
  rw [member_error w (by decide)] at hName
  exact .yes (eval_absent (eval_local hUuid)) (.yes (eval_absent (eval_local hNull))
    (.loop (.assign (eval_call_error _ _ hName))))

/-- One round of the writer's loop puts the halves of one identifier into place. -/
theorem packing_step {z : Uuid} {k : Nat} {o : Option Uuid} (hs : Ready q s)
    (hDescribes : Describes p n s us size asList) (hDraw : o = none → Substitutes s us z)
    (hSmall : us.length < 2 ^ 30) (hk : us[k]? = some o) (hPack : Packing n s z us k t) :
    Ends p [.branch (.absent ((Temporaries.after n).var .uuid))
        [.branch (.absent ((Temporaries.after n).var .nullUuid))
          [.loop [.assign ((Temporaries.after n).var .nullUuid)
              (.call (.name uuidType) "randomUUID" [])]
            (.call asList "contains" [(Temporaries.after n).var .nullUuid])] [],
          .assign ((Temporaries.after n).var .uuid) ((Temporaries.after n).var .nullUuid)] [],
      .assign (.index ((Temporaries.after n).var .bits)
        (.postIncrement ((Temporaries.after n).var .i)))
        (Scheme.upperHalf ((Temporaries.after n).var .uuid)),
      .assign (.index ((Temporaries.after n).var .bits)
        (.postIncrement ((Temporaries.after n).var .i)))
        (Scheme.lowerHalf ((Temporaries.after n).var .uuid))]
      (t.set ((Temporaries.after n).name .uuid) (nullable o)) (Packing n s z us (k + 1)) := by
  have hLength : (halves z us : List (Value α)).length < 2 ^ 31 := by rw [length_halves]; omega
  obtain ⟨hUpper, hLower⟩ := halves_getElem? (α := α) (z := z) hk
  refine substitute_ends hs hDescribes hDraw hk hPack ?_
  intro u hSame hHeap hParcel hBits hi hUuid hNull hDraws
  have hBuild : Building (Scratch n) ((Temporaries.after n).name .bits) s
      (.array (filled (.int 0) (2 * k) (halves z us))) [] u :=
    ⟨hSame, hBits.trans hPack.build.place, hHeap.trans hPack.build.heap⟩
  refine storeNext_ends hBuild (hi.trans hPack.index) hUpper hLength
    (eval_upperHalf (eval_local hUuid)) ?_
  intro u' hBut hBuild' hi' hParcel' hDraws'
  have hUuid' := (hBut ((Temporaries.after n).name .uuid) (by simp)).trans hUuid
  refine storeNext_ends hBuild' hi' hLower hLength (eval_lowerHalf (eval_local hUuid')) ?_
  intro w hBut' hBuild'' hi'' hParcel'' hDraws''
  refine .nil ⟨hBuild'', hi'', ?_, ?_, ?_⟩
  · rw [hBut' _ (by simp), hBut _ (by simp), hNull]
  · exact fun h => (hDraws''.trans hDraws').trans (hDraws h)
  · rw [hParcel'', hParcel', hParcel, hPack.parcel]

/-- When all halves are in place the array is written, and the substitute behind a
flag that it was needed. -/
theorem writePacked_ends {z : Uuid} (hs : Ready q s) (hPack : Packing n s z us us.length t) :
    Ends p [.run (q.call "writeLongArray" [(Temporaries.after n).var .bits]),
      .branch (.present ((Temporaries.after n).var .nullUuid))
        [.run (q.call "writeInt" [.int 1]),
          .run (q.call "writeLong" [Scheme.upperHalf ((Temporaries.after n).var .nullUuid)]),
          .run (q.call "writeLong" [Scheme.lowerHalf ((Temporaries.after n).var .nullUuid)])]
        [.run (q.call "writeInt" [.int 0])]] t (Sent n s (uuidEntries z us)) := by
  obtain ⟨hBuild, -, hNull, -, hParcel⟩ := hPack
  rw [← length_halves (α := α) z us, filled_length] at hBuild
  rw [List.take_length] at hNull
  have hReady := hs.of_scratch hBuild.locals
  have hContent := contentOf_ref hBuild.getElem?_self rfl
  have hWritable : isWritable t.heap "LongArray" (.ref s.heap.length) = true := by
    simp only [isWritable, hContent, List.all_eq_true]
    exact fun v => isNumber_of_mem_halves
  refine .run (eval_write hReady.parcel "LongArray" (by decide)
    (evalAll_singleton (eval_local hBuild.place)) hWritable) ?_
  rw [hContent]
  by_cases hMem : none ∈ us
  · rw [if_pos hMem] at hNull
    refine .yes (eval_present (v := .uuid z) (eval_local (by exact hNull))) ?_
    refine writeInt_ends ⟨hReady.parcel, hReady.classes⟩ (eval_int 1) (by decide) ?_
    refine writeHalf_ends ⟨hReady.parcel, hReady.classes⟩ (eval_upperHalf (eval_local hNull)) ?_
    refine writeHalf_ends ⟨hReady.parcel, hReady.classes⟩ (eval_lowerHalf (eval_local hNull))
      (.nil ⟨?_, hBuild.isPrefix, hBuild.locals⟩)
    simp [uuidEntries, hMem, hParcel]
  · rw [if_neg hMem] at hNull
    refine .no (eval_present (v := .null) (eval_local (by exact hNull))) ?_
    refine writeInt_ends ⟨hReady.parcel, hReady.classes⟩ (eval_int 0) (by decide)
      (.nil ⟨?_, hBuild.isPrefix, hBuild.locals⟩)
    simp [uuidEntries, hMem, hParcel]

omit [DecidableEq α] in
/-- The state in front of the writer's loop, with all places in the array empty. -/
theorem packing_start (n : Nat) (s : State α) (z : Uuid) (us : List (Option Uuid)) :
    Packing n s z us 0
      ((((s.extend (.array (List.replicate (2 * us.length) (defaultOf "long")))).set
        ((Temporaries.after n).name .bits) (.ref s.heap.length)).set
        ((Temporaries.after n).name .nullUuid) .null).set
        ((Temporaries.after n).name .i) (.int 0)) := by
  have hStart := Building.start (z := (Temporaries.after n).name .bits) (.refl _ s) rfl
    (scratch n .bits) (.array (List.replicate (2 * us.length) (defaultOf "long")))
  have hStart := (hStart.set (scratch n .nullUuid) (by simp) .null).set (scratch n .i) (by simp)
    (.int 0)
  refine ⟨?_, by simp, by simp [State.set_locals], fun _ => rfl, rfl⟩
  rw [Nat.mul_zero, filled_zero, length_halves]
  exact hStart

/-- A collection of identifiers is written as its halves, with a substitute that it
does not contain. -/
theorem writeUuids_ends {a : Nat} (hs : Ready q s) (hJava : none ∈ us → s.locals "java" = none)
    (hx : Usable q n x) (hv : s.locals x = some (.ref a))
    (ha : s.heap[a]? = some (.array (us.map nullable)) ∨ s.heap[a]? = some (.list (us.map nullable)))
    (hDescribes : Describes p n s us size asList) (hSmall : us.length < 2 ^ 30)
    (hFresh : ∃ k, some (s.draws k) ∉ us) :
    ∃ z, some z ∉ us ∧
      Ends p (Scheme.writeUuids size asList q (.after n) x).body s (Sent n s (uuidEntries z us)) := by
  obtain ⟨j, hFirst⟩ := exists_firstFresh hFresh
  refine ⟨s.draws j, hFirst.fresh, ?_⟩
  refine .yes (eval_present (eval_local hv)) ?_
  refine .declareAs (eval_newArray (eval_twice hDescribes.size hSmall)) ?_
  refine .declareAs eval_null (.declareAs (eval_int 0) ?_)
  have hStart := packing_start n s (s.draws j) us
  refine .each (eval_local ((hStart.build.locals x hx.not_scratch).trans hv)) (elements_ref
    (ha.imp hStart.build.getElem?_old hStart.build.getElem?_old)) (Packing n s (s.draws j) us)
    hStart ?_ ?_
  · intro k v t hk hPack
    rw [List.getElem?_map] at hk
    obtain ⟨o, ho, rfl⟩ := Option.map_eq_some_iff.mp hk
    refine packing_step hs hDescribes (fun hNone => ⟨hJava ?_, j, hFirst, rfl⟩) hSmall ho hPack
    exact hNone ▸ List.mem_of_getElem? ho
  · intro t hPack
    rw [List.length_map] at hPack
    exact writePacked_ends hs hPack

/-- A collection with an absent identifier is not written if a variable hides the class
that draws the substitute. -/
theorem writeUuids_stops {a : Nat} {w : Value α} (hs : Ready q s)
    (hJava : s.locals "java" = some w) (hx : Usable q n x) (hv : s.locals x = some (.ref a))
    (ha : s.heap[a]? = some (.array (us.map nullable)) ∨ s.heap[a]? = some (.list (us.map nullable)))
    (hDescribes : Describes p n s us size asList) (hSmall : us.length < 2 ^ 30)
    (hNone : none ∈ us) :
    Stops p (Scheme.writeUuids size asList q (.after n) x).body s
      (if w.isNull then .nullDereference else .noSuchMember) := by
  obtain ⟨before, after, hSplit, hBefore⟩ := List.eq_append_cons_of_mem hNone
  refine .yes (eval_present (eval_local hv)) ?_
  refine .declareAs (eval_newArray (eval_twice hDescribes.size hSmall)) ?_
  refine .declareAs eval_null (.declareAs (eval_int 0) ?_)
  -- Up to the first absent identifier nothing is drawn, so any substitute will do.
  have hStart := packing_start n s ⟨0, 0⟩ us
  refine .each (k := before.length) (w := .null)
    (eval_local ((hStart.build.locals x hx.not_scratch).trans hv)) (elements_ref
    (ha.imp hStart.build.getElem?_old hStart.build.getElem?_old)) (by simp [hSplit, nullable])
    (Packing n s ⟨0, 0⟩ us) hStart ?_ ?_
  · intro i v t hi hItem hPack
    rw [List.getElem?_map] at hItem
    obtain ⟨o, ho, rfl⟩ := Option.map_eq_some_iff.mp hItem
    refine packing_step hs hDescribes (fun hAbsent => absurd ?_ hBefore) hSmall ho hPack
    rw [hSplit, List.getElem?_append_left hi] at ho
    exact hAbsent ▸ List.mem_of_getElem? ho
  · intro t hPack
    exact substitute_stops hs hJava hPack (by simpa [hSplit] using hBefore)

theorem describes_array {a : Nat} (hs : Ready q s) (hx : Usable q n x)
    (hv : s.locals x = some (.ref a))
    (ha : s.heap[a]? = some (.array (us.map nullable))) :
    Describes p n s us (.field (.name x) "length")
      (.call (.name "java.util.Arrays") "asList" [.name x]) where
  size := by
    rw [← List.length_map (f := nullable (α := α))]
    exact eval_length (eval_local hv) ha
  contains := by
    intro hJava t w hSame hHeap hw
    have hArray := eval_local (p := p) ((hSame x hx.not_scratch).trans hv)
    have hClass : Visible t "java.util.Arrays" := (hs.of_scratch hSame).visible (by decide)
      (java_free_of_scratch hJava hSame)
    have hView := eval_asList hClass hArray
    exact eval_contains (.inr ⟨hView, getElem?_of_isPrefix hHeap ha⟩) (eval_local hw)

theorem describes_list {a : Nat} (hx : Usable q n x) (hv : s.locals x = some (.ref a))
    (ha : s.heap[a]? = some (.list (us.map nullable))) :
    Describes p n s us (.call (.name x) "size" []) (.name x) where
  size := by
    rw [← List.length_map (f := nullable (α := α))]
    exact eval_size (eval_local hv) ha
  contains := by
    intro _ t w hSame hHeap hw
    have hList := eval_local (p := p) ((hSame x hx.not_scratch).trans hv)
    exact eval_contains (.inl ⟨hList, getElem?_of_isPrefix hHeap ha⟩) (eval_local hw)

/-- Every collection of identifiers, and none, is written as its entries. -/
theorem writeCollection_ends {scheme : Scheme} {count : Nat} {f : Fragment} {v : Value α}
    {content : Option (List (Option Uuid))} (hEmit : (scheme.write q).emit? x n = some (f, count))
    (hs : Ready q s) (hJava : ∀ us ∈ content, none ∈ us → s.locals "java" = none)
    (hx : Usable q n x) (hv : s.locals x = some v) (hUuids : IsUuids s.heap scheme v content)
    (hSmall : ∀ us ∈ content, us.length < 2 ^ 30)
    (hFresh : ∀ us ∈ content, ∃ k, some (s.draws k) ∉ us) :
    ∃ z, (∀ us ∈ content, some z ∉ us) ∧ Ends p f.body s (Sent n s (collectionEntries z content)) := by
  cases hUuids with
  | absentArray | absentList =>
      cases hEmit
      refine ⟨⟨0, 0⟩, by simp, ?_⟩
      exact writeAbsent_ends hs hv (by decide) eval_null rfl rfl
  | @array _ _ us ha =>
      cases hEmit
      obtain ⟨z, hz, hEnds⟩ := writeUuids_ends hs (hJava us rfl) hx hv (.inl ha)
        (describes_array hs hx hv ha) (hSmall us rfl) (hFresh us rfl)
      exact ⟨z, by simpa using hz, hEnds⟩
  | @list _ _ us ha =>
      cases hEmit
      obtain ⟨z, hz, hEnds⟩ := writeUuids_ends hs (hJava us rfl) hx hv (.inr ha)
        (describes_list hx hv ha) (hSmall us rfl) (hFresh us rfl)
      exact ⟨z, by simpa using hz, hEnds⟩

/-- A collection with an absent identifier is not written, by either scheme, if a variable
hides the class that draws the substitute. -/
theorem writeCollection_stops {scheme : Scheme} {count : Nat} {f : Fragment} {v w : Value α}
    (hEmit : (scheme.write q).emit? x n = some (f, count)) (hs : Ready q s)
    (hJava : s.locals "java" = some w) (hx : Usable q n x) (hv : s.locals x = some v)
    (hUuids : IsUuids s.heap scheme v (some us)) (hSmall : us.length < 2 ^ 30) (hNone : none ∈ us) :
    Stops p f.body s (if w.isNull then .nullDereference else .noSuchMember) := by
  cases hUuids with
  | array ha =>
      cases hEmit
      exact writeUuids_stops hs hJava hx hv (.inl ha) (describes_array hs hx hv ha) hSmall hNone
  | list ha =>
      cases hEmit
      exact writeUuids_stops hs hJava hx hv (.inr ha) (describes_list hx hv ha) hSmall hNone

end Write

end BinderIdl.Wire
