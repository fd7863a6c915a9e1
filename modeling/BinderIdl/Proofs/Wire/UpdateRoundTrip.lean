import BinderIdl.Proofs.Wire.Update

/-! The way back of an argument that the caller provides and the callee changes. The
callee's collection is written into the reply, and the caller's collection takes it over
in place, whatever sizes the two have. A collection of interfaces has one exception: a
variable of the proxy, such as the argument's, may hide the class of the elements. -/
namespace BinderIdl.Wire

open Java Machine

variable {α : Type}

/-- The values in a collection. -/
def items : Cell α → List (Value α)
  | .array vs | .list vs => vs
  | _ => []

/-- Two collections of one class. -/
inductive SameClass : Cell α → Cell α → Prop
  | array {vs ws : List (Value α)} : SameClass (.array vs) (.array ws)
  | list {vs ws : List (Value α)} : SameClass (.list vs) (.list ws)
  | flags {es fs : List (Int × Bool)} : SameClass (.flags es) (.flags fs)

/-- The collections that travel by a scheme whose reader is more than one call. Sizes are
numbers that the code can count to; of identifiers both halves are counted. Interfaces have
binders, other elements are of their type, and identifiers need a substitute among those
that will be drawn. A sparse array has its keys in order. -/
inductive Travels (p : Platform α) (draws : Nat → Uuid) : Scheme → Cell α → Prop
  | interfaceArray {element : TypeName} {vs binders : List (Value α)}
      (hSmall : Integral.int.Has vs.length)
      (hBinders : List.Forall₂ (HasBinder p (className element)) vs binders) :
      Travels p draws (.array element .interface) (.array vs)
  | serializableArray {element : TypeName} {vs : List (Value α)}
      (hSmall : Integral.int.Has vs.length) (hFits : ∀ v ∈ vs, Fits element.print v) :
      Travels p draws (.array element .serializable) (.array vs)
  | interfaceList {content : TypeName} {vs binders : List (Value α)}
      (hBinders : List.Forall₂ (HasBinder p content.base) vs binders) :
      Travels p draws (.list content .interface) (.list vs)
  | serializableList {content : TypeName} {vs : List (Value α)}
      (hSmall : Integral.int.Has vs.length) (hFits : ∀ v ∈ vs, Fits content.print v) :
      Travels p draws (.list content .serializable) (.list vs)
  | uuidArray {element : TypeName} {us : List (Option Uuid)}
      (hSmall : Integral.int.Has (2 * us.length)) (hFresh : ∃ k, some (draws k) ∉ us) :
      Travels p draws (.uuidArray element) (.array (us.map nullable))
  | uuidList {content : TypeName} {us : List (Option Uuid)}
      (hSmall : Integral.int.Has (2 * us.length)) (hFresh : ∃ k, some (draws k) ∉ us) :
      Travels p draws (.uuidList content) (.list (us.map nullable))
  | sparseBooleanArray {es : List (Int × Bool)} (hSmall : Integral.int.Has es.length)
      (hSorted : es.Pairwise (·.1 < ·.1)) : Travels p draws .sparseBooleanArray (.flags es)

variable [DecidableEq α] {p : Platform α} {q r : Parcel} {m n : Nat} {x y : String}

/-- The reader changes a caller's collection as the entries say, where no variable hides the
class that makes the elements. -/
def Updates (p : Platform α) (r : Parcel) (n : Nat) (y : String) (scheme : Scheme)
    (reader : Fragment) (sent : Cell α) (heap : List (Cell α)) (es : List (Entry α)) : Prop :=
  ∀ (u : State α) (rest : List (Entry α)) (c : Nat) (caller : Cell α), Ready r u →
    (∀ k ∈ classConstant? scheme, Exposed n y u k) → heap <+: u.heap → u.parcel = es ++ rest →
    u.locals y = some (.ref c) → u.heap[c]? = some caller → SameClass caller sent →
    Value.ref c ∉ items sent →
    Ends p reader.body u (Updated n c u rest sent caller)

/-- What is asked of the reader is asked of it with fewer objects. -/
theorem Updates.mono {scheme : Scheme} {reader : Fragment} {sent : Cell α}
    {heap heap' : List (Cell α)} {es : List (Entry α)}
    (h : Updates p r n y scheme reader sent heap es) (hHeap : heap <+: heap') :
    Updates p r n y scheme reader sent heap' es :=
  fun u rest c caller hu hExposed hOld => h u rest c caller hu hExposed (hHeap.trans hOld)

/-- One scheme after the other: what the writer writes of a collection, the reader puts
into the caller's. -/
theorem updates_of_travels {scheme : Scheme} {d : Declared} {s : State α} {a : Nat}
    {sent : Cell α} {writer reader : Fragment} {m' n' : Nat}
    (hWrite : (scheme.write q).emit? x m = some (writer, m'))
    (hRead : (scheme.update r).emit? y n = some (reader, n')) (hScheme : HasMethods scheme)
    (hx : Usable q m x) (hy : Usable r n y) (hs : Ready q s) (hJava : s.locals "java" = none)
    (hAndroid : s.locals "android" = none) (hv : s.locals x = some (.ref a))
    (ha : s.heap[a]? = some sent) (hTravels : Travels p s.draws scheme sent) :
    ∃ es, Ends p writer.body s (Sent m s es) ∧ Updates p r n y scheme reader sent s.heap es := by
  -- A writer of the common format writes the entries of that format.
  have hCommon : ∀ {es}, OnWire p (flagsOf q) s.heap d scheme (.ref a) es →
      Ends p writer.body s (Sent m s es) :=
    fun hWire => write_ends hWrite hScheme hs hAndroid hx hv hWire
  cases hTravels with
  | interfaceArray hSmall hBinders =>
      have hLess := length_lt_of_has hSmall
      refine ⟨_, hCommon (.interfaceArray ha hLess hBinders), ?_⟩
      rintro u rest c _ hu hExposed - hParcel hLocal hc ⟨⟩ -
      cases Emission.emit?_of_ite hRead
      exact updateInterfaceArray_ends hu hy (hExposed _ rfl) hLocal hc hSmall hBinders hParcel
  | serializableArray hSmall hFits =>
      have hLess := length_lt_of_has hSmall
      refine ⟨_, hCommon (.serializableArray ha hLess hFits), ?_⟩
      rintro u rest c _ hu - hHeap hParcel hLocal hc ⟨⟩ hApart
      cases Emission.emit?_of_ite hRead
      exact updateSerializableArray_ends hu hy hLocal hc hHeap hApart hSmall hFits hParcel
  | interfaceList hBinders =>
      refine ⟨_, hCommon (.interfaceList ha hBinders), ?_⟩
      rintro u rest c _ hu hExposed - hParcel hLocal hc ⟨⟩ -
      cases hRead
      exact updateInterfaceList_ends hu hy (hExposed _ rfl) hLocal hc hBinders hParcel
  | serializableList hSmall hFits =>
      have hLess := length_lt_of_has hSmall
      refine ⟨_, hCommon (.serializableList ha hLess hFits), ?_⟩
      rintro u rest c _ hu - hHeap hParcel hLocal hc ⟨⟩ hApart
      cases hRead
      exact updateSerializableList_ends hu hy hLocal hc hHeap hApart hSmall hFits hParcel
  | uuidArray hSmall hFresh =>
      have hLess := length_lt_of_has_twice hSmall
      obtain ⟨z, hz, hEnds⟩ := writeCollection_ends hWrite hs (fun _ _ _ => hJava) hx hv
        (.array ha) (by simpa using hLess) (by simpa using hFresh)
      refine ⟨_, hEnds, ?_⟩
      rintro u rest c _ hu - - hParcel hLocal hc ⟨⟩ -
      cases hRead
      exact updateUuidArray_ends hu hy hLocal hc (hz _ rfl) hSmall hParcel
  | uuidList hSmall hFresh =>
      have hLess := length_lt_of_has_twice hSmall
      obtain ⟨z, hz, hEnds⟩ := writeCollection_ends hWrite hs (fun _ _ _ => hJava) hx hv
        (.list ha) (by simpa using hLess) (by simpa using hFresh)
      refine ⟨_, hEnds, ?_⟩
      rintro u rest c _ hu - - hParcel hLocal hc ⟨⟩ -
      cases hRead
      exact updateUuidList_ends hu hy hLocal hc (hz _ rfl) hSmall hParcel
  | sparseBooleanArray hSmall hSorted =>
      refine ⟨_, hCommon (.whole rfl rfl (by simp [isCast])), ?_⟩
      rintro u rest c _ hu - - hParcel hLocal hc ⟨⟩ -
      cases hRead
      rw [contentOf_ref ha rfl] at hParcel
      exact updateSparseBooleanArray_ends hu hy hLocal hc hSmall hSorted hParcel

/-- The way back of an argument that is updated by more than one call. The dispatcher
writes the callee's collection into the reply; then the proxy, in any later state, with any
collection of that class for the argument and with any entries behind those of the
argument, takes the entries of the argument and no others, and the caller's collection has
taken over the callee's. A list or a sparse array has its content. An array has its first
elements as far as there is room, and keeps its length and its other elements. The two ends
do not share objects, so the callee's collection does not hold the caller's. Where the
elements are found by a constant of a class, no variable of the proxy may hide that class,
and no variable of the dispatcher the classes of the framework. -/
theorem update_inverts_write (p : Platform α) (b : Binding)
    (hDirection : b.argument.direction = .out ∨ b.argument.direction = .inout)
    {x y : String} {m n m' n' : Nat} {writer reader : Fragment}
    (hWriter : b.code .dispatcher .post x m = .ok (writer, m'))
    (hReader : b.code .proxy .post y n = .ok (reader, n'))
    (hx : Usable .reply m x) (hy : Usable .proxyReply n y) {s : State α} {a : Nat} {sent : Cell α}
    (hs : Ready .reply s) (hJava : s.locals "java" = none) (hAndroid : s.locals "android" = none)
    (hv : s.locals x = some (.ref a)) (ha : s.heap[a]? = some sent)
    (hTravels : Travels p s.draws b.scheme sent) :
    ∃ es, Ends p writer.body s fun t => Sent m s es t ∧
      ∀ (u : State α) (rest : List (Entry α)) (c : Nat) (caller : Cell α), Ready .proxyReply u →
        (∀ k ∈ classConstant? b.scheme, Exposed n y u k) → t.heap <+: u.heap →
        u.parcel = es ++ rest → u.locals y = some (.ref c) → u.heap[c]? = some caller →
        SameClass caller sent → Value.ref c ∉ items sent →
        Ends p reader.body u fun t' => t'.parcel = rest ∧ SameBut (Scratch n) u t' ∧
          (∀ o cell, o ≠ c → u.heap[o]? = some cell → t'.heap[o]? = some cell) ∧
          ∃ cell, t'.heap[c]? = some cell ∧ TakesOver t'.heap sent caller cell := by
  have hOperations : Operation.of? .dispatcher b.argument.direction .post = some .write ∧
      Operation.of? .proxy b.argument.direction .post = some .update := by
    obtain h | h := hDirection <;> rw [h] <;> exact ⟨rfl, rfl⟩
  have hWrite := Binding.emit?_of_code .write hOperations.1 hWriter
  have hRead := Binding.emit?_of_code .update hOperations.2 hReader
  obtain ⟨es, hEnds, hUpdates⟩ := updates_of_travels (d := b.declared) hWrite hRead b.hasMethods
    hx hy hs hJava hAndroid hv ha hTravels
  refine ⟨es, hEnds.mono fun t hSent => ⟨hSent, ?_⟩⟩
  intro u rest c caller hu hExposed hHeap hParcel hLocal hc hClass hApart
  have hEnd := hUpdates.mono hSent.heap u rest c caller hu hExposed hHeap hParcel hLocal hc hClass
    hApart
  exact hEnd.mono fun t' h => ⟨h.parcel, h.locals, h.others, h.content⟩

/-- A dispatcher that has some objects, of which the first is in the variable of the
argument. -/
private def answering (heap : List (Cell Unit)) : State Unit where
  locals x := if x = "_arg0" then some (.ref 0) else if x = "reply" then some .parcel else none
  heap := heap
  parcel := []
  draws _ := ⟨0, 0⟩

private theorem ready_answering (heap : List (Cell Unit)) : Ready .reply (answering heap) := by
  refine ⟨rfl, fun name hDot => ?_⟩
  have hArgument : name ≠ "_arg0" := by rintro rfl; revert hDot; decide
  have hReply : name ≠ "reply" := by rintro rfl; revert hDot; decide
  simp [answering, hArgument, hReply]

private theorem usable_argument : Usable .reply 0 "_arg0" :=
  ⟨by decide, by decide, fun r => by cases r <;> decide⟩

/-- An array of users that the callee fills. They are interfaces by an import. -/
private def filledUsers : Binding where
  owner := 0
  context := { imports := [⟨.interface, "model.IUser"⟩] }
  argument := ⟨.out, "model.IUser[]", "users", none⟩
  type := .mk "model.IUser" [] 1 none

/-- The callee has three elements, of which one is absent. -/
private def calleeUsers : Cell Unit := .array [.atom (), .null, .int 5]

/-- A caller with room for two elements, behind the objects that there are. -/
private def receiving (heap : List (Cell Unit)) (es : List (Entry Unit)) : State Unit where
  locals x := if x = "users" then some (.ref heap.length)
    else if x = "_reply" then some .parcel else none
  heap := heap ++ [.array [.null, .null]]
  parcel := es
  draws _ := ⟨0, 0⟩

private theorem usable_users (n : Nat) : Usable .proxyReply n "users" where
  noDot := by decide
  ne_parcel := by decide
  ne_temporary r := (Temporaries.name_ne_of_stem n r fun r => by cases r <;> decide).symm

private theorem binders_users (name : String) :
    List.Forall₂ (HasBinder sample name) [.atom (), .null, .int 5] [.atom (), .null, .int 5] :=
  .cons (.binder (by simp) (by simp) rfl rfl) (.cons .null
    (.cons (.binder (by simp) (by simp) rfl rfl) .nil))

private theorem travels_users (draws : Nat → Uuid) (name : String) :
    Travels sample draws (.array (.plain name) .interface) calleeUsers :=
  .interfaceArray (by decide) (binders_users _)

theorem update_inverts_write_users : ∃ writer reader es,
    filledUsers.code .dispatcher .post "_arg0" 0 = .ok (writer, 1) ∧
    filledUsers.code .proxy .post "users" 1 = .ok (reader, 2) ∧
    Ends sample writer.body (answering [calleeUsers]) fun t =>
      Sent 0 (answering [calleeUsers]) es t ∧
      Ends sample reader.body (receiving t.heap es) fun t' => t'.parcel = [] ∧
        ∃ cell, t'.heap[t.heap.length]? = some cell ∧
          TakesOver t'.heap calleeUsers (.array [.null, .null]) cell := by
  have hScheme : filledUsers.scheme = .array (.plain "model.IUser") .interface := by rfl
  have hTravels : Travels sample (answering [calleeUsers]).draws filledUsers.scheme
      calleeUsers := by
    rw [hScheme]
    exact travels_users _ _
  obtain ⟨es, hEnds⟩ := update_inverts_write sample filledUsers (.inl rfl) rfl rfl usable_argument
    (usable_users 1) (ready_answering _) rfl rfl rfl rfl hTravels
  refine ⟨_, _, es, rfl, rfl, hEnds.mono ?_⟩
  rintro t ⟨hSent, hUpdate⟩
  have hCaller : Ready .proxyReply (receiving t.heap es) := by
    refine ⟨rfl, fun name hDot => ?_⟩
    have hUsers : name ≠ "users" := by rintro rfl; revert hDot; decide
    have hReply : name ≠ "_reply" := by rintro rfl; revert hDot; decide
    simp [receiving, hUsers, hReply]
  have hExposed : ∀ k ∈ classConstant? filledUsers.scheme,
      Exposed 1 "users" (receiving t.heap es) k := by
    rw [hScheme]
    rintro _ ⟨⟩
    exact .of_first "model" (by decide) rfl (by decide) fun r => by cases r <;> decide
  have hApart : Value.ref t.heap.length ∉ items calleeUsers := by simp [items, calleeUsers]
  refine ⟨hSent, (hUpdate (receiving t.heap es) [] t.heap.length (.array [.null, .null]) hCaller
    hExposed (List.prefix_append _ _) (by simp [receiving]) rfl (by simp [receiving]) .array
    hApart).mono ?_⟩
  rintro t' ⟨hParcel, -, -, hContent⟩
  exact ⟨hParcel, hContent⟩

/-- An array of users that has the name of their package. -/
private def homonymousUsers : Binding where
  owner := 0
  context := { imports := [⟨.interface, "users.IUser"⟩] }
  argument := ⟨.out, "users.IUser[]", "users", none⟩
  type := .mk "users.IUser" [] 1 none

/-- The variable of an argument hides the package of its type. The dispatcher writes the
callee's users into the reply, and no caller that has room for a user can read them. -/
theorem argument_hides_package : ∃ writer reader,
    homonymousUsers.code .dispatcher .post "_arg0" 0 = .ok (writer, 1) ∧
    homonymousUsers.code .proxy .post "users" 1 = .ok (reader, 2) ∧
    Travels sample (answering [calleeUsers]).draws homonymousUsers.scheme calleeUsers ∧
    Ends sample writer.body (answering [calleeUsers])
      (Sent 0 (answering [calleeUsers]) [⟨"BinderArray", .copy calleeUsers⟩]) ∧
    ∀ (u : State Unit) (rest : List (Entry Unit)) (c : Nat) (os : List (Value Unit)),
      Ready .proxyReply u → u.parcel = ⟨"BinderArray", .copy calleeUsers⟩ :: rest →
      u.locals "users" = some (.ref c) → u.heap[c]? = some (.array os) → 0 < os.length →
      Stops sample reader.body u .noSuchMember := by
  have hScheme : homonymousUsers.scheme = .array (.plain "users.IUser") .interface := by rfl
  refine ⟨_, _, rfl, rfl, ?_, ?_, ?_⟩
  · rw [hScheme]
    exact travels_users _ _
  · exact writeInterfaceArray_ends (ready_answering _) usable_argument rfl rfl (by decide)
      (binders_users "users.IUser")
  · intro u rest c os hu hParcel hLocal hc hRoom
    exact updateInterfaceArray_stops hu (usable_users 1) (by decide) (by decide) hLocal hc
      (by decide) hRoom hParcel

end BinderIdl.Wire
