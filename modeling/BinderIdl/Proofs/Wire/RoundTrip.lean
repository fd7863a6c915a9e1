import BinderIdl.Proofs.Marshal.Encode
import BinderIdl.Proofs.Registry.Precedence
import BinderIdl.Proofs.Wire.Create

/-! The round trip of an argument or a result: what the sender of a parcel writes,
its receiver reads back. Collections of identifiers are not covered here, since
the wire format of this part has no entries for them. There is one exception: the receiver
names the class that makes a value as the type is written, and a variable of the
receiver, such as its parcel, may hide that class. -/
namespace BinderIdl

open Java Machine

/-- A type of single values has one of their names. -/
theorem Category.base_mem_of_value {t : TypeName} (h : Category.of t = .value) :
    t.base ∈ Category.valueNames := by
  have hResolve : Category.registry.resolve? t = some .value := by
    rw [Category.of] at h
    cases hr : Category.registry.resolve? t with
    | none => simp [hr] at h
    | some c => simpa [hr] using h
  obtain ⟨rule, hMem, hAccepts, hValue⟩ := Registry.exists_rule_of_resolve? hResolve
  have hPattern : rule.pattern = .named Category.valueNames := by
    revert hValue
    simp only [Category.registry, List.mem_cons, List.not_mem_nil, or_false] at hMem
    rcases hMem with rfl | rfl | rfl | rfl | rfl | rfl | rfl | rfl | rfl | rfl | rfl | rfl | rfl |
      rfl | rfl <;> simp
  simp only [hPattern, TypePattern.accepts, Bool.and_eq_true, List.contains_iff_mem] at hAccepts
  exact hAccepts.2

/-- Every argument of single values has parcel methods for them. -/
theorem Binding.hasMethods (b : Binding) : Wire.HasMethods b.scheme := by
  intro kind h
  have hNames : ∀ base ∈ Category.valueNames, valueKind (.plain base) ∈ Wire.valueKinds := by decide
  cases hc : b.category with
  | value =>
      rw [Binding.scheme, hc] at h
      cases h
      exact hNames _ (Category.base_mem_of_value hc)
  | untypedCollection =>
      simp only [Binding.scheme, hc, Scheme.of] at h
      split at h <;> cases h
  | object | parcelable | anyValue | intLike | boolean | array | valueArray | list | valueList |
    uuid | uuidArray | uuidList | sparseBooleanArray =>
      rw [Binding.scheme, hc] at h
      cases h

/-- The site that writes the parcel of a phase. -/
def Phase.sender : Phase → Site
  | .pre => .proxy
  | .post => .dispatcher

/-- The site that reads the parcel of a phase. -/
def Phase.receiver : Phase → Site
  | .pre => .dispatcher
  | .post => .proxy

/-- What one site declares with a value, the other site has written. -/
theorem Operation.write_of_create {direction : Direction} {phase : Phase}
    (h : Operation.of? phase.receiver direction phase = some .create) :
    Operation.of? phase.sender direction phase = some .write := by
  revert h
  cases direction <;> cases phase <;> decide

namespace Wire

variable {α : Type} [DecidableEq α]

/-- The round trip of a value through the parcel of a phase. The receiver may run
in any later state, with any variables of its own, and may find more entries
behind those of the value; it takes the entries of the value and no others. Where it makes
the value by a constant of a class, no variable may hide that class; the flags of the writer
are a constant of that kind, too. -/
theorem create_inverts_write (p : Platform α) (b : Binding) (phase : Phase)
    (hCreate : Operation.of? phase.receiver b.argument.direction phase = some .create)
    {x y : String} {m n m' n' : Nat} {writer reader : Fragment}
    (hWriter : b.code phase.sender phase x m = .ok (writer, m'))
    (hReader : b.code phase.receiver phase y n = .ok (reader, n'))
    (hx : Usable (.of phase.sender phase) m x) (hy : Usable (.of phase.receiver phase) n y)
    {s : State α} {v : Value α} {es : List (Entry α)} (hs : Ready (.of phase.sender phase) s)
    (hAndroid : s.locals "android" = none) (hv : s.locals x = some v)
    (hWire : OnWire p (flagsOf (.of phase.sender phase)) s.heap b.declared b.scheme v es) :
    Ends p writer.body s fun t => Sent m s es t ∧
      ∀ (u : State α) (rest : List (Entry α)), Ready (.of phase.receiver phase) u →
        (∀ c ∈ classConstant? b.scheme, Exposed n y u c) → t.heap <+: u.heap →
        u.parcel = es ++ rest →
        Ends p (reader.declaring b.argument.type y) u (Received n y u rest v) := by
  have hWrite := Binding.emit?_of_code .write (Operation.write_of_create hCreate) hWriter
  have hRead := Binding.emit?_of_code .create hCreate hReader
  refine (write_ends hWrite b.hasMethods hs hAndroid hx hv hWire).mono fun t hSent => ⟨hSent, ?_⟩
  intro u rest hu hExposed hHeap hParcel
  exact create_ends hRead b.hasMethods hu hy hExposed (hSent.heap.trans hHeap) hWire hParcel

/-- A framework without objects of its own. -/
def bare : Platform Unit where
  flatten _ _ := none
  restore _ _ := none
  refill _ _ := none
  make _ := none
  asBinder _ := none
  asInterface _ _ := none

/-- A framework whose objects write one number about themselves, and whose interfaces are
their own binders. -/
def sample : Platform Unit where
  flatten _ _ := some [number 7]
  restore _ entries := entries.head?.map fun _ => ((), entries.tail)
  refill _ _ := none
  make _ := none
  asBinder v := some v
  asInterface _ binder := some binder

theorem restores_sample (name : String) : Restores sample name () := by
  rintro flags entries rest ⟨⟩
  rfl

/-- A dispatcher that is about to return the first of some objects. -/
def returning (heap : List (Cell Unit)) (draws : Nat → Uuid) : State Unit where
  locals x := if x = "_result" then some (.ref 0) else if x = "reply" then some .parcel else none
  heap := heap
  parcel := []
  draws := draws

theorem ready_returning (heap : List (Cell Unit)) (draws : Nat → Uuid) :
    Ready .reply (returning heap draws) where
  parcel := rfl
  classes name hDot := by
    have hResult : name ≠ "_result" := by rintro rfl; revert hDot; decide
    have hReply : name ≠ "reply" := by rintro rfl; revert hDot; decide
    simp [returning, hResult, hReply]

theorem usable_result (n : Nat) (q : Parcel) : Usable q n "_result" where
  noDot := by decide
  ne_parcel := by cases q <;> decide
  ne_temporary r := (Temporaries.name_ne_resultName n r).symm

/-- A state with the parcel in its variable, and no other variables. -/
def holding (q : Parcel) (heap : List (Cell Unit)) (entries : List (Entry Unit)) : State Unit where
  locals x := if x = q.name then some .parcel else none
  heap := heap
  parcel := entries
  draws _ := ⟨0, 0⟩

theorem ready_holding (q : Parcel) (heap : List (Cell Unit)) (entries : List (Entry Unit)) :
    Ready q (holding q heap entries) where
  parcel := by simp [holding]
  classes name hDot := by
    have hParcel : name ≠ q.name := by
      rintro rfl
      revert hDot
      cases q <;> decide
    simp [holding, hParcel]

/-- A returned user, who is Parcelable by an import. -/
private def returnedUser : Binding where
  owner := 0
  context := { imports := [⟨.parcelable, "model.User"⟩] }
  argument := ⟨.result, "model.User", "_result", none⟩
  type := .plain "model.User"

theorem create_inverts_write_user : ∃ writer reader,
    returnedUser.code .dispatcher .post "_result" 0 = .ok (writer, 0) ∧
    returnedUser.code .proxy .post "_result" 1 = .ok (reader, 1) ∧
    Ends sample writer.body (returning [.object ()] fun _ => ⟨0, 0⟩) fun t =>
      Sent 0 (returning [.object ()] fun _ => ⟨0, 0⟩) [number 1, number 7] t ∧
      Ends sample (reader.declaring "model.User" "_result")
        (holding .proxyReply t.heap [number 1, number 7])
        (Received 1 "_result" (holding .proxyReply t.heap [number 1, number 7]) [] (.ref 0)) := by
  have hScheme : returnedUser.scheme = .object (.plain "model.User") .parcelable := by rfl
  have hWire : OnWire sample (flagsOf .reply) [.object ()] returnedUser.declared
      returnedUser.scheme (.ref 0) [number 1, number 7] := by
    rw [hScheme]
    exact .object rfl (restores_sample _) rfl fun h => absurd h (by decide)
  refine ⟨_, _, rfl, rfl, (create_inverts_write sample returnedUser .post rfl rfl rfl
    (usable_result 0 _) (usable_result 1 _) (ready_returning _ _) rfl rfl hWire).mono ?_⟩
  rintro t ⟨hSent, hReads⟩
  refine ⟨hSent, hReads _ [] (ready_holding _ _ _) ?_ List.prefix_rfl rfl⟩
  rw [hScheme]
  rintro _ ⟨⟩
  exact .of_first "model" (by decide) rfl (by decide) fun r => by cases r <;> decide

/-- A user of a package that has the name of the dispatcher's parcel. -/
private def givenUser : Binding where
  owner := 0
  context := { imports := [⟨.parcelable, "data.User"⟩] }
  argument := ⟨.into, "data.User", "u", none⟩
  type := .plain "data.User"

/-- A proxy that is about to send an object. -/
private def sendingUser : State Unit where
  locals x := if x = "u" then some (.ref 0) else if x = "_data" then some .parcel else none
  heap := [.object ()]
  parcel := []
  draws _ := ⟨0, 0⟩

/-- The parcel of the dispatcher hides a package of its name. The user is written, and no
dispatcher can read it. -/
theorem parcel_hides_package : ∃ writer reader,
    givenUser.code .proxy .pre "u" 0 = .ok (writer, 0) ∧
    givenUser.code .dispatcher .pre "_arg0" 0 = .ok (reader, 0) ∧
    OnWire sample (flagsOf .proxyData) sendingUser.heap givenUser.declared givenUser.scheme (.ref 0)
      [number 1, number 7] ∧
    Ends sample writer.body sendingUser (Sent 0 sendingUser [number 1, number 7]) ∧
    ∀ (u : State Unit) (rest : List (Entry Unit)), Ready .data u →
      u.parcel = [number 1, number 7] ++ rest →
      Stops sample (reader.declaring "data.User" "_arg0") u .noSuchMember := by
  have hScheme : givenUser.scheme = .object (.plain "data.User") .parcelable := by rfl
  have hWire : OnWire sample (flagsOf .proxyData) sendingUser.heap givenUser.declared
      givenUser.scheme (.ref 0) [number 1, number 7] := by
    rw [hScheme]
    exact .object rfl (restores_sample _) rfl fun h => absurd h (by decide)
  have hReady : Ready .proxyData sendingUser := by
    refine ⟨rfl, fun name hDot => ?_⟩
    have hUser : name ≠ "u" := by rintro rfl; revert hDot; decide
    have hData : name ≠ "_data" := by rintro rfl; revert hDot; decide
    simp [sendingUser, hUser, hData]
  have hUsable : Usable .proxyData 0 "u" := ⟨by decide, by decide, fun r => by cases r <;> decide⟩
  refine ⟨_, _, rfl, rfl, hWire, ?_, ?_⟩
  · exact write_ends rfl givenUser.hasMethods hReady rfl hUsable rfl hWire
  · intro u rest hu hParcel
    exact createObject_stops hu (by decide) hParcel

end Wire

end BinderIdl
