import BinderIdl.Proofs.Wire.UuidRead

/-! The round trip of arrays and lists of identifiers. There is one exception: the writer
draws a substitute for absent identifiers by a class that it names with its package, and a
variable of the writer, such as the argument itself, may hide that package. -/
namespace BinderIdl.Wire

open Java Machine

variable {α : Type} [DecidableEq α]

/-- The round trip of a collection of identifiers, in which any may be absent or
repeated. It needs that drawing at random comes to an identifier outside of the
collection at some time; the first such one is the substitute, and the halves of
all identifiers travel in an array of twice the collection's length. Where an identifier is
absent, no variable of the writer may hide the class that draws: with a variable named
`java` the writer stops. -/
theorem create_inverts_writeUuids (p : Platform α) (b : Binding) (phase : Phase)
    (hCreate : Operation.of? phase.receiver b.argument.direction phase = some .create)
    {x y : String} {m n m' n' : Nat} {writer reader : Fragment}
    (hWriter : b.code phase.sender phase x m = .ok (writer, m'))
    (hReader : b.code phase.receiver phase y n = .ok (reader, n'))
    (hx : Usable (.of phase.sender phase) m x) (hy : Usable (.of phase.receiver phase) n y)
    {s : State α} {v : Value α} {content : Option (List (Option Uuid))}
    (hs : Ready (.of phase.sender phase) s) (hv : s.locals x = some v)
    (hUuids : IsUuids s.heap b.scheme v content) (hSmall : ∀ us ∈ content, us.length < 2 ^ 30)
    (hFresh : ∀ us ∈ content, ∃ k, some (s.draws k) ∉ us) :
    ((∀ us ∈ content, none ∈ us → s.locals "java" = none) →
      ∃ z, (∀ us ∈ content, some z ∉ us ∧ (halves z us : List (Value α)).length = 2 * us.length) ∧
        Ends p writer.body s fun t => Sent m s (collectionEntries z content) t ∧
          ∀ (u : State α) (rest : List (Entry α)), Ready (.of phase.receiver phase) u →
            u.parcel = collectionEntries z content ++ rest →
            Ends p (reader.declaring b.argument.type y) u
              (ReceivedUuids n y u rest b.scheme content)) ∧
      ∀ us ∈ content, none ∈ us → ∀ w, s.locals "java" = some w →
        ∃ fault, Stops p writer.body s fault := by
  have hWrite := Binding.emit?_of_code .write (Operation.write_of_create hCreate) hWriter
  have hRead := Binding.emit?_of_code .create hCreate hReader
  constructor
  · intro hJava
    obtain ⟨z, hz, hEnds⟩ :=
      writeCollection_ends (p := p) hWrite hs hJava hx hv hUuids hSmall hFresh
    refine ⟨z, fun us hMem => ⟨hz us hMem, length_halves z us⟩,
      hEnds.mono fun t hSent => ⟨hSent, ?_⟩⟩
    intro u rest hu hParcel
    exact createCollection_ends hRead hu hy hUuids hz hSmall hParcel
  · rintro us ⟨⟩ hNone w hJava
    exact ⟨_, writeCollection_stops hWrite hs hJava hx hv hUuids (hSmall us rfl) hNone⟩

/-- A returned list of identifiers. -/
private def sessions : Binding where
  owner := 0
  context := {}
  argument := ⟨.result, "List<UUID>", "_result", none⟩
  type := .mk "List" [.plain "UUID"] 0 none

/-- The list has an identifier twice, and null twice. -/
private def sessionIds : List (Option Uuid) := [some ⟨1, 2⟩, none, some ⟨1, 2⟩, none]

/-- The first identifier to be drawn is in the list, and the others are not. -/
private def sessionDraws (k : Nat) : Uuid := if k = 0 then ⟨1, 2⟩ else ⟨3, 4⟩

private def returningSessions : State Unit := returning [.list (sessionIds.map nullable)] sessionDraws

theorem create_inverts_writeUuids_sessions : ∃ writer reader z,
    sessions.code .dispatcher .post "_result" 0 = .ok (writer, 1) ∧
    sessions.code .proxy .post "_result" 1 = .ok (reader, 2) ∧ some z ∉ sessionIds ∧
    Ends bare writer.body returningSessions fun t => Sent 0 returningSessions
        [⟨"LongArray", .copy (.array (halves z sessionIds))⟩, number 1, half z.upper, half z.lower] t ∧
      ∀ (u : State Unit) (rest : List (Entry Unit)), Ready .proxyReply u →
        u.parcel = [⟨"LongArray", .copy (.array (halves z sessionIds))⟩, number 1, half z.upper,
          half z.lower] ++ rest →
        Ends bare (reader.declaring "List<UUID>" "_result") u
          (ReceivedUuids 1 "_result" u rest (.uuidList (.plain "UUID")) (some sessionIds)) := by
  have hUuids : IsUuids returningSessions.heap sessions.scheme (.ref 0) (some sessionIds) :=
    .list rfl
  have hSmall : ∀ us ∈ some sessionIds, us.length < 2 ^ 30 := by simp [sessionIds]
  have hFresh : ∀ us ∈ some sessionIds, ∃ k, some (sessionDraws k) ∉ us := by
    rintro us ⟨⟩
    exact ⟨1, by decide⟩
  obtain ⟨z, hz, hEnds⟩ := (create_inverts_writeUuids bare sessions .post rfl rfl rfl
    (usable_result _ _) (usable_result _ _) (ready_returning _ sessionDraws)
    rfl hUuids hSmall hFresh).1 fun _ _ _ => rfl
  exact ⟨_, _, z, rfl, rfl, (hz _ rfl).1, hEnds⟩

/-- A list of identifiers that has the name of the package of their class. -/
private def homonymousSessions : Binding where
  owner := 0
  context := { imports := [⟨.plain, "java.util.List"⟩, ⟨.plain, "java.util.UUID"⟩] }
  argument := ⟨.into, "List<UUID>", "java", none⟩
  type := .mk "List" [.plain "UUID"] 0 none

/-- A proxy that is about to send the list. -/
private def sendingSessions : State Unit where
  locals x := if x = "java" then some (.ref 0) else if x = "_data" then some .parcel else none
  heap := [.list (sessionIds.map nullable)]
  parcel := []
  draws := sessionDraws

/-- The variable of an argument hides the package of the class that draws the substitute.
The list has absent identifiers, drawing would come to one outside of the list, and the
proxy cannot write it. -/
theorem argument_hides_random : ∃ writer reader,
    homonymousSessions.code .proxy .pre "java" 1 = .ok (writer, 2) ∧
    homonymousSessions.code .dispatcher .pre "_arg0" 0 = .ok (reader, 1) ∧
    IsUuids sendingSessions.heap homonymousSessions.scheme (.ref 0) (some sessionIds) ∧
    sessionIds.length < 2 ^ 30 ∧ some (sendingSessions.draws 1) ∉ sessionIds ∧
    Stops bare writer.body sendingSessions .noSuchMember := by
  have hUuids : IsUuids sendingSessions.heap homonymousSessions.scheme (.ref 0)
      (some sessionIds) := .list rfl
  have hReady : Ready .proxyData sendingSessions := by
    refine ⟨rfl, fun name hDot => ?_⟩
    have hJava : name ≠ "java" := by rintro rfl; revert hDot; decide
    have hData : name ≠ "_data" := by rintro rfl; revert hDot; decide
    simp [sendingSessions, hJava, hData]
  have hUsable : Usable .proxyData 1 "java" :=
    ⟨by decide, by decide, fun r => by cases r <;> decide⟩
  refine ⟨_, _, rfl, rfl, hUuids, by decide, by decide, ?_⟩
  exact writeCollection_stops (w := .ref 0) rfl hReady rfl hUsable rfl hUuids (by decide)
    (by decide)

end BinderIdl.Wire
