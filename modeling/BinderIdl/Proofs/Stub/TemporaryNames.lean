import BinderIdl.Proofs.Marshal.Emission
import BinderIdl.Proofs.Marshal.Independence
import BinderIdl.Proofs.Marshal.Temporary
import BinderIdl.Proofs.Stub.Calls

/-! The temporaries of a file. Each piece of code that declares temporaries takes the
next number for them, and no other code takes one. So the numbers of a pass are
counted through without gaps, and no two temporaries of a file share a name. -/
namespace BinderIdl

open Java

/-- The count before and after a piece of code. Code with temporaries declares them
in different roles and with the next number, and it alone is counted. -/
inductive Java.Fragment.Takes (f : Fragment) : Nat → Nat → Prop
  | none {n : Nat} (hDeclared : f.declared = []) : Takes f n n
  | next {n : Nat} (role : Role) (roles : List Role) (hRoles : (role :: roles).Nodup)
      (hDeclared : f.declared = (role :: roles).map (Temporaries.after n).name) : Takes f n (n + 1)

/-- Code declares only temporaries with its number. -/
theorem Java.Fragment.Takes.exists_name {f : Fragment} {n n' : Nat} (h : f.Takes n n') {x : String}
    (hx : x ∈ f.declared) : ∃ r, x = (Temporaries.after n).name r := by
  cases h with
  | none hDeclared =>
      rw [hDeclared] at hx
      cases hx
  | next role roles _ hDeclared =>
      rw [hDeclared] at hx
      obtain ⟨r, -, rfl⟩ := List.mem_map.mp hx
      exact ⟨r, rfl⟩

theorem Emission.Tidy.takes {e : Emission} {x : String} {n n' : Nat} {f : Fragment} (h : e.Tidy)
    (hEmit : e.emit? x n = some (f, n')) : f.Takes n n' := by
  cases h with
  | refused => cases hEmit
  | plain _ hDeclared =>
      cases hEmit
      exact .none (hDeclared x)
  | scratch role roles hRoles _ hDeclared =>
      cases hEmit
      exact .next role roles hRoles (hDeclared _ x)

theorem Binding.takes_of_code {b : Binding} {site : Site} {phase : Phase} {x : String} {n n' : Nat}
    {f : Fragment} (h : b.code site phase x n = .ok (f, n')) : f.Takes n n' := by
  have hEmit := emit?_cell_of_code h
  obtain hCell | hTidy := b.scheme.cell_cases b.declared b.argument.direction site phase
  · rw [hCell] at hEmit
    cases hEmit
    exact .none rfl
  · exact hTidy.takes hEmit

/-- The count before and after several pieces of code. -/
inductive Numbered : Nat → List Fragment → Nat → Prop
  | nil {n : Nat} : Numbered n [] n
  | cons {n n' n'' : Nat} {f : Fragment} {fs : List Fragment} (hFirst : f.Takes n n')
      (hRest : Numbered n' fs n'') : Numbered n (f :: fs) n''

namespace Numbered

variable {n n' : Nat} {fs : List Fragment}

/-- The code that declares something has the numbers in order. -/
theorem exists_roles (h : Numbered n fs n') :
    ∃ groups : List (List Role), n + groups.length = n' ∧
      (∀ roles ∈ groups, roles ≠ [] ∧ roles.Nodup) ∧
      (fs.map Fragment.declared).filter (· ≠ []) =
        (groups.zipIdx n).map fun p => p.1.map (Temporaries.after p.2).name := by
  induction h with
  | nil => exact ⟨[], rfl, by simp, rfl⟩
  | cons hFirst hRest ih =>
      obtain ⟨groups, hCount, hGroups, hDeclared⟩ := ih
      cases hFirst with
      | none hNone =>
          refine ⟨groups, hCount, hGroups, ?_⟩
          simpa [hNone] using hDeclared
      | next role roles hRoles hSome =>
          refine ⟨(role :: roles) :: groups, by simp only [List.length_cons]; omega, ?_, ?_⟩
          · intro roles' hMem
            obtain rfl | hMem := List.mem_cons.mp hMem
            · exact ⟨by simp, hRoles⟩
            · exact hGroups roles' hMem
          · rw [List.map_cons, List.filter_cons_of_pos (by simp [hSome]), hDeclared, hSome,
              List.zipIdx_cons]
            rfl

/-- No two declared variables share a name, and each is a temporary with a number from
the first one on. -/
theorem nodup_declared (h : Numbered n fs n') :
    (fs.flatMap Fragment.declared).Nodup ∧ ∀ x ∈ fs.flatMap Fragment.declared,
      ∃ k r, n ≤ k ∧ x = (Temporaries.after k).name r := by
  induction h with
  | nil => exact ⟨List.nodup_nil, by simp⟩
  | @cons n _ _ f fs hFirst hRest ih =>
      obtain ⟨hNodup, hNames⟩ := ih
      have hOwn : ∀ x ∈ f.declared, ∃ r, x = (Temporaries.after n).name r :=
        fun x hx => hFirst.exists_name hx
      rw [List.flatMap_cons]
      cases hFirst with
      | none hNone =>
          rw [hNone, List.nil_append]
          exact ⟨hNodup, hNames⟩
      | next role roles hRoles hSome =>
          refine ⟨List.nodup_append.mpr ⟨?_, hNodup, ?_⟩, ?_⟩
          · rw [hSome]
            exact List.Pairwise.map _ (fun r r' hne he =>
              hne (Temporaries.name_role_inj.mp he)) hRoles
          · -- Later temporaries have larger numbers.
            intro x hx y hy
            obtain ⟨r, rfl⟩ := hOwn x hx
            obtain ⟨k, r', hk, rfl⟩ := hNames y hy
            intro he
            have := (Temporaries.name_inj.mp he).1
            omega
          · intro x hx
            obtain hx | hx := List.mem_append.mp hx
            · obtain ⟨r, rfl⟩ := hOwn x hx
              exact ⟨n, r, Nat.le_refl n, rfl⟩
            · obtain ⟨k, r, hk, rfl⟩ := hNames x hx
              exact ⟨k, r, by omega, rfl⟩

end Numbered

/-- All bindings of a desk belong to one writer. A desk that was used for nothing, or
only by this writer, is such a desk. -/
def Desk.OwnedBy (d : Desk) (number : Nat) : Prop :=
  ∀ slot b, d.binding? slot = some b → b.owner = number

namespace Writer

variable {w : Writer} {d e : Desk} {c : Call} {cs : List Call}

/-- A call counts its code in the context of its argument, and nothing else. -/
theorem Encoded.takes {slot : Slot} {a : Argument} {site : Site} {phase : Phase} {name : String}
    {f : Fragment} (h : w.Encoded slot a site phase name d f e) :
    ∃ b, e.binding? slot = some b ∧ f.Takes (d.counts b.owner) (e.counts b.owner) ∧
      ∀ k, k ≠ b.owner → e.counts k = d.counts k := by
  obtain ⟨b, count, hBinds, hCode, hCounts⟩ := h
  refine ⟨b, by rw [hBinds.bindings, if_pos rfl], ?_, fun k hk => ?_⟩
  · have hCount : e.counts b.owner = count := by simp [hCounts, Desk.setCount]
    rw [hCount]
    exact Binding.takes_of_code hCode
  · simp [hCounts, Desk.setCount, hk]

theorem Encoded.ownedBy {slot : Slot} {a : Argument} {site : Site} {phase : Phase} {name : String}
    {f : Fragment} (h : w.Encoded slot a site phase name d f e) (hOwned : d.OwnedBy w.number) :
    e.OwnedBy w.number := by
  obtain ⟨b, count, hBinds, -, -⟩ := h
  have hOwner : b.owner = w.number := by
    obtain hOld | ⟨-, hNew⟩ := hBinds.origin
    · exact hOwned slot b hOld
    · exact (Binding.of_make hNew).1
  intro slot' b' hb'
  rw [hBinds.bindings] at hb'
  by_cases hs : slot' = slot
  · rw [if_pos hs] at hb'
    cases hb'
    exact hOwner
  · rw [if_neg hs] at hb'
    exact hOwned slot' b' hb'

end Writer

/-- The code of a pass has the numbers of the writer's count in order. -/
theorem Calls.numbered {w : Writer} {d e : Desk} {cs : List Call} (h : Calls w d cs e)
    (hOwned : d.OwnedBy w.number) :
    e.OwnedBy w.number ∧ Numbered (d.counts w.number) (cs.map Call.code) (e.counts w.number) := by
  induction h with
  | nil => exact ⟨hOwned, .nil⟩
  | cons hCall hRest ih =>
      have hNext := hCall.ownedBy hOwned
      obtain ⟨b, hb, hTakes, -⟩ := hCall.takes
      rw [hNext _ b hb] at hTakes
      obtain ⟨hLast, hNumbered⟩ := ih hNext
      exact ⟨hLast, .cons hTakes hNumbered⟩

theorem Java.Fragment.Takes.count {f : Fragment} {n n' : Nat} (h : f.Takes n n') :
    n' = n + if f.declared = [] then 0 else 1 := by
  cases h with
  | none hDeclared => simp [hDeclared]
  | next role roles _ hDeclared => simp [hDeclared]

/-- A call that gives code adds one to the count of its argument's context if the code
has temporaries, and a call that fails adds nothing to any count. -/
theorem Writer.encode_counts (w : Writer) (slot : Slot) (a : Argument) (site : Site) (phase : Phase)
    (name : String) (d : Desk) :
    Encoding.Leads (w.encode slot a site phase name) d
      (fun f e => ∃ b, e.binding? slot = some b ∧ ∀ k, e.counts k =
        d.counts k + if k = b.owner ∧ f.declared ≠ [] then 1 else 0)
      (·.counts = d.counts) := by
  refine encode_leads.mono (fun f e hEncoded => ?_) fun _ h => h
  obtain ⟨b, hb, hTakes, hOther⟩ := hEncoded.takes
  refine ⟨b, hb, fun k => ?_⟩
  by_cases hk : k = b.owner
  · rw [hk, hTakes.count]
    by_cases hNone : f.declared = [] <;> simp [hNone]
  · rw [hOther k hk, if_neg (fun h => hk h.1)]
    rfl

/-- The code of a method, in the order in which it was encoded. -/
def MethodCode.fragments (m : MethodCode) : List Fragment := m.calls.map Call.code

/-- The temporaries of some code, in a pass that has counted to a number. -/
structure Hygienic (codes : List Fragment) (count : Nat) : Prop where
  /-- The pieces of code that have temporaries have them in different roles, and have
  the numbers from one up to the count. -/
  numbers : ∃ groups : List (List Role), groups.length = count ∧
    (∀ roles ∈ groups, roles ≠ [] ∧ roles.Nodup) ∧
    (codes.map Fragment.declared).filter (· ≠ []) =
      groups.zipIdx.map fun p => p.1.map (Temporaries.after p.2).name
  nodup : (codes.flatMap Fragment.declared).Nodup
  /-- No temporary has a name that the code around it uses. -/
  reserved : ∀ x ∈ codes.flatMap Fragment.declared,
    x ∉ ["_data", "_reply", "_result", "_task"] ∧ ∀ k, x ≠ argumentLocal k

theorem Numbered.hygienic {codes : List Fragment} {count : Nat} (h : Numbered 0 codes count) :
    Hygienic codes count := by
  obtain ⟨groups, hCount, hGroups⟩ := h.exists_roles
  obtain ⟨hNodup, hNames⟩ := h.nodup_declared
  refine ⟨⟨groups, by omega, hGroups⟩, hNodup, fun x hx => ?_⟩
  obtain ⟨k, r, -, rfl⟩ := hNames x hx
  refine ⟨?_, fun n => Temporaries.name_ne_argumentLocal k n r⟩
  simp only [List.mem_cons, List.not_mem_nil, or_false, not_or]
  exact ⟨Temporaries.name_ne_parcel k r .proxyData, Temporaries.name_ne_parcel k r .proxyReply,
    Temporaries.name_ne_resultName k r, Temporaries.name_ne_task k r⟩

/-- The temporaries of a file by a writer whose arguments no other writer has encoded
before. -/
theorem hygienic_of_encodeInterface (w : Writer) {i : Interface} {banner : Banner} {d e : Desk}
    {text : String} (hDesk : d.OwnedBy w.number)
    (hFile : w.encodeInterface i banner d = .ok text e) :
    (∀ slot a site phase name d', Encoding.Leads (w.encode slot a site phase name) d'
      (fun f e' => ∃ b, e'.binding? slot = some b ∧ ∀ k, e'.counts k =
        d'.counts k + if k = b.owner ∧ f.declared ≠ [] then 1 else 0) (·.counts = d'.counts)) ∧
    ∃ ms, text = i.fileText banner ms ∧ ms.map MethodCode.method = i.methods ∧
      Hygienic (ms.flatMap MethodCode.fragments) (e.counts w.number) ∧ e.OwnedBy w.number := by
  refine ⟨w.encode_counts, ?_⟩
  obtain ⟨ms, hMethods, rfl⟩ := Writer.encodeMethods_of_encodeInterface hFile
  obtain ⟨hCovers, e', hCalls, rfl⟩ := (w.encodeMethods_leads i d).of_ok hMethods
  obtain ⟨hOwned, hNumbered⟩ := hCalls.numbered hDesk
  have hCodes : ms.flatMap MethodCode.fragments = (ms.flatMap MethodCode.calls).map Call.code := by
    rw [List.map_flatMap]
    rfl
  have hStart : (d.setCount w.number 0).counts w.number = 0 := if_pos rfl
  rw [hStart, ← hCodes] at hNumbered
  exact ⟨ms, rfl, hCovers.map_method, hNumbered.hygienic, hOwned⟩

/-- An interface with two methods of one name. Arrays of identifiers need temporaries in
all four places, and numbers need none. -/
private def sessionsInterface : Interface where
  package := "demo"
  imports := []
  javadoc := none
  modifiers := []
  name := "ISessions"
  typeBlock := none
  typeParameters := []
  methods := [
    { name := "renew", returnType := "List<UUID>"
      arguments := [⟨.inout, "UUID[]", "ids", none⟩, ⟨.into, "int", "count", none⟩]
      modifiers := [], javadoc := none, position := 0
      result := some ⟨.result, "List<UUID>", "_result", none⟩ },
    { name := "renew", returnType := "void", arguments := [⟨.out, "UUID[]", "ids", none⟩]
      modifiers := [], javadoc := none, position := 0, result := none }]

theorem hygienic_of_encodeInterface_sessions : ∃ text e ms,
    Writer.encodeInterface ⟨0, {}⟩ sessionsInterface {} {} = .ok text e ∧ e.counts 0 = 9 ∧
    text = sessionsInterface.fileText {} ms ∧
    Hygienic (ms.flatMap MethodCode.fragments) 9 := by
  have hAnswer :
      ((Writer.encodeInterface ⟨0, {}⟩ sessionsInterface {}).answer {}).toBool = true := by
    decide +kernel
  have hCount : ((Writer.encodeInterface ⟨0, {}⟩ sessionsInterface {}).desk {}).counts 0 = 9 := by
    decide +kernel
  obtain ⟨text, e, hFile⟩ := Encoding.exists_of_answer hAnswer
  rw [Encoding.desk_of_ok hFile] at hCount
  have hDesk : Desk.OwnedBy {} 0 := fun _ _ h => by cases h
  obtain ⟨-, ms, hText, -, hHygienic, -⟩ := hygienic_of_encodeInterface ⟨0, {}⟩ hDesk hFile
  exact ⟨text, e, ms, hFile, hCount, hText, hCount ▸ hHygienic⟩

end BinderIdl
