import Mathlib.Data.List.Pairwise
import BinderIdl.Proofs.Project.Plan

/-! The order of the updates of a run. What one update writes is nothing that another looks
at, so all orders have the same outcomes and leave the same files, and a second run changes
nothing. It takes that nothing is read in the folder of the generated files. -/
namespace BinderIdl

open Text (Loose loose)

namespace Project

variable {p : Project} {current : Place} {t t₀ : FileTree} {us : List Path}
  {outcome : Path → Outcome} {patch : Path → Patch} {u v : Path} {q : Place} {P : Patch}
  {w : Workshop}

/-- A new folder is on the way to a generated file. -/
theorem Change.of_folder (h : p.Change current t₀ u P) (hq : q ∈ P.folders) :
    t₀.follow (p.folder.start current) p.folder.names = .ok (p.folder.destination current) ∧
      t₀.get? (p.folder.destination current) = some .folder ∧
      (∀ name ∈ below u, FileName.Visible name) ∧
      ∃ first, first <+: below u ∧ q = p.folder.destination current ++ first := by
  cases h with
  | idle => cases hq
  | write hWay hReady hFits hVisible =>
      refine ⟨hWay, hReady.folder, fun name hName => hVisible name (List.mem_append_left _ hName), ?_⟩
      by_cases hBlocked : t₀.Blocked (p.folder.destination current) (below u)
      · rw [hFits.blocked hBlocked] at hq
        cases hq
      · rw [hFits.folders hBlocked] at hq
        exact Place.mem_descent.mp hq

/-- A new file is the generated one. -/
theorem Change.of_file (h : p.Change current t₀ u P) {c : ByteArray} (hFile : P.file = some (q, c)) :
    t₀.follow (p.folder.start current) p.folder.names = .ok (p.folder.destination current) ∧
      FileName.Visible ((p.target u).name.bytes?.getD []) ∧
      q = p.spot current u ∧ t₀.get? q ≠ some .folder := by
  cases h with
  | idle => cases hFile
  | write hWay hReady hFits hVisible =>
      exact ⟨hWay, hVisible _ (by simp), hFits.file q c hFile⟩

/-- Updates with their outcomes and changes, where no generated file is in the way of
another. -/
structure Batch (p : Project) (current : Place) (t₀ : FileTree) (us : List Path)
    (outcome : Path → Outcome) (patch : Path → Patch) : Prop where
  findable : ∀ u ∈ us, p.Findable u
  planned : ∀ u ∈ us, p.Planned current t₀ u (outcome u) (patch u)
  apart : ∀ u ∈ us, ∀ v ∈ us, u ≠ v → ¬(p.target u).names <+: (p.target v).names

/-- A tree in the middle of some updates. -/
structure Midway (us : List Path) (patch : Path → Patch) (t₀ t : FileTree) : Prop where
  rooted : FileTree.Rooted t.get?
  trace : ∀ q, Patch.Trace patch us t₀.get? t.get? q

/-- A run that only updates is what its updates are. -/
theorem run_of_mapM (hUsual : p.config.Usual) (hLog : w.log = none) {texts : List String}
    {Q : List Outcome → FileTree → Prop}
    (h : ∀ w₁, w.Alike w₁ → ∃ os w₂, (p.kept w.current texts).mapM p.update w₁ = .ok os w₂ ∧
      Steady w₁ w₂ ∧ Q os w₂.tree) :
    ∃ os w', p.run texts [] w =
        .ok { generated := donePaths os, failures := failures os } w' ∧
      Steady w w' ∧ Q os w'.tree := by
  obtain ⟨w₁, hFilter, hAlike⟩ := filterSources_eq hUsual hLog texts
  obtain ⟨os, w₂, hMap, hSteady, hQ⟩ := h w₁ hAlike
  have hLog₂ := (hSteady.log.trans hAlike.log).trans hLog
  obtain ⟨w₃, hFilter', hAlike'⟩ := filterSources_eq hUsual hLog₂ []
  refine ⟨os, w₃, ?_, ((Steady.of_alike hAlike).trans hSteady).trans (.of_alike hAlike'),
    hAlike'.tree ▸ hQ⟩
  rw [Project.run, Work.bind_of_ok hFilter, Work.bind_of_ok hMap, Work.bind_of_ok hFilter']
  show EStateM.Result.ok _ w₃ = _
  simp [donePaths, failures]

namespace Batch

/-- No generated file is on the way to another. -/
theorem spot_ne (h : p.Batch current t₀ us outcome patch) (hu : u ∈ us) (hv : v ∈ us)
    {first : List FileName} (hFirst : first <+: below v) :
    p.spot current u ≠ p.folder.destination current ++ first := by
  intro hEq
  by_cases hSame : u = v
  · subst hSame
    have hLength := hFirst.length_le
    have hLengths := congrArg List.length hEq
    simp only [spot, AtomicWrite.goal, List.length_append, List.length_singleton] at hLengths
    omega
  · apply h.apart u hu v hv hSame
    rw [← spot_prefix_iff current (h.findable u hu).toNamed (h.findable v hv).toNamed,
      hEq, spot, AtomicWrite.goal, List.append_assoc, List.prefix_append_right_inj]
    exact hFirst.trans (List.prefix_append _ _)

theorem patches_apart (h : p.Batch current t₀ us outcome patch) (hu : u ∈ us) (hv : v ∈ us)
    (hNe : u ≠ v) : (patch u).Apart (patch v) := by
  intro r c hFile
  obtain ⟨_, _, rfl, _⟩ := (h.planned u hu).change.of_file hFile
  constructor
  · intro hMem
    obtain ⟨_, _, _, first, hFirst, hEq⟩ := (h.planned v hv).change.of_folder hMem
    exact h.spot_ne hu hv hFirst hEq
  · rw [Option.eq_none_iff_forall_ne_some]
    intro c' hContent
    obtain ⟨_, _, hEq, _⟩ := (h.planned v hv).change.of_file (Patch.content?_eq_some.mp hContent)
    apply h.apart u hu v hv hNe
    rw [← spot_prefix_iff current (h.findable u hu).toNamed (h.findable v hv).toNamed,
      hEq]

/-- Folders stay folders. -/
theorem folder_of_midway (h : p.Batch current t₀ us outcome patch) (hMid : Midway us patch t₀ t)
    (hq : t₀.get? q = some .folder) : t.get? q = some .folder := by
  cases hMid.trace q with
  | same hSame => rw [hSame, hq]
  | folder hNone _ _ _ =>
      rw [hNone] at hq
      cases hq
  | file _ hv hFile => exact absurd hq ((h.planned _ hv).change.of_file hFile).2.2.2

/-- The updates change nothing outside the folder of the generated files. -/
theorem sameSources (h : p.Batch current t₀ us outcome patch) (hMid : Midway us patch t₀ t) :
    p.SameSources current (p.generatedPlace current) t₀ t where
  inside := List.prefix_refl _
  way := by
    by_cases hSame : t.get? = t₀.get?
    · exact FileTree.follow_congr fun first _ => congrFun hSame _
    · -- Something was written, so the folder of the project is there.
      obtain ⟨q, hq⟩ : ∃ q, t.get? q ≠ t₀.get? q := by
        simpa [funext_iff] using hSame
      have hWay : t₀.follow (p.folder.start current) p.folder.names =
          .ok (p.folder.destination current) := by
        cases hMid.trace q with
        | same hSame => exact absurd hSame hq
        | folder _ _ hv hMem => exact ((h.planned _ hv).change.of_folder hMem).1
        | file _ hv hFile => exact ((h.planned _ hv).change.of_file hFile).1
      rw [hWay]
      exact FileTree.follow_mono (fun q => h.folder_of_midway hMid) hWay
  elsewhere q hq := by
    cases hMid.trace q with
    | same hSame => exact hSame
    | folder hNone _ hv hMem =>
        obtain ⟨_, hFolder, _, first, hFirst, rfl⟩ := (h.planned _ hv).change.of_folder hMem
        rcases List.prefix_cons_iff.mp hFirst with rfl | ⟨rest, rfl, _⟩
        · rw [List.append_nil, hFolder] at hNone
          cases hNone
        · exact absurd (by simp [generatedPlace]) hq
    | file _ hv hFile =>
        rw [((h.planned _ hv).change.of_file hFile).2.2.1] at hq
        exact absurd (by simp [spot, AtomicWrite.goal, below, generatedPlace]) hq

/-- The updates change nothing that matters to the writing of a generated file. -/
theorem similar (h : p.Batch current t₀ us outcome patch) (hMid : Midway us patch t₀ t)
    (hu : u ∈ us) :
    AtomicWrite.Similar t₀ t (p.target u) (p.folder.destination current) (below u) where
  way first hFirst := by
    cases hMid.trace (p.folder.destination current ++ first) with
    | same hSame => exact FileTree.content?_congr hSame
    | folder hNone hFolder _ _ => simp only [FileTree.content?, hNone, hFolder]
    | file _ hv hFile =>
        have hEq := ((h.planned _ hv).change.of_file hFile).2.2.1
        exact absurd hEq.symm (h.spot_ne hv hu hFirst)
  hidden n := by
    have hHidden := AtomicWrite.not_visible_temporaryFile (h.findable u hu).target_sound n
    cases hMid.trace (p.folder.destination current ++ below u ++
        [AtomicWrite.temporaryFile (p.target u).name n]) with
    | same hSame => exact hSame
    | folder _ _ hv hMem =>
        obtain ⟨_, _, hVisible, first, hFirst, hEq⟩ := (h.planned _ hv).change.of_folder hMem
        rw [List.append_assoc] at hEq
        rw [← List.append_cancel_left hEq] at hFirst
        exact absurd (hVisible _ (hFirst.subset (by simp))) hHidden
    | file _ hv hFile =>
        obtain ⟨_, hVisible, hEq, _⟩ := (h.planned _ hv).change.of_file hFile
        obtain ⟨_, hName⟩ := List.append_inj' hEq rfl
        rw [← List.singleton_inj.mp hName] at hVisible
        exact absurd hVisible hHidden
  folderAt := by
    cases hMid.trace (p.spot current u) with
    | same hSame => simp only [FileTree.folderAt, hSame]
    | folder _ _ hv hMem =>
        obtain ⟨_, _, _, first, hFirst, hEq⟩ := (h.planned _ hv).change.of_folder hMem
        exact absurd hEq (h.spot_ne hu hv hFirst)
    | file hContent hv hFile =>
        have hNo := ((h.planned _ hv).change.of_file hFile).2.2.2
        rw [ne_eq, ← FileTree.folderAt_iff, Bool.not_eq_true] at hNo
        rw [hNo, FileTree.folderAt, hContent]

theorem agrees (h : p.Batch current t₀ us outcome patch) (hMid : Midway us patch t₀ t)
    (hu : u ∈ us) : p.Agrees current u t₀ t :=
  ⟨hMid.rooted, h.sameSources hMid, h.similar hMid hu⟩

/-- One more update leaves the tree in the middle of the updates. -/
theorem midway_apply (h : p.Batch current t₀ us outcome patch) (hMid : Midway us patch t₀ t)
    (hu : u ∈ us) {t' : FileTree} (hTree : t'.get? = (patch u).apply t.get?) :
    Midway us patch t₀ t' where
  rooted := by
    have hSimilar := h.similar hMid hu
    rw [hTree]
    generalize hPatch : patch u = P
    have hChange := hPatch ▸ (h.planned u hu).change
    cases hChange with
    | idle =>
        rw [Patch.apply_empty]
        exact hMid.rooted
    | write _ hReady hFits _ =>
        have hFolder := fun q => h.folder_of_midway (q := q) hMid
        exact hFits.rooted ⟨hMid.rooted, hFolder _ hReady.folder, hReady.down.mono hFolder⟩ hSimilar
  trace q := by
    rw [hTree]
    exact (hMid.trace q).apply hu

/-- One update in the middle of the updates. -/
theorem update (h : p.Batch current t₀ us outcome patch) (hu : u ∈ us) (hLog : w.log = none)
    (hCurrent : w.current = current) (hMid : Midway us patch t₀ w.tree) :
    ∃ w', p.update u w = .ok (outcome u) w' ∧ Steady w w' ∧
      w'.tree.get? = (patch u).apply w.tree.get? ∧ Midway us patch t₀ w'.tree := by
  obtain ⟨w', hUpdate, hSteady, hTree⟩ :=
    (h.planned u hu).result w hLog hCurrent (h.agrees hMid hu)
  exact ⟨w', hUpdate, hSteady, hTree, h.midway_apply hMid hu hTree⟩

/-- Some of the updates, in any order. -/
theorem mapM_update (h : p.Batch current t₀ us outcome patch) {as : List Path} (hAs : as ⊆ us)
    (hLog : w.log = none) (hCurrent : w.current = current)
    (hMid : Midway us patch t₀ w.tree) :
    ∃ w', as.mapM p.update w = .ok (as.map outcome) w' ∧ Steady w w' ∧
      w'.tree.get? = Patch.applyAll patch as w.tree.get? ∧ Midway us patch t₀ w'.tree := by
  induction as generalizing w with
  | nil => exact ⟨w, rfl, ⟨rfl, rfl⟩, rfl, hMid⟩
  | cons a as ih =>
      obtain ⟨w₁, hFirst, hSteady, hTree, hMid₁⟩ :=
        h.update (hAs List.mem_cons_self) hLog hCurrent hMid
      obtain ⟨w₂, hRest, hSteady', hTree', hMid₂⟩ :=
        ih (fun b hb => hAs (List.mem_cons_of_mem _ hb)) (hSteady.log.trans hLog)
          (hSteady.current.trans hCurrent) hMid₁
      refine ⟨w₂, ?_, hSteady.trans hSteady', ?_, hMid₂⟩
      · rw [List.mapM_cons, Work.bind_of_ok hFirst, Work.bind_of_ok hRest]
        rfl
      · rw [hTree', hTree, Patch.applyAll_cons]

/-- A run of some of the updates, in any order. -/
theorem run (h : p.Batch current t₀ us outcome patch) (hUsual : p.config.Usual)
    {texts : List String} (hTexts : p.kept current texts ⊆ us) (hLog : w.log = none)
    (hCurrent : w.current = current) (hMid : Midway us patch t₀ w.tree) :
    ∃ w', p.run texts [] w = .ok {
        generated := donePaths ((p.kept current texts).map outcome)
        failures := failures ((p.kept current texts).map outcome) } w' ∧
      Steady w w' ∧ w'.tree.get? = Patch.applyAll patch (p.kept current texts) w.tree.get? ∧
      Midway us patch t₀ w'.tree := by
  subst hCurrent
  obtain ⟨os, w', hRun, hSteady, rfl, hTree, hMid'⟩ := run_of_mapM hUsual hLog
    (Q := fun os t => os = (p.kept w.current texts).map outcome ∧
      t.get? = Patch.applyAll patch (p.kept w.current texts) w.tree.get? ∧ Midway us patch t₀ t)
    (by
      intro w₁ hAlike
      obtain ⟨w₂, hMap, hSteady, hTree, hMid₂⟩ := h.mapM_update hTexts (hAlike.log.trans hLog)
        hAlike.current (hAlike.tree ▸ hMid)
      rw [hAlike.tree] at hTree
      exact ⟨_, w₂, hMap, hSteady, rfl, hTree, hMid₂⟩)
  exact ⟨w', hRun, hSteady, hTree, hMid'⟩

end Batch

/-- Neither of two generated files has the path of the other or a path above it. -/
def Apart (p : Project) (u v : Path) : Prop :=
  ¬(p.target u).names <+: (p.target v).names ∧ ¬(p.target v).names <+: (p.target u).names

instance : Decidable (p.Apart u v) := inferInstanceAs (Decidable (_ ∧ _))

instance : Std.Symm p.Apart := ⟨fun _ _ h => ⟨h.2, h.1⟩⟩

theorem pairwise_apart_iff (hUsual : p.config.Usual) (hNamed : ∀ u ∈ us, p.Named u)
    (w : Workshop) : us.Pairwise p.Apart ↔ us.Pairwise fun u v => ∀ a b,
      p.generatedPath u w = .ok a w → p.generatedPath v w = .ok b w →
      ¬a.names <+: b.names ∧ ¬b.names <+: a.names := by
  have hTarget : ∀ u ∈ us, p.generatedPath u w = .ok (p.target u) w := fun u hu =>
    generatedPath_eq hUsual (hNamed u hu).root (hNamed u hu).plain w
  apply List.Pairwise.iff_of_mem
  intro u v hu hv
  rw [hTarget u hu, hTarget v hv]
  constructor
  · intro h a b ha hb
    cases ha
    cases hb
    exact h
  · exact fun h => h _ _ rfl rfl

theorem exists_batch (hConfig : p.config = {}) (hRooted : FileTree.Rooted t₀.get?)
    (hFindable : ∀ u ∈ us, p.Findable u)
    (hReads : ∀ u ∈ us, ∀ r ∈ p.reads u t₀ current, p.Passes current (p.generatedPlace current) r)
    (hApart : us.Pairwise p.Apart) :
    ∃ outcome patch, p.Batch current t₀ us outcome patch := by
  have hPlanned : ∀ u, ∃ o P, u ∈ us → p.Planned current t₀ u o P := by
    intro u
    by_cases hu : u ∈ us
    · obtain ⟨o, P, h⟩ := exists_planned hConfig (hFindable u hu) hRooted (hReads u hu)
      exact ⟨o, P, fun _ => h⟩
    · exact ⟨.nothing, {}, fun h => absurd h hu⟩
  choose outcome patch hPlan using hPlanned
  exact ⟨outcome, patch, hFindable, hPlan, fun u hu v hv hNe => (hApart.forall hu hv hNe).1⟩

theorem donePaths_perm {os os' : List Outcome} (h : os.Perm os') :
    (donePaths os).Perm (donePaths os') := h.filterMap _

theorem failures_perm {os os' : List Outcome} (h : os.Perm os') :
    (failures os).Perm (failures os') := h.filterMap _

theorem mem_failures {os : List Outcome} {f : ProjectFault} :
    (u, f) ∈ failures os ↔ Outcome.failed u f ∈ os := by
  rw [failures, List.mem_filterMap]
  constructor
  · rintro ⟨o, hMem, hFailed⟩
    cases o with
    | failed r g =>
        cases hFailed
        exact hMem
    | done r => cases hFailed
    | nothing => cases hFailed
  · exact fun h => ⟨_, h, rfl⟩

theorem kept_perm {texts texts' : List String} (h : texts.Perm texts') :
    (p.kept current texts).Perm (p.kept current texts') := h.flatMap_right _

/-- What keeps the text of a generated file from being made. -/
def draftFault? (p : Project) (path : Path) (t : FileTree) (current : Place) :
    Option ProjectFault :=
  match p.draft path t current with
  | .error fault => some fault
  | .ok _ => none

theorem draftFault?_eq_some {f : ProjectFault} :
    p.draftFault? u t current = some f ↔ p.draft u t current = .error f := by
  rw [draftFault?]
  cases p.draft u t current <;> simp

theorem content?_eq_some {c : ByteArray} : t.content? q = some c ↔ t.get? q = some (.file c) := by
  rw [FileTree.content?]
  split <;> simp_all

theorem blocked_iff {place : Place} {names : List FileName} :
    t.Blocked place names ↔ ∃ first ∈ names.inits, (t.content? (place ++ first)).isSome := by
  simp only [FileTree.Blocked, List.mem_inits, Option.isSome_iff_exists, content?_eq_some,
    exists_and_left]

instance (place : Place) (names : List FileName) : Decidable (t.Blocked place names) :=
  decidable_of_iff _ blocked_iff.symm

theorem mapM_pair {o o' : Outcome} {w₁ w₂ : Workshop} (h : p.update u w = .ok o w₁)
    (h' : p.update v w₁ = .ok o' w₂) : [u, v].mapM p.update w = .ok [o, o'] w₂ := by
  rw [List.mapM_cons, Work.bind_of_ok h, List.mapM_cons, List.mapM_nil, Work.bind_of_ok]
  · rfl
  · exact Work.bind_of_ok h'

/-- A definition that fails in one way, and in another once the folders of another generated
file are there. -/
structure Upset (p : Project) (current : Place) (t : FileTree) (u v : Path)
    (f f' : ProjectFault) : Prop where
  rooted : FileTree.Rooted t.get?
  text : ∃ text, p.draft u t current = .ok (some text)
  free : ¬t.Blocked (p.folder.destination current) (below u)
  folder : (p.folder.start current).Avoids p.folder.names (p.spot current u)
  reads : ∀ r ∈ p.reads v (t.makeFolders current (p.target u).parent).2 current,
    p.Passes current (p.spot current u) r
  before : p.draft v t current = .error f
  after : p.draft v (t.makeFolders current (p.target u).parent).2 current = .error f'

namespace Upset

variable {f f' : ProjectFault}

/-- The folders make the difference, not the file. -/
theorem draft_after (h : p.Upset current t₀ u v f f') (hUsual : p.config.Usual)
    (hv : p.Findable v) (ht : ∀ q, q ≠ p.spot current u →
      t.get? q = (t₀.makeFolders current (p.target u).parent).2.get? q) :
    p.draft v t current = .error f' := by
  have hPlain : p.folder.Plain := fun part hPart =>
    have hIs := hv.names part (List.mem_append_left _ hPart)
    ⟨hIs.ne_nil, hIs.slash⟩
  have hElsewhere : ∀ q, ¬p.spot current u <+: q →
      t.get? q = (t₀.makeFolders current (p.target u).parent).2.get? q := by
    intro q hq
    apply ht
    rintro rfl
    exact hq (List.prefix_refl _)
  rw [← h.after]
  refine draft_congr ⟨?_, ?_, hElsewhere⟩ hUsual hPlain hv.plain h.reads
  · simp [generatedPlace, spot, AtomicWrite.goal, below]
  · exact FileTree.follow_congr fun first hFirst => hElsewhere _ (h.folder first hFirst)

theorem mapM_after (h : p.Upset w.current w.tree u v f f') (hConfig : p.config = {})
    (hLog : w.log = none) (hu : p.Findable u) (hv : p.Findable v) (hNe : v ≠ u) (hFaults : f ≠ f') :
    ∃ os w', [u, v].mapM p.update w = .ok os w' ∧ Steady w w' ∧ Outcome.failed v f ∉ os := by
  have hUsual : p.config.Usual := hConfig ▸ Config.usual_default
  obtain ⟨text, hDraft⟩ := h.text
  obtain ⟨o, w₁, hFirst, hSteady, hTree⟩ :=
    update_of_text hConfig hu hLog h.rooted hDraft h.free
  have hAfter : p.draft v w₁.tree w₁.current = .error f' := by
    rw [hSteady.current]
    exact h.draft_after hUsual hv hTree
  obtain ⟨w₂, hSecond, hAlike⟩ := update_of_fault hUsual hv (hSteady.log.trans hLog) hAfter
  refine ⟨_, w₂, mapM_pair hFirst hSecond, hSteady.trans (.of_alike hAlike), ?_⟩
  intro hMem
  rcases List.mem_pair.mp hMem with rfl | hLast
  · -- The first update fails, if at all, with its own path.
    obtain ⟨o, w', hOther, _, hUpdates⟩ := update_isolated hConfig hu hLog
    rw [hFirst] at hOther
    cases hOther
    cases hUpdates.effect
    exact hNe rfl
  · cases hLast
    exact hFaults rfl

theorem mapM_before (h : p.Upset w.current w.tree u v f f') (hConfig : p.config = {})
    (hLog : w.log = none) (hu : p.Findable u) (hv : p.Findable v) :
    ∃ os w', [v, u].mapM p.update w = .ok os w' ∧ Steady w w' ∧ Outcome.failed v f ∈ os := by
  obtain ⟨w₁, hFirst, hAlike⟩ := update_of_fault (hConfig ▸ Config.usual_default) hv hLog h.before
  obtain ⟨o, w₂, hSecond, hSteady, _⟩ := update_isolated hConfig hu (hAlike.log.trans hLog)
  exact ⟨_, w₂, mapM_pair hFirst hSecond, (Steady.of_alike hAlike).trans hSteady,
    List.mem_cons_self⟩

/-- The failures are not the same in both orders. -/
theorem run (h : p.Upset w.current w.tree u v f f') (hConfig : p.config = {})
    (hLog : w.log = none) (hu : p.Findable u) (hv : p.Findable v) (hNe : v ≠ u) (hFaults : f ≠ f')
    {texts texts' : List String} (hTexts : p.kept w.current texts = [u, v])
    (hTexts' : p.kept w.current texts' = [v, u]) :
    ∃ report w₁ report' w₂, p.run texts [] w = .ok report w₁ ∧
      p.run texts' [] w = .ok report' w₂ ∧ ¬report'.failures.Perm report.failures := by
  have hUsual : p.config.Usual := hConfig ▸ Config.usual_default
  have hSame : ∀ {w₀}, w.Alike w₀ → p.Upset w₀.current w₀.tree u v f f' := by
    intro w₀ hAlike
    rw [hAlike.tree, hAlike.current]
    exact h
  have hAfter : ∀ w₀, w.Alike w₀ → ∃ os w', (p.kept w.current texts).mapM p.update w₀ = .ok os w' ∧
      Steady w₀ w' ∧ Outcome.failed v f ∉ os := by
    intro w₀ hAlike
    rw [hTexts]
    exact (hSame hAlike).mapM_after hConfig (hAlike.log.trans hLog) hu hv hNe hFaults
  have hBefore : ∀ w₀, w.Alike w₀ → ∃ os w', (p.kept w.current texts').mapM p.update w₀ = .ok os w' ∧
      Steady w₀ w' ∧ Outcome.failed v f ∈ os := by
    intro w₀ hAlike
    rw [hTexts']
    exact (hSame hAlike).mapM_before hConfig (hAlike.log.trans hLog) hu hv
  obtain ⟨os, w₁, hRun, _, hFirst⟩ :=
    run_of_mapM (Q := fun os _ => Outcome.failed v f ∉ os) hUsual hLog hAfter
  obtain ⟨os', w₂, hRun', _, hSecond⟩ :=
    run_of_mapM (Q := fun os _ => Outcome.failed v f ∈ os) hUsual hLog hBefore
  refine ⟨_, w₁, _, w₂, hRun, hRun', ?_⟩
  intro hPerm
  exact hFirst (mem_failures.mp (hPerm.subset (mem_failures.mpr hSecond)))

end Upset

end Project

/-- Updates in any order end with the same files, with the same generated files and with the
same failures, and updates that were made are made again without any change. It is assumed
that no generated file has the path of another or a path above it, and that no definition
and no type is looked for in the folder of the generated files. -/
theorem run_order_independent (p : Project) (hConfig : p.config = {}) (w : Workshop)
    (hLog : w.log = none) (hCurrent : w.current.Proper) (hRooted : FileTree.Rooted w.tree.get?)
    (updated shuffled : List String) (hPerm : shuffled.Perm updated)
    (hTexts : ∀ text ∈ updated, Char.ofNat 0 ∉ text.toList) (kept : List Path) (w₀ : Workshop)
    (hKept : p.filterSources updated w = .ok kept w₀)
    (hApart : kept.Pairwise fun u v => ∀ a b, p.generatedPath u w = .ok a w →
      p.generatedPath v w = .ok b w → ¬a.names <+: b.names ∧ ¬b.names <+: a.names)
    (hReads : ∀ u ∈ kept, ∀ r ∈ p.reads u w.tree w.current,
      p.Passes w.current (p.generatedPlace w.current) r) :
    ∃ report w₁ report' w₂ w₃, p.run updated [] w = .ok report w₁ ∧
      p.run shuffled [] w = .ok report' w₂ ∧ w₂.tree.get? = w₁.tree.get? ∧
      report'.generated.Perm report.generated ∧ report'.failures.Perm report.failures ∧
      p.run updated [] w₁ = .ok report w₃ ∧ w₃.tree.get? = w₁.tree.get? := by
  have hUsual : p.config.Usual := hConfig ▸ Config.usual_default
  obtain ⟨_, hFilter, _⟩ := Project.filterSources_eq hUsual hLog updated
  rw [hKept] at hFilter
  cases hFilter
  have hFindable : ∀ u ∈ p.kept w.current updated, p.Findable u := fun u hu =>
    Project.findable_of_kept hCurrent hTexts hu
  rw [← Project.pairwise_apart_iff hUsual fun u hu => (hFindable u hu).toNamed] at hApart
  obtain ⟨outcome, patch, hBatch⟩ : ∃ outcome patch,
      p.Batch w.current w.tree (p.kept w.current updated) outcome patch :=
    Project.exists_batch hConfig hRooted hFindable hReads hApart
  have hPatches : ∀ u ∈ p.kept w.current updated, ∀ v ∈ p.kept w.current updated, u ≠ v →
      (patch u).Apart (patch v) := fun u hu v hv => hBatch.patches_apart hu hv
  have hShuffled : (p.kept w.current shuffled).Perm (p.kept w.current updated) :=
    Project.kept_perm hPerm
  have hMid : Project.Midway (p.kept w.current updated) patch w.tree w.tree :=
    ⟨hRooted, fun _ => .same rfl⟩
  obtain ⟨w₁, hRun, hSteady, hTree, hMid₁⟩ :=
    hBatch.run hUsual (List.Subset.refl _) hLog rfl hMid
  obtain ⟨w₂, hRun', _, hTree', _⟩ := hBatch.run hUsual hShuffled.subset hLog rfl hMid
  obtain ⟨w₃, hAgain, _, hTree'', _⟩ := hBatch.run hUsual (List.Subset.refl _)
    (hSteady.log.trans hLog) hSteady.current hMid₁
  refine ⟨_, w₁, _, w₂, w₃, hRun, hRun', ?_, Project.donePaths_perm (hShuffled.map outcome),
    Project.failures_perm (hShuffled.map outcome), hAgain, ?_⟩
  · rw [hTree', hTree]
    exact (Patch.applyAll_perm hShuffled.symm hPatches _).symm
  · rw [hTree'', hTree]
    exact Patch.applyAll_idem hPatches _

/-- A place in a tree. -/
private def nodeAt (names : List String) (node : Node) : Place × Node :=
  (names.map FileName.ofString, node)

/-- A project in the current folder. -/
private def joint : Project where
  folder := Path.read (loose "project")
  config := {}
  commandLine := none
  known := []

/-- Two definitions, of which one uses a source that is written by hand, and an empty one. -/
private def ordered : Workshop where
  tree := ⟨[
    nodeAt ["project"] .folder, nodeAt ["project", "src"] .folder,
    nodeAt ["project", "src", "demo"] .folder,
    nodeAt ["project", "src", "demo", "IA.aidl2"] (.file
      "package demo; interface IA \x7b void put(in Point p); \x7d".toUTF8),
    nodeAt ["project", "src", "demo", "Point.java"] (.file "class Point".toUTF8),
    nodeAt ["project", "src", "demo", "IB.aidl2"] (.file "package demo; interface IB \x7b \x7d".toUTF8),
    nodeAt ["project", "src", "IEmpty.aidl2"] (.file ByteArray.empty)]⟩
  current := []

private def batch : List String :=
  ["project/src/demo/IA.aidl2", "project/src/demo/IB.aidl2", "project/src/IEmpty.aidl2"]

theorem run_order_independent_batch :
    ∃ report w₁ report' w₂ w₃, joint.run batch [] ordered = .ok report w₁ ∧
      joint.run batch.reverse [] ordered = .ok report' w₂ ∧ w₂.tree.get? = w₁.tree.get? ∧
      report'.generated.Perm report.generated ∧ report'.failures.Perm report.failures ∧
      joint.run batch [] w₁ = .ok report w₃ ∧ w₃.tree.get? = w₁.tree.get? := by
  obtain ⟨w₀, hKept, _⟩ :=
    Project.filterSources_eq (p := joint) (w := ordered) Config.usual_default rfl batch
  have hCurrent : ordered.current.Proper := nofun
  have hRooted : FileTree.Rooted ordered.tree.get? :=
    FileTree.rooted_of_nodes (by decide +kernel)
  have hTargets : (joint.kept [] batch).Pairwise joint.Apart := by decide +kernel
  have hReads : ∀ u ∈ joint.kept [] batch, ∀ r ∈ joint.reads u ordered.tree [],
      joint.Passes [] (joint.generatedPlace []) r := by decide +kernel
  refine run_order_independent joint rfl ordered rfl hCurrent hRooted batch batch.reverse
    (List.reverse_perm batch) (by decide +kernel) _ w₀ hKept ?_ hReads
  exact (Project.pairwise_apart_iff Config.usual_default
    (fun u hu => Project.named_of_kept hCurrent hu) ordered).mp hTargets

/-- Two definitions, of which the second can also be reached through the folder of the
generated files. -/
private def crossed : Workshop where
  tree := ⟨[
    nodeAt ["project"] .folder, nodeAt ["project", "src"] .folder,
    nodeAt ["project", "src", "demo"] .folder,
    nodeAt ["project", "src", "demo", "IA.aidl2"] (.file
      "package demo;\ninterface IA \x7b\n\x7d\n".toUTF8),
    nodeAt ["project", "src", "IB.aidl2"] (.file
      "package demo;\ninterface IB \x7b\n\x7d\n".toUTF8)]⟩
  current := []

/-- The second path leads through a folder that is made for the first generated file. -/
private def detour : List String :=
  ["project/src/demo/IA.aidl2", "project/src/../gen/demo/../../src/IB.aidl2"]

private def direct : Path := Path.read (loose "demo/IA.aidl2")

private def indirect : Path := Path.read (loose "../gen/demo/../../src/IB.aidl2")

/-- The failures of updates whose generated files are apart can depend on their order. -/
theorem run_order_dependent :
    (∃ kept w₀, joint.filterSources detour crossed = .ok kept w₀ ∧
      kept.Pairwise fun u v => ∀ a b, joint.generatedPath u crossed = .ok a crossed →
        joint.generatedPath v crossed = .ok b crossed → ¬a.names <+: b.names ∧ ¬b.names <+: a.names) ∧
    ∃ report w₁ report' w₂, joint.run detour [] crossed = .ok report w₁ ∧
      joint.run detour.reverse [] crossed = .ok report' w₂ ∧
      ¬report'.failures.Perm report.failures := by
  have hCurrent : crossed.current.Proper := nofun
  have hKept : joint.kept crossed.current detour = [direct, indirect] := by decide +kernel
  have hReversed : joint.kept crossed.current detour.reverse = [indirect, direct] := by
    decide +kernel
  constructor
  · obtain ⟨w₀, hFilter, _⟩ :=
      Project.filterSources_eq (p := joint) (w := crossed) Config.usual_default rfl detour
    refine ⟨_, w₀, hFilter, ?_⟩
    exact (Project.pairwise_apart_iff Config.usual_default
      (fun u hu => Project.named_of_kept hCurrent hu) crossed).mp (by decide +kernel)
  · have hFindable : ∀ u ∈ joint.kept crossed.current detour, joint.Findable u := fun u hu =>
      Project.findable_of_kept hCurrent (by decide +kernel) hu
    rw [hKept] at hFindable
    obtain ⟨f, hBefore⟩ : ∃ f, joint.draftFault? indirect crossed.tree [] = some f :=
      Option.isSome_iff_exists.mp (by decide +kernel)
    obtain ⟨f', hAfter⟩ : ∃ f', joint.draftFault? indirect
        (crossed.tree.makeFolders [] (joint.target direct).parent).2 [] = some f' :=
      Option.isSome_iff_exists.mp (by decide +kernel)
    have hFaults : f ≠ f' := by
      rintro rfl
      exact absurd (hBefore.trans hAfter.symm) (by decide +kernel)
    have hText : ∃ text, joint.draft direct crossed.tree [] = .ok (some text) := by
      have hRun : ((joint.draft direct crossed.tree []).toOption.join).isSome = true := by
        decide +kernel
      cases hDraft : joint.draft direct crossed.tree [] with
      | error fault => simp [hDraft, Except.toOption] at hRun
      | ok text? => simpa [hDraft, Except.toOption, Option.isSome_iff_exists] using hRun
    have hUpset : joint.Upset crossed.current crossed.tree direct indirect f f' :=
      ⟨FileTree.rooted_of_nodes (by decide +kernel), hText, by decide +kernel, by decide +kernel,
        by decide +kernel, Project.draftFault?_eq_some.mp hBefore,
        Project.draftFault?_eq_some.mp hAfter⟩
    exact hUpset.run rfl rfl (hFindable _ (by simp)) (hFindable _ (by simp)) (by decide +kernel)
      hFaults hKept hReversed

end BinderIdl
