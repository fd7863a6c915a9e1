import BinderIdl.Proofs.Files.Faults
import BinderIdl.Proofs.Project.Confinement
import BinderIdl.Proofs.Stub.Faults

/-! Runs with the usual configuration never fail as a whole. Whatever the files hold, each
definition is compiled, passed over or reported on its own, and one that is not compiled
leaves all files as they were. -/
namespace BinderIdl

open Text (Loose loose)

/-- Steps, one for each of some things, that lead from a state to another. -/
inductive Along {α β σ : Type} (Step : α → σ → β → σ → Prop) : σ → List α → List β → σ → Prop
  | nil {s : σ} : Along Step s [] [] s
  | cons {a : α} {b : β} {as : List α} {bs : List β} {s s' s'' : σ} (hFirst : Step a s b s')
      (hRest : Along Step s' as bs s'') : Along Step s (a :: as) (b :: bs) s''

/-- Work on each of some things that succeeds with every one of them. -/
theorem Work.mapM_along {α β : Type} {f : α → Work β} {Step : α → Workshop → β → Workshop → Prop}
    {current : Place} {as : List α}
    (hf : ∀ a ∈ as, ∀ w : Workshop, w.log = none → w.current = current →
      ∃ b w', f a w = .ok b w' ∧ Project.Steady w w' ∧ Step a w b w') {w : Workshop}
    (hLog : w.log = none) (hCurrent : w.current = current) :
    ∃ bs w', as.mapM f w = .ok bs w' ∧ Project.Steady w w' ∧ Along Step w as bs w' := by
  induction as generalizing w with
  | nil => exact ⟨[], w, rfl, ⟨rfl, rfl⟩, .nil⟩
  | cons a as ih =>
      obtain ⟨b, w₁, hFirst, hSteady, hStep⟩ := hf a List.mem_cons_self w hLog hCurrent
      obtain ⟨bs, w₂, hRest, hSteady', hAlong⟩ := ih
        (fun a ha => hf a (List.mem_cons_of_mem _ ha)) (hSteady.log.trans hLog)
        (hSteady.current.trans hCurrent)
      refine ⟨b :: bs, w₂, ?_, hSteady.trans hSteady', .cons hStep hAlong⟩
      rw [List.mapM_cons, Work.bind_of_ok hFirst, Work.bind_of_ok hRest]
      rfl

namespace Project

variable {p : Project} {w : Workshop} {path : Path} {current : Place} {t : FileTree}

/-- The file of a definition is a text without tokens, such as the empty one. -/
def Vacant (p : Project) (path : Path) (t : FileTree) (current : Place) : Prop :=
  ∃ bytes cs source, t.fetch current (p.source path).print = .ok bytes ∧
    Text.Utf8.decode bytes = .ok cs ∧
    Source.read (some path.shown) (String.ofList (Text.unifyBreaks cs)) = .ok source ∧
    source.tokens = []

/-- What an update leaves behind. -/
inductive UpdateEffect (p : Project) (path : Path) (w : Workshop) : Outcome → Workshop → Prop
  /-- The generated file was written, and nothing else but folders around it. -/
  | done {target : Path} {text : String} {w' : Workshop}
      (hTarget : p.generatedPath path w = .ok target w)
      (hWritten : w.tree.Written w'.tree w.current target text.toUTF8) :
      UpdateEffect p path w (.done target) w'
  | nothing {w' : Workshop} (hTree : w'.tree = w.tree) : UpdateEffect p path w .nothing w'
  /-- There are at most new folders around the generated file. -/
  | failed {target : Path} {fault : ProjectFault} {w' : Workshop}
      (hTarget : p.generatedPath path w = .ok target w) (hLocal : fault.isLocal = true)
      (hGrows : w.tree.Grows w'.tree (FileTree.onTheWay target.parent w.current)) :
      UpdateEffect p path w (.failed path fault) w'

/-- One update in a run. -/
structure Updates (p : Project) (path : Path) (w : Workshop) (o : Outcome) (w' : Workshop) :
    Prop where
  result : p.update path w = .ok o w'
  vacant : o = .nothing ↔ p.Vacant path w.tree w.current
  effect : UpdateEffect p path w o w'

/-- What a removal leaves behind. -/
inductive RemovalEffect (p : Project) (path : Path) (w : Workshop) : Outcome → Workshop → Prop
  | done {target : Path} {place : Place} {content : ByteArray} {w' : Workshop}
      (hTarget : p.generatedPath path w = .ok target w)
      (hLocate : w.tree.locate w.current target.print = .ok place)
      (hFile : w.tree.get? place = some (.file content)) (hTree : w'.tree = w.tree.erase place) :
      RemovalEffect p path w (.done target) w'
  /-- There was no such file. -/
  | nothing {target : Path} {fault : FileFault} {w' : Workshop}
      (hTarget : p.generatedPath path w = .ok target w)
      (hDrop : w.tree.drop w.current target.print = .error fault) (hMissing : fault.kind = .missing)
      (hTree : w'.tree = w.tree) : RemovalEffect p path w .nothing w'
  | failed {fault : ProjectFault} {w' : Workshop} (hLocal : fault.isLocal = true)
      (hTree : w'.tree = w.tree) : RemovalEffect p path w (.failed path fault) w'

/-- One removal in a run. -/
structure Removes (p : Project) (path : Path) (w : Workshop) (o : Outcome) (w' : Workshop) :
    Prop where
  result : p.remove path w = .ok o w'
  effect : RemovalEffect p path w o w'

/-- A definition that was kept, and whose parts could be names of files. -/
structure Findable (p : Project) (path : Path) : Prop extends p.Named path where
  null : ∀ part ∈ p.folder.parts ++ path.parts, .char (Char.ofNat 0) ∉ part

theorem findable_of_kept {texts : List String} (hCurrent : current.Proper)
    (hTexts : ∀ text ∈ texts, Char.ofNat 0 ∉ text.toList) (h : path ∈ p.kept current texts) :
    p.Findable path := by
  refine ⟨named_of_kept hCurrent h, ?_⟩
  obtain ⟨_, _, text, hText, hParts⟩ := parts_of_kept h
  intro part hPart
  rcases hParts part hPart with hPart | hPart
  · exact (Path.isName_of_mem_current hCurrent hPart).2
  · intro hNull
    obtain ⟨c, hc, hNul⟩ := List.mem_map.mp (Path.mem_of_mem_read hPart hNull)
    cases hNul
    exact hTexts text hText hc

theorem sound_of_parts {q : Path}
    (h : ∀ part ∈ q.parts, Path.IsName part ∧ .char (Char.ofNat 0) ∉ part) : q.Sound where
  plain part hPart := ⟨(h part hPart).1.ne_nil, (h part hPart).1.slash⟩
  nameable part hPart := (h part hPart).1.nameable
  null part hPart := (h part hPart).2

theorem Findable.source_sound (h : p.Findable path) : (p.source path).Sound := by
  apply sound_of_parts
  apply forall_source (P := fun part => Path.IsName part ∧ .char (Char.ofNat 0) ∉ part) h.root
  · exact ⟨⟨by decide, by decide, by decide, by decide⟩, by decide⟩
  · exact fun part hPart => ⟨h.names part hPart, h.null part hPart⟩

theorem Findable.target_sound (h : p.Findable path) : (p.target path).Sound := by
  apply sound_of_parts
  apply forall_target (P := fun part => Path.IsName part ∧ .char (Char.ofNat 0) ∉ part) h.root
    h.ne_nil
  · exact ⟨⟨by decide, by decide, by decide, by decide⟩, by decide⟩
  · intro name hName
    refine ⟨Path.isName_generatedName hName.1, ?_⟩
    rw [Path.generatedName, List.mem_append, not_or]
    exact ⟨fun hMem => hName.2 (Path.stem_subset name hMem), by decide⟩
  · exact fun part hPart => ⟨h.names part hPart, h.null part hPart⟩

/-- A text without tokens holds nothing, and so does the empty text. -/
theorem parsed_eq_ok_none_iff {text : String} : parsed path text = .ok none ↔
    ∃ source, Source.read (some path.shown) text = .ok source ∧ source.tokens = [] := by
  have hTokens : ∀ source : Source,
      Interface.ofSource source = .ok none ↔ source.tokens = [] := by
    intro source
    rw [← Interface.ofTokens_eq_ok_none_iff, Interface.ofSource]
    cases Interface.ofTokens source.tokens <;> simp
  rw [parsed]
  split
  · rename_i hNil
    subst hNil
    have hRead : Source.read (some path.shown) "" =
        .ok { filename := some path.shown, text := "", tokens := [] } := by
      have hLexemes : Scan.lexemes [] = ([], none) := by with_unfolding_all rfl
      simp only [Source.read, String.toList_empty, hLexemes]
      rfl
    simp [hRead]
  · cases Source.read (some path.shown) text with
    | error d => simp [Except.bind]
    | ok source =>
        show (Interface.ofSource source).map (Option.map (Prod.mk source)) = .ok none ↔ _
        simp only [Except.ok.injEq, exists_eq_left', ← hTokens]
        cases Interface.ofSource source with
        | error d => simp [Except.map]
        | ok i? => cases i? <;> simp [Except.map]

theorem draft_eq_ok_none_iff : p.draft path t current = .ok none ↔ p.Vacant path t current := by
  have hEncoded : ∀ held, p.encoded path t current held = .ok none ↔ held = .ok none := by
    intro held
    rcases held with d | held
    · simp [encoded]
    · rcases held with _ | ⟨source, i⟩
      · simp [encoded]
      · simp only [encoded]
        split <;> simp
  rw [draft, Vacant]
  cases t.fetch current (p.source path).print with
  | error fault => simp
  | ok bytes =>
      simp only [hEncoded, Except.ok.injEq, exists_and_left, exists_eq_left', decoded]
      cases Text.Utf8.decode bytes with
      | error fault => simp [Except.bind]
      | ok cs =>
          show parsed path _ = .ok none ↔ _
          simpa using parsed_eq_ok_none_iff

/-- What keeps a source from being looked for is something about the files. -/
theorem isLocal_of_obstacle {source : Source} {i : Interface} (hUsual : p.config.Usual)
    {name package : String} {fault : LookupFault}
    (h : (p.contextOf source i t current).obstacle? name package = some fault) :
    (ProjectFault.ofEncoding (.lookup fault)).isLocal = true := by
  have hNode : ∀ {q : Path} {fault : LookupFault}, SourceFolder.nodeAt t current q = .error fault →
      (ProjectFault.ofEncoding (.lookup fault)).isLocal = true := by
    intro q fault h
    rw [SourceFolder.nodeAt, FileTree.look] at h
    split at h
    · cases h
    · rename_i hLook
      cases h
      split at hLook <;> cases hLook
      rfl
  simp only [contextOf, SourceFolder.obstacle?] at h
  split at h
  · cases h
  · rename_i hHas
    cases h
    simp only [SourceFolder.has, SourceFolder.pathOf, SourceFolder.fileOf, ne_eq, not_true_eq_false,
      if_false, hUsual.javaExtension, bind, Except.bind, pure, Except.pure] at hHas
    split at hHas
    · rename_i hPath
      split at hPath
      · rename_i hFirst
        cases hHas
        cases hPath
        exact hNode hFirst
      · split at hPath <;> cases hPath
    · split at hHas
      · rename_i hSecond
        cases hHas
        exact hNode hSecond
      · split at hHas <;> cases hHas

theorem isLocal_of_draft {fault : ProjectFault} (hUsual : p.config.Usual)
    (hFindable : p.Findable path) (h : p.draft path t current = .error fault) :
    fault.isLocal = true := by
  rw [draft] at h
  split at h
  · rename_i hFetch
    cases h
    simp [ProjectFault.isLocal, FileTree.fetch_isNoPath hFindable.source_sound hFetch]
  · rename_i bytes _
    cases hHeld : (decoded path bytes).bind (parsed path) with
    | error d =>
        rw [hHeld] at h
        cases h
        rfl
    | ok held =>
        rw [hHeld] at h
        rcases held with _ | ⟨source, i⟩
        · cases h
        · simp only [encoded] at h
          split at h
          · cases h
            rfl
          · rename_i encodeFault desk _ hEncoding
            cases h
            obtain ⟨_, _, hInterface⟩ := read_of_held hHeld
            rcases Writer.encodeInterface_fault hInterface rfl hEncoding with
              ⟨d, rfl⟩ | ⟨f, type, rfl, hNature⟩
            · rfl
            · rw [Context.natureObstacle?] at hNature
              split at hNature
              · cases hNature
              · exact isLocal_of_obstacle hUsual hNature
          · cases h

/-- Without settings of its own, a project checks what it writes and writes it in one
step. -/
theorem writeGenerated_default (hConfig : p.config = {}) (target : Path) (text : String) :
    p.writeGenerated target text = writeAtomically target text true := by
  rw [writeGenerated, hConfig]
  rfl

/-- A generated file that is written in one step fails for reasons of the files or of
its content. -/
theorem isLocal_of_writeGenerated {target : Path} {text : String} {fault : ProjectFault}
    {w' : Workshop} (hConfig : p.config = {}) (hTarget : target.Sound)
    (h : p.writeGenerated target text w = .error fault w') : fault.isLocal = true := by
  rw [writeGenerated_default hConfig, writeAtomically] at h
  -- Only the write itself can fail, not what follows it.
  have hTree : ∀ {x : Work Unit} {g : Workshop → Workshop},
      (x >>= fun _ => modify g) w = .error fault w' → x w = .error fault w' := by
    intro x g h
    cases hx : x w with
    | ok _ _ =>
        rw [Work.bind_of_ok hx] at h
        cases h
    | error _ _ => rwa [Work.bind_of_error hx] at h
  replace h := hTree h
  simp only [Work.onTree, if_true] at h
  cases hWrite : AtomicWrite.write w.tree w.current target text (some Java.defect?) with
  | mk written t =>
      rw [hWrite] at h
      rcases written with fault' | _
      · rcases fault' with fault' | d
        · cases h
          simp [ProjectFault.isLocal, AtomicWrite.write_isNoPath hTarget hWrite]
        · cases h
          rfl
      · cases h

/-- A local fault becomes an outcome. -/
theorem attempt_of_error {work : Work (Option Path)} {complain : ProjectFault → Work Unit}
    {fault : ProjectFault} {w₁ w₂ : Workshop} (h : work w = .error fault w₁)
    (hLocal : fault.isLocal = true) (hTold : complain fault w₁ = .ok () w₂) :
    attempt path work complain w = .ok (.failed path fault) w₂ := by
  simp only [attempt, h, hLocal, if_true, hTold]

theorem attempt_of_some {work : Work (Option Path)} {complain : ProjectFault → Work Unit}
    {done : Path} {w' : Workshop} (h : work w = .ok (some done) w') :
    attempt path work complain w = .ok (.done done) w' := by
  simp only [attempt, h]

theorem attempt_of_none {work : Work (Option Path)} {complain : ProjectFault → Work Unit}
    {w' : Workshop} (h : work w = .ok none w') :
    attempt path work complain w = .ok .nothing w' := by
  simp only [attempt, h]

theorem update_isolated (hConfig : p.config = {}) (hFindable : p.Findable path)
    (hLog : w.log = none) : ∃ o w', p.update path w = .ok o w' ∧ Steady w w' ∧
      p.Updates path w o w' := by
  have hUsual : p.config.Usual := hConfig ▸ Config.usual_default
  have hTarget := generatedPath_eq hUsual hFindable.root hFindable.plain w
  have hVacant : p.draft path w.tree w.current = .ok none ↔ _ := draft_eq_ok_none_iff
  have hCompiled := compiled hUsual hFindable.root hFindable.plain hFindable.target_plain hLog
  generalize hResult : p.compile path w = result at hCompiled
  -- A failure is told about, which changes no file.
  have hFailed : ∀ {fault : ProjectFault} {w₁ : Workshop}, p.compile path w = .error fault w₁ →
      fault.isLocal = true → Steady w w₁ → w.tree.Grows w₁.tree (room w (p.target path)) →
      p.draft path w.tree w.current ≠ .ok none → ∃ o w', p.update path w = .ok o w' ∧
        Steady w w' ∧ p.Updates path w o w' := by
    intro fault w₁ hError hLocal hSteady hGrows hDraft
    have hAlike := Workshop.alike_tell (hSteady.log.trans hLog) (.failed fault.message)
    have hUpdate : p.update path w = .ok (.failed path fault) _ :=
      attempt_of_error hError hLocal rfl
    refine ⟨_, _, hUpdate, hSteady.trans (.of_alike hAlike), hUpdate, ?_, ?_⟩
    · rw [← hVacant]
      simp [hDraft]
    · exact .failed hTarget hLocal (hAlike.tree ▸ hGrows)
  cases hCompiled with
  | @failed fault w₁ hDraft hAlike =>
      apply hFailed hResult (isLocal_of_draft hUsual hFindable hDraft) (.of_alike hAlike)
      · rw [hAlike.tree]
        exact .refl _ _
      · simp [hDraft]
  | @void w' hDraft hAlike =>
      have hUpdate : p.update path w = .ok .nothing w' := attempt_of_none hResult
      refine ⟨_, w', hUpdate, .of_alike hAlike, hUpdate, ?_, .nothing hAlike.tree⟩
      simp [← hVacant, hDraft]
  | @unwritten text fault w₁ w' hDraft _ hWrite hSteady hGrows =>
      apply hFailed hResult _ hSteady hGrows
      · simp [hDraft]
      · exact isLocal_of_writeGenerated hConfig hFindable.target_sound hWrite
  | @written text w' hDraft hSteady hWritten =>
      have hUpdate : p.update path w = .ok (.done (p.target path)) w' := attempt_of_some hResult
      refine ⟨_, w', hUpdate, hSteady, hUpdate, ?_, .done hTarget hWritten⟩
      simp [← hVacant, hDraft]

theorem remove_isolated (hUsual : p.config.Usual) (hFindable : p.Findable path)
    (hLog : w.log = none) : ∃ o w', p.remove path w = .ok o w' ∧ Steady w w' ∧
      p.Removes path w o w' := by
  have hTarget := generatedPath_eq hUsual hFindable.root hFindable.plain w
  have hDiscarded := discarded hUsual hFindable.root hFindable.plain hLog
  generalize hResult : p.discard path w = result at hDiscarded
  cases hDiscarded with
  | @absent fault w' hDrop hMissing hAlike =>
      have hRemove : p.remove path w = .ok .nothing w' := attempt_of_none hResult
      exact ⟨_, w', hRemove, .of_alike hAlike, hRemove, .nothing hTarget hDrop hMissing hAlike.tree⟩
  | @stuck fault hDrop hMissing =>
      have hLocal : (ProjectFault.file fault).isLocal = true := by
        simp [ProjectFault.isLocal, FileTree.drop_isNoPath hFindable.target_sound hDrop]
      have hAlike := Workshop.alike_tell hLog
        (.stuck (p.target path).print (ProjectFault.file fault).message)
      have hRemove : p.remove path w = .ok (.failed path (.file fault)) _ :=
        attempt_of_error hResult hLocal (Work.bind_of_ok hTarget)
      exact ⟨_, _, hRemove, .of_alike hAlike, hRemove, .failed hLocal hAlike.tree⟩
  | @removed t w' hDrop hSteady hTree =>
      have hRemove : p.remove path w = .ok (.done (p.target path)) w' := attempt_of_some hResult
      obtain ⟨place, content, hLocate, hFile, rfl⟩ := FileTree.drop_eq_ok hDrop
      exact ⟨_, w', hRemove, hSteady, hRemove, .done hTarget hLocate hFile hTree⟩

end Project

/-- A run with the usual configuration ends with a report. Every updated definition that
is kept has one outcome, in order: its generated file, nothing if its file has no tokens,
or a failure with a fault of its own that leaves every file as it was. Every removed
definition that is kept has one as well. No type is without a category. -/
theorem run_isolates_failures (p : Project) (hConfig : p.config = {}) (w : Workshop)
    (hLog : w.log = none) (hCurrent : w.current.Proper) (updated removed : List String)
    (hUpdated : ∀ text ∈ updated, Char.ofNat 0 ∉ text.toList)
    (hRemoved : ∀ text ∈ removed, Char.ofNat 0 ∉ text.toList) :
    (∃ us w₁ updates w₂ rs w₃ removals w₄,
      p.filterSources updated w = .ok us w₁ ∧ w₁.tree = w.tree ∧
      Along p.Updates w₁ us updates w₂ ∧
      p.filterSources removed w₂ = .ok rs w₃ ∧ w₃.tree = w₂.tree ∧
      Along p.Removes w₃ rs removals w₄ ∧
      p.run updated removed w = .ok {
        generated := Project.donePaths updates
        removed := Project.donePaths removals
        failures := Project.failures updates ++ Project.failures removals } w₄) ∧
    ∀ type, (Category.registry.resolve? type).isSome := by
  refine ⟨?_, Category.isSome_resolve?⟩
  have hUsual : p.config.Usual := hConfig ▸ Config.usual_default
  obtain ⟨w₁, hFilter, hAlike⟩ := Project.filterSources_eq hUsual hLog updated
  obtain ⟨updates, w₂, hMap, hSteady, hAlong⟩ := Work.mapM_along
    (fun path hPath w₀ hLog₀ _ => Project.update_isolated hConfig
      (Project.findable_of_kept hCurrent hUpdated hPath) hLog₀) (hAlike.log.trans hLog)
    hAlike.current
  have hLog₂ : w₂.log = none := (hSteady.log.trans hAlike.log).trans hLog
  have hCurrent₂ : w₂.current = w.current := hSteady.current.trans hAlike.current
  obtain ⟨w₃, hFilter', hAlike'⟩ := Project.filterSources_eq hUsual hLog₂ removed
  rw [hCurrent₂] at hFilter'
  obtain ⟨removals, w₄, hMap', _, hAlong'⟩ := Work.mapM_along
    (fun path hPath w₀ hLog₀ _ => Project.remove_isolated hUsual
      (Project.findable_of_kept hCurrent hRemoved hPath) hLog₀) (hAlike'.log.trans hLog₂)
    (hAlike'.current.trans hCurrent₂)
  refine ⟨_, w₁, updates, w₂, _, w₃, removals, w₄, hFilter, hAlike.tree, hAlong, hFilter',
    hAlike'.tree, hAlong', ?_⟩
  rw [Project.run, Work.bind_of_ok hFilter, Work.bind_of_ok hMap, Work.bind_of_ok hFilter',
    Work.bind_of_ok hMap']
  rfl

/-- A project in the current folder. -/
private def unassuming : Project where
  folder := Path.read (loose ".")
  config := {}
  commandLine := none
  known := []

/-- A definition that is no text, a folder with the name of one and an empty one; and a
folder in the place of a generated file. -/
private def damaged : Workshop where
  tree := ⟨[
    (["project"].map FileName.ofString, .folder),
    (["project", "src"].map FileName.ofString, .folder),
    (["project", "src", "IStore.aidl2"].map FileName.ofString, .file ⟨#[0xFF]⟩),
    (["project", "src", "IFolder.aidl2"].map FileName.ofString, .folder),
    (["project", "src", "IEmpty.aidl2"].map FileName.ofString, .file ByteArray.empty),
    (["project", "gen"].map FileName.ofString, .folder),
    (["project", "gen", "IOld.java"].map FileName.ofString, .folder)]⟩
  current := [FileName.ofString "project"]

private def touched : List String :=
  ["src/IStore.aidl2", "src/IFolder.aidl2", "src/IEmpty.aidl2", "src/../../IGone.aidl2"]

theorem run_isolates_failures_damaged :
    (∃ us w₁ updates w₂ rs w₃ removals w₄,
      unassuming.filterSources touched damaged = .ok us w₁ ∧ w₁.tree = damaged.tree ∧
      Along unassuming.Updates w₁ us updates w₂ ∧
      unassuming.filterSources ["src/IOld.aidl2"] w₂ = .ok rs w₃ ∧ w₃.tree = w₂.tree ∧
      Along unassuming.Removes w₃ rs removals w₄ ∧
      unassuming.run touched ["src/IOld.aidl2"] damaged = .ok {
        generated := Project.donePaths updates
        removed := Project.donePaths removals
        failures := Project.failures updates ++ Project.failures removals } w₄) ∧
    ∀ type, (Category.registry.resolve? type).isSome := by
  have hCurrent : damaged.current.Proper := by
    intro name hName
    rw [List.mem_singleton.mp hName]
    exact ⟨by decide, by decide, by decide, by decide, by decide⟩
  exact run_isolates_failures unassuming rfl damaged rfl hCurrent touched ["src/IOld.aidl2"]
    (by decide +kernel) (by decide +kernel)

end BinderIdl
