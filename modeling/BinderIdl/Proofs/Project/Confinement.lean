import BinderIdl.Proofs.Project.Compile
import BinderIdl.Proofs.Token.Identifier

/-! Where a run changes files. What a run writes is below the folder of generated files,
because a definition has to be where its package says; what it removes is there unless
a removed path leads up. -/
namespace BinderIdl

open Text (Loose loose)

namespace Work

variable {α β : Type} {w w' : Workshop} {places : Place → Prop}

/-- The workshop after some work, whether it failed or not. -/
def after (x : Work α) (w : Workshop) : Workshop :=
  match x w with
  | .ok _ w' => w'
  | .error _ w' => w'

theorem after_of_ok {x : Work α} {a : α} (h : x w = .ok a w') : x.after w = w' := by
  rw [after, h]

theorem after_of_error {x : Work α} {fault : ProjectFault} (h : x w = .error fault w') :
    x.after w = w' := by
  rw [after, h]

/-- Work that leaves files as they are, except at some places. -/
structure Spares (x : Work α) (w : Workshop) (places : Place → Prop) : Prop where
  steady : Project.Steady w (x.after w)
  content : ∀ q, ¬places q → (x.after w).tree.content? q = w.tree.content? q

namespace Spares

theorem of_alike {x : Work α} (h : w.Alike (x.after w)) : x.Spares w places :=
  ⟨.of_alike h, fun q _ => by rw [h.tree]⟩

theorem mono {x : Work α} {places' : Place → Prop} (h : x.Spares w places)
    (hPlaces : ∀ q, places q → places' q) : x.Spares w places' :=
  ⟨h.steady, fun q hq => h.content q fun hp => hq (hPlaces q hp)⟩

theorem bind {x : Work α} {f : α → Work β} (hx : x.Spares w places)
    (hf : ∀ a w', x w = .ok a w' → (f a).Spares w' places) : (x >>= f).Spares w places := by
  cases hResult : x w with
  | error fault w' =>
      have hAfter : (x >>= f).after w = x.after w := by
        rw [after_of_error hResult, after_of_error (bind_of_error hResult)]
      exact ⟨hAfter ▸ hx.steady, hAfter ▸ hx.content⟩
  | ok a w' =>
      have hAfter : (x >>= f).after w = (f a).after w' := by
        rw [after, after, bind_of_ok hResult]
      have hFirst := after_of_ok hResult
      have hRest := hf a w' hResult
      constructor
      · rw [hAfter]
        exact (hFirst ▸ hx.steady).trans hRest.steady
      · intro q hq
        rw [hAfter, hRest.content q hq, ← hx.content q hq, hFirst]

/-- Work on each of some things, one after the other. -/
theorem mapM {f : α → Work β} {as : List α} {current : Place}
    (hf : ∀ a ∈ as, ∀ w : Workshop, w.log = none → w.current = current →
      (f a).Spares w places) (hLog : w.log = none) (hCurrent : w.current = current) :
    (as.mapM f).Spares w places := by
  induction as generalizing w with
  | nil => exact of_alike (.refl w)
  | cons a as ih =>
      have hFirst := hf a List.mem_cons_self w hLog hCurrent
      rw [List.mapM_cons]
      refine hFirst.bind fun b w' hResult => ?_
      have hSteady : Project.Steady w w' := after_of_ok hResult ▸ hFirst.steady
      refine bind ?_ fun bs w'' _ => of_alike (.refl w'')
      exact ih (fun a ha => hf a (List.mem_cons_of_mem _ ha)) (hSteady.log.trans hLog)
        (hSteady.current.trans hCurrent)

end Spares

end Work

namespace Project

variable {p : Project} {w : Workshop} {path : Path} {current : Place}

/-- A place below the folder of generated files. -/
def Generated (p : Project) (current : Place) (q : Place) : Prop :=
  ∃ names, names ≠ [] ∧ q = p.folder.destination current ++ FileName.ofString "gen" :: names

/-- The generated file of a definition whose path does not lead up is below the folder
of generated files. -/
theorem generated_of_ordinary (hRoot : path.root = .none) (hNil : path.parts ≠ [])
    (hNames : ∀ part ∈ p.folder.parts ++ path.parts, Path.IsName part)
    (hAbove : loose ".." ∉ path.parent.parts) :
    p.Generated current ((p.target path).destination current) := by
  have hTarget := isName_of_target hRoot hNil hNames
  rw [target_of_kept p hRoot hNil] at hTarget ⊢
  let below := path.parent.parts ++ [Path.generatedName path.name]
  have hOrdinary : ∀ name ∈ (loose "gen" :: below).map fun part => part.bytes?.getD [],
      FileName.Ordinary name := by
    intro name hName
    obtain ⟨part, hPart, rfl⟩ := List.mem_map.mp hName
    have hIs := hTarget part (List.mem_append_right _ hPart)
    obtain ⟨bytes, hBytes⟩ := Option.isSome_iff_exists.mp hIs.nameable
    rw [hBytes]
    apply Path.ordinary_of_ne hBytes hIs.ne_here
    rintro rfl
    simp only [below, List.mem_cons, List.mem_append, List.not_mem_nil, or_false] at hPart
    rcases hPart with hGen | hPart | hName
    · revert hGen
      decide
    · exact hAbove hPart
    · have hJ : Text.Glyph.char 'j' ∈ loose ".." := by
        rw [hName]
        simp [Path.generatedName, loose]
      revert hJ
      decide
  refine ⟨below.map fun part => part.bytes?.getD [], by simp [below], ?_⟩
  show Place.walk (p.folder.start current) (List.map _ (p.folder.parts ++ loose "gen" :: below)) = _
  rw [List.map_append, Place.walk_append, Place.walk_ordinary _ hOrdinary]
  rfl

/-- The path of a definition that has a text does not lead up. -/
theorem not_above_of_draft {t : FileTree} {text : String} (hRoot : path.root = .none)
    (h : p.draft path t current = .ok (some text)) : loose ".." ∉ path.parent.parts := by
  obtain ⟨source, i, content, hRead, hInterface, hPlaced⟩ := interface_of_draft h
  have hPackage : loose i.package = List.intercalate (loose ".") path.parent.parts := by
    have hParts : path.parent.allParts = path.parent.parts := by
      simp [Path.allParts, Path.isAbsolute, Path.parent, hRoot]
    rw [← hParts]
    exact (misplacement?_eq_none.mp hPlaced).1
  intro hMem
  have hDots := (Interface.isQualified_package hRead hInterface).of_intercalate hPackage _ hMem
  exact hDots.2 rfl

/-- Work that may only complain when it fails. -/
theorem attempt_after (path : Path) {work : Work (Option Path)} {complain : ProjectFault → Work Unit}
    (hComplain : ∀ fault w, w.log = none → ∃ w', complain fault w = .ok () w' ∧ w.Alike w')
    (hLog : (work.after w).log = none) :
    (work.after w).Alike ((attempt path work complain).after w) := by
  cases hResult : work w with
  | ok done? w' =>
      rw [Work.after_of_ok hResult]
      cases done? <;> simp only [Work.after, attempt, hResult] <;> exact .refl w'
  | error fault w' =>
      rw [Work.after_of_error hResult] at hLog ⊢
      obtain ⟨w'', hTold, hAlike⟩ := hComplain fault w' hLog
      by_cases hLocal : fault.isLocal = true
      · simpa only [Work.after, attempt, hResult, hLocal, if_true, hTold] using hAlike
      · simp only [Work.after, attempt, hResult, hLocal]
        exact .refl w'

theorem attempt_spares {work : Work (Option Path)} {complain : ProjectFault → Work Unit}
    {places : Place → Prop}
    (hComplain : ∀ fault w, w.log = none → ∃ w', complain fault w = .ok () w' ∧ w.Alike w')
    (hLog : w.log = none) (h : work.Spares w places) :
    (attempt path work complain).Spares w places := by
  have hAlike := attempt_after path hComplain (h.steady.log.trans hLog)
  constructor
  · exact h.steady.trans (.of_alike hAlike)
  · intro q hq
    rw [hAlike.tree]
    exact h.content q hq

/-- A definition that was kept, and whose parts are names. -/
structure Named (p : Project) (path : Path) : Prop where
  root : path.root = .none
  ne_nil : path.parts ≠ []
  names : ∀ part ∈ p.folder.parts ++ path.parts, Path.IsName part

theorem Named.plain (h : p.Named path) : path.Plain :=
  fun part hPart => have hIs := h.names part (List.mem_append_right _ hPart)
    ⟨hIs.ne_nil, hIs.slash⟩

theorem Named.target_plain (h : p.Named path) : (p.target path).Plain :=
  fun part hPart => have hIs := isName_of_target h.root h.ne_nil h.names part hPart
    ⟨hIs.ne_nil, hIs.slash⟩

theorem named_of_kept {texts : List String} (hCurrent : current.Proper)
    (h : path ∈ p.kept current texts) : p.Named path :=
  ⟨(parts_of_kept h).1, (parts_of_kept h).2.1, isName_of_kept hCurrent h⟩

theorem update_spares (hUsual : p.config.Usual) (hNamed : p.Named path) (hLog : w.log = none) :
    (p.update path).Spares w (p.Generated w.current) := by
  apply attempt_spares (fun fault w hLog => ⟨_, rfl, Workshop.alike_tell hLog _⟩) hLog
  have hCompiled := compiled hUsual hNamed.root hNamed.plain hNamed.target_plain hLog
  generalize hResult : p.compile path w = result at hCompiled
  cases hCompiled with
  | failed _ hAlike =>
      apply Work.Spares.of_alike
      rwa [Work.after_of_error hResult]
  | void _ hAlike =>
      apply Work.Spares.of_alike
      rwa [Work.after_of_ok hResult]
  | unwritten _ _ _ hSteady hGrows =>
      rw [← Work.after_of_error hResult] at hSteady hGrows
      exact ⟨hSteady, fun q _ => hGrows.content?_eq q⟩
  | written hDraft hSteady hWritten =>
      rw [← Work.after_of_ok hResult] at hSteady hWritten
      refine ⟨hSteady, fun q hq => ?_⟩
      have hGenerated : p.Generated w.current ((p.target path).destination w.current) :=
        generated_of_ordinary hNamed.root hNamed.ne_nil hNamed.names
          (not_above_of_draft hNamed.root hDraft)
      rw [hWritten.content?_eq hNamed.target_plain, if_neg]
      rintro rfl
      exact hq hGenerated

/-- The places that removing the generated file of a definition can change. -/
def Leaks (p : Project) (current : Place) (path : Path) (q : Place) : Prop :=
  loose ".." ∈ path.parts ∧ q = (p.target path).destination current

theorem remove_spares (hUsual : p.config.Usual) (hNamed : p.Named path) (hLog : w.log = none) :
    (p.remove path).Spares w fun q => p.Generated w.current q ∨ p.Leaks w.current path q := by
  have hComplain : ∀ (fault : ProjectFault) (w : Workshop), w.log = none → ∃ w', (do
      let generated ← p.generatedPath path
      Work.tell (.stuck generated.print fault.message) : Work Unit) w = .ok () w' ∧ w.Alike w' := by
    intro fault w hLog
    rw [Work.bind_of_ok (generatedPath_eq hUsual hNamed.root hNamed.plain w)]
    exact ⟨_, rfl, Workshop.alike_tell hLog _⟩
  apply attempt_spares hComplain hLog
  have hDiscarded := discarded hUsual hNamed.root hNamed.plain hLog
  generalize hResult : p.discard path w = result at hDiscarded
  cases hDiscarded with
  | absent _ _ hAlike =>
      apply Work.Spares.of_alike
      rwa [Work.after_of_ok hResult]
  | stuck _ _ =>
      apply Work.Spares.of_alike
      rw [Work.after_of_error hResult]
      exact .refl w
  | removed hDrop hSteady hTree =>
      rw [← Work.after_of_ok hResult] at hSteady hTree
      refine ⟨hSteady, fun q hq => ?_⟩
      obtain ⟨place, content, hLocate, hFile, rfl⟩ := FileTree.drop_eq_ok hDrop
      have hNil : place ≠ [] := FileTree.ne_nil_of_get?_ne (t := w.tree) (by simp [hFile])
      have hPlace := FileTree.destination_of_locate hNamed.target_plain hLocate
      rw [hTree]
      apply FileTree.content?_congr
      rw [FileTree.get?_erase hNil, if_neg]
      rintro rfl
      by_cases hAbove : loose ".." ∈ path.parts
      · exact hq (.inr ⟨hAbove, hPlace.symm⟩)
      · apply hq
        left
        rw [← hPlace]
        apply generated_of_ordinary hNamed.root hNamed.ne_nil hNamed.names
        exact fun hMem => hAbove (List.dropLast_subset _ hMem)

theorem filterSources_spares (hUsual : p.config.Usual) (hLog : w.log = none)
    (texts : List String) (places : Place → Prop) : (p.filterSources texts).Spares w places := by
  obtain ⟨w', hKept, hAlike⟩ := filterSources_eq hUsual hLog texts
  apply Work.Spares.of_alike
  rwa [Work.after_of_ok hKept]

theorem run_spares (hUsual : p.config.Usual) (hLog : w.log = none) (hCurrent : w.current.Proper)
    (updated removed : List String) :
    (p.run updated removed).Spares w fun q => p.Generated w.current q ∨
      ∃ path ∈ p.kept w.current removed, p.Leaks w.current path q := by
  -- What is kept follows from the current folder, which no step changes.
  have hKept : ∀ {w₀ w₁ : Workshop} {texts : List String} {paths : List Path}, w₀.log = none →
      w₀.current = w.current → p.filterSources texts w₀ = .ok paths w₁ →
      paths = p.kept w.current texts ∧ w₁.log = none ∧ w₁.current = w.current := by
    intro w₀ w₁ texts paths hLog₀ hCurrent₀ hFilter
    obtain ⟨w', hEq, hAlike⟩ := filterSources_eq hUsual hLog₀ texts
    rw [hFilter] at hEq
    cases hEq
    exact ⟨by rw [hCurrent₀], hAlike.log.trans hLog₀, hAlike.current.trans hCurrent₀⟩
  rw [run]
  refine (filterSources_spares hUsual hLog updated _).bind fun us w₁ hFilter => ?_
  obtain ⟨rfl, hLog₁, hCurrent₁⟩ := hKept hLog rfl hFilter
  have hUpdates : ((p.kept w.current updated).mapM p.update).Spares w₁ (p.Generated w.current) := by
    refine .mapM (fun path hPath w₀ hLog₀ hCurrent₀ => ?_) hLog₁ hCurrent₁
    rw [← hCurrent₀]
    exact update_spares hUsual (named_of_kept hCurrent hPath) hLog₀
  refine (hUpdates.mono fun q hq => .inl hq).bind fun _ w₂ hResult => ?_
  have hSteady : Steady w₁ w₂ := Work.after_of_ok hResult ▸ hUpdates.steady
  have hLog₂ := hSteady.log.trans hLog₁
  refine (filterSources_spares hUsual hLog₂ removed _).bind fun rs w₃ hFilter' => ?_
  obtain ⟨rfl, hLog₃, hCurrent₃⟩ := hKept hLog₂ (hSteady.current.trans hCurrent₁) hFilter'
  refine Work.Spares.bind ?_ fun _ w₄ _ => .of_alike (.refl w₄)
  refine .mapM (fun path hPath w₀ hLog₀ hCurrent₀ => ?_) hLog₃ hCurrent₃
  rw [← hCurrent₀] at hCurrent hPath ⊢
  exact (remove_spares hUsual (named_of_kept hCurrent hPath) hLog₀).mono
    fun q hq => hq.imp_right fun hLeaks => ⟨path, hPath, hLeaks⟩

end Project

/-- A file that a run makes, changes or removes is below the folder of generated files,
unless it is the generated file of a removed path that leads up below the folder of the
sources. -/
theorem run_changes_generated (p : Project) (hUsual : p.config.Usual) (w : Workshop)
    (hLog : w.log = none) (hCurrent : w.current.Proper) (updated removed : List String) (q : Place)
    (hChanged : ((p.run updated removed).after w).tree.content? q ≠ w.tree.content? q) :
    (∃ names, names ≠ [] ∧
      q = p.folder.destination w.current ++ FileName.ofString "gen" :: names) ∨
    ∃ kept w₀ path target, p.filterSources removed w = .ok kept w₀ ∧ path ∈ kept ∧
      loose ".." ∈ path.parts ∧ p.generatedPath path w = .ok target w ∧
      q = target.destination w.current := by
  have hSpares := Project.run_spares hUsual hLog hCurrent updated removed
  have hPlace : p.Generated w.current q ∨
      ∃ path ∈ p.kept w.current removed, p.Leaks w.current path q :=
    Classical.byContradiction fun hq => hChanged (hSpares.content q hq)
  rcases hPlace with hGenerated | ⟨path, hPath, hAbove, hq⟩
  · exact .inl hGenerated
  · obtain ⟨w₀, hFilter, _⟩ := Project.filterSources_eq hUsual hLog removed
    have hNamed := Project.named_of_kept hCurrent hPath
    exact .inr ⟨_, w₀, path, _, hFilter, hPath, hAbove,
      Project.generatedPath_eq hUsual hNamed.root hNamed.plain w, hq⟩

/-- The place that names lead to from the root. -/
private def placeOf (names : List String) : Place := names.map FileName.ofString

/-- A project in the current folder. -/
private def shared : Project where
  folder := Path.read (loose "project")
  config := {}
  commandLine := none
  known := []

/-- A source that is written by hand, and a generated file. -/
private def mixed : Workshop where
  tree := ⟨[
    (placeOf ["project"], .folder), (placeOf ["project", "src"], .folder),
    (placeOf ["project", "src", "com"], .folder),
    (placeOf ["project", "src", "com", "example"], .folder), (placeOf ["project", "gen"], .folder),
    (placeOf ["project", "src", "com", "example", "Point.java"], .file "class Point".toUTF8),
    (placeOf ["project", "gen", "IStore.java"], .file "interface IStore".toUTF8)]⟩
  current := []

/-- The first path leads up and down again, so the file that is removed for it is beside
its definition. -/
private def gone : List String :=
  ["project/src/../src/com/example/Point.aidl2", "project/src/IStore.aidl2"]

theorem run_changes_generated_mixed :
    (∃ names, names ≠ [] ∧ placeOf ["project", "gen", "IStore.java"] =
      shared.folder.destination [] ++ FileName.ofString "gen" :: names) ∨
    ∃ kept w₀ path target, shared.filterSources gone mixed = .ok kept w₀ ∧ path ∈ kept ∧
      loose ".." ∈ path.parts ∧ shared.generatedPath path mixed = .ok target mixed ∧
      placeOf ["project", "gen", "IStore.java"] = target.destination [] := by
  have hBefore : (mixed.tree.content? (placeOf ["project", "gen", "IStore.java"])).isSome = true := by
    decide +kernel
  have hAfter : (((shared.run [] gone).after mixed).tree.content?
      (placeOf ["project", "gen", "IStore.java"])).isSome = false := by decide +kernel
  refine run_changes_generated shared Config.usual_default mixed rfl nofun [] gone _ ?_
  intro hSame
  rw [hSame, hBefore] at hAfter
  cases hAfter

/-- A run can remove a file below the folder of the sources. -/
theorem run_removes_source : ∃ q,
    ((shared.run [] gone).after mixed).tree.content? q ≠ mixed.tree.content? q ∧
    shared.folder.destination mixed.current ++ [FileName.ofString "src"] <+: q := by
  have hBefore : (mixed.tree.content?
      (placeOf ["project", "src", "com", "example", "Point.java"])).isSome = true := by decide +kernel
  have hAfter : (((shared.run [] gone).after mixed).tree.content?
      (placeOf ["project", "src", "com", "example", "Point.java"])).isSome = false := by decide +kernel
  refine ⟨placeOf ["project", "src", "com", "example", "Point.java"], ?_, by decide +kernel⟩
  intro hSame
  rw [hSame, hBefore] at hAfter
  cases hAfter

end BinderIdl
