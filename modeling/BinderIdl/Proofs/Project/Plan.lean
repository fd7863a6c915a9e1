import BinderIdl.Proofs.Files.Patch
import BinderIdl.Proofs.Project.Reads

/-! What an update does is settled by the tree before the run: it has one outcome and is one
change in every tree that has the same sources and is the same around the generated file. -/
namespace BinderIdl

open Text (Loose loose byteOf)

/-- A name that does not start with a dot. -/
def FileName.Visible (name : FileName) : Prop := name.head? ≠ some (byteOf '.')

theorem FileName.visible_of_bytes {part : Loose} {name : FileName} (hBytes : part.bytes? = some name)
    (h : part.head? ≠ some (.char '.')) : name.Visible :=
  fun hHead => h ((Loose.head?_bytes_iff hBytes (by decide)).mp hHead)

/-- The new file beside a target has a name that starts with a dot. -/
theorem AtomicWrite.not_visible_temporaryFile {target : Path} (h : target.Sound) (n : Nat) :
    ¬(temporaryFile target.name n).Visible := by
  have hPart : temporaryName target.name n ∈ (beside target n).parts := by simp [beside_eq]
  have hBytes := (beside_sound h n).nameable.bytes?_part hPart
  intro hVisible
  exact hVisible ((Loose.head?_bytes_iff hBytes (by decide)).mpr (by simp [temporaryName, loose]))

/-- A name and its stem start alike. -/
theorem Path.head?_stem (name : Loose) : (stem name).head? = name.head? := by
  rw [stem]
  split
  · rfl
  · rename_i hLong
    rw [not_or, Nat.not_le] at hLong
    rw [List.head?_dropLast, if_pos hLong.2, List.head?_take, if_neg]
    intro hZero
    have hLength := hLong.2
    rw [hZero] at hLength
    simp at hLength

namespace Project

variable {p : Project} {path u v : Path} {current : Place} {t t₀ : FileTree} {w : Workshop}

/-- The names that lead from the project's folder to that of a generated file. -/
def below (path : Path) : List FileName := FileName.ofString "gen" :: path.parent.names

/-- The place of the generated file of a definition. -/
abbrev spot (p : Project) (current : Place) (path : Path) : Place :=
  AtomicWrite.goal (p.target path) (p.folder.destination current) (below path)

theorem parts_target (h : p.Named path) : (p.target path).parts =
    p.folder.parts ++ loose "gen" :: path.parent.parts ++ [Path.generatedName path.name] := by
  rw [target_of_kept p h.root h.ne_nil]
  simp

theorem name_target (h : p.Named path) : (p.target path).name = Path.generatedName path.name := by
  rw [Path.name, parts_target h, List.getLast?_concat]
  rfl

theorem names_target_parent (h : p.Named path) :
    (p.target path).parent.names = p.folder.names ++ below path := by
  rw [Path.names, Path.parent, parts_target h, List.dropLast_concat, List.map_append, List.map_cons]
  rfl

theorem names_target (h : p.Named path) : (p.target path).names =
    p.folder.names ++ (below path ++ [(p.target path).name.bytes?.getD []]) := by
  rw [name_target h, Path.names, parts_target h, List.map_append, List.map_append, List.map_cons,
    List.append_assoc]
  rfl

/-- Generated files are at places that lead on from each other if their paths do. -/
theorem spot_prefix_iff (current : Place) (hu : p.Named u) (hv : p.Named v) :
    p.spot current u <+: p.spot current v ↔ (p.target u).names <+: (p.target v).names := by
  rw [names_target hu, names_target hv, List.prefix_append_right_inj, spot, spot, AtomicWrite.goal,
    AtomicWrite.goal, List.append_assoc, List.append_assoc, List.prefix_append_right_inj]

/-- The names that lead to a definition whose text can be made do not start with a dot. -/
theorem head?_ne_of_draft {text : String} (hNamed : p.Named path)
    (h : p.draft path t current = .ok (some text)) :
    ∀ part ∈ path.parts, part.head? ≠ some (.char '.') := by
  obtain ⟨source, i, content, hRead, hInterface, hPlaced⟩ := interface_of_draft h
  obtain ⟨hPackage, hName⟩ := misplacement?_eq_none.mp hPlaced
  have hParts : path.parent.allParts = path.parent.parts := by
    simp [Path.allParts, Path.isAbsolute, Path.parent, hNamed.root]
  rw [hParts] at hPackage
  have hQualified := Interface.isQualified_package hRead hInterface
  -- The folder is named for the package and the file for the interface.
  rw [Path.parts_eq hNamed.ne_nil]
  intro part hPart
  rcases List.mem_append.mp hPart with hPart | hPart
  · exact (hQualified.of_intercalate hPackage part hPart).2
  · obtain rfl := List.mem_singleton.mp hPart
    have hIdentifier := Interface.isIdentifier_name hRead hInterface
    obtain ⟨g, rest, hFirst⟩ := List.exists_cons_of_ne_nil hIdentifier.loose_ne_nil
    have hHead : path.name.head? = some g := by
      have hTake : loose i.name = path.name.take (path.name.length - 6) := hName
      obtain ⟨more, hMore⟩ := List.take_prefix (path.name.length - 6) path.name
      rw [← hMore, ← hTake, hFirst]
      rfl
    rw [hHead]
    intro hDot
    cases hDot
    exact hIdentifier.dot_not_mem (by rw [hFirst]; exact List.mem_cons_self)

/-- A definition whose text can be made is below the folder of the sources. -/
theorem downward_of_draft {text : String} (hNamed : p.Named path)
    (h : p.draft path t current = .ok (some text)) : path.Downward where
  root := hNamed.root
  plain := hNamed.plain
  here hMem := head?_ne_of_draft hNamed h _ hMem rfl
  above hMem := head?_ne_of_draft hNamed h _ hMem rfl

/-- The names of a generated file whose text can be made do not start with a dot. -/
theorem visible_of_draft {text : String} (hNamed : p.Named path)
    (h : p.draft path t current = .ok (some text)) :
    ∀ name ∈ below path ++ [(p.target path).name.bytes?.getD []], FileName.Visible name := by
  have hHead := head?_ne_of_draft hNamed h
  have hNameable : ∀ part ∈ (p.target path).parts, part.bytes? = some (part.bytes?.getD []) := by
    intro part hPart
    obtain ⟨name, hBytes⟩ := Option.isSome_iff_exists.mp
      (isName_of_target hNamed.root hNamed.ne_nil hNamed.names part hPart).nameable
    rw [hBytes]
    rfl
  rw [parts_target hNamed] at hNameable
  intro name hMem
  simp only [below, List.mem_append, List.mem_cons, List.not_mem_nil, or_false] at hMem
  rcases hMem with (rfl | hMem) | rfl
  · show (FileName.ofString "gen").head? ≠ some (byteOf '.')
    decide
  · obtain ⟨part, hPart, rfl⟩ := List.mem_map.mp hMem
    apply FileName.visible_of_bytes (hNameable part (by simp [hPart]))
    exact hHead part (List.dropLast_subset _ hPart)
  · have hName : path.name ∈ path.parts := by
      rw [Path.parts_eq hNamed.ne_nil]
      simp
    rw [name_target hNamed]
    apply FileName.visible_of_bytes (hNameable _ (by simp))
    rw [Path.generatedName, List.head?_append_of_ne_nil, Path.head?_stem]
    · exact hHead _ hName
    · rw [ne_eq, ← List.head?_eq_none_iff, Path.head?_stem, List.head?_eq_none_iff]
      exact (hNamed.plain _ hName).1

/-- A definition whose text can be made is found in the project's folder. -/
theorem found_of_draft {text : String} (hFindable : p.Findable path)
    (h : p.draft path t current = .ok (some text)) :
    t.follow (p.folder.start current) p.folder.names = .ok (p.folder.destination current) ∧
      t.get? (p.folder.destination current) = some .folder ∧
      (∀ name ∈ path.names, FileTree.Usable name) ∧
      (p.source path).bytes.length < FileTree.pathLimit := by
  have hPath := downward_of_draft hFindable.toNamed h
  obtain ⟨place, hLocate⟩ : ∃ place, t.locate current (p.source path).print = .ok place := by
    rw [draft, FileTree.fetch] at h
    cases hLocate : t.locate current (p.source path).print with
    | ok place => exact ⟨place, rfl⟩
    | error kind =>
        rw [hLocate] at h
        cases h
  have hSource := hFindable.source_sound
  cases hRefusal : (p.source path).refusal? with
  | some kind =>
      rw [FileTree.locate_of_refusal hRefusal] at hLocate
      cases hLocate
  | none =>
      rw [locate_source hSource.plain hFindable.root hRefusal] at hLocate
      cases hWay : t.follow (p.folder.start current) p.folder.names with
      | error kind =>
          rw [hWay] at hLocate
          cases hLocate
      | ok folder =>
          obtain rfl : p.folder.destination current = folder := FileTree.walk_of_follow hWay
          rw [hWay] at hLocate
          change t.follow _ (FileName.ofString "src" :: path.names) = .ok place at hLocate
          have hOrdinary : ∀ name ∈ FileName.ofString "src" :: path.names,
              FileName.Ordinary name := by
            intro name hName
            rcases List.mem_cons.mp hName with rfl | hName
            · exact ⟨by decide, by decide⟩
            · exact hPath.ordinary name hName
          have hUsable := FileTree.usable_of_follow hOrdinary hLocate
          exact ⟨rfl, (FileTree.follow_cons_eq_ok.mp hLocate).1,
            fun name hName => hUsable name (List.mem_cons_of_mem _ hName),
            hSource.refusal?_eq_none_iff.mp hRefusal⟩

/-- The folder of a generated file is as far down as that of its definition. -/
theorem length_target_parent (h : p.Named path) :
    (p.target path).parent.bytes.length = (p.source path).parent.bytes.length := by
  have hRoot : (p.target path).parent.root = (p.source path).parent.root := by
    rw [Path.parent, Path.parent, target_of_kept p h.root h.ne_nil, root_source p h.root]
  apply Path.length_bytes_congr hRoot
  have hNames : path.names ≠ [] := fun hNil => h.ne_nil (Path.names_eq_nil.mp hNil)
  rw [names_target_parent h, Path.names_parent, names_source p h.root, List.dropLast_append_cons,
    List.dropLast_cons_of_ne_nil hNames, below, Path.names_parent]
  simp only [List.map_append, List.map_cons]
  rfl

/-- A generated file whose text can be made can be written in the project's folder. -/
theorem ready_of_draft {text : String} (hFindable : p.Findable path)
    (hRooted : FileTree.Rooted t.get?) (h : p.draft path t current = .ok (some text)) :
    AtomicWrite.Ready t current (p.target path) (p.folder.destination current) (below path) := by
  obtain ⟨hWay, hFolder, hUsable, hLength⟩ := found_of_draft hFindable h
  refine ⟨hRooted, hFolder, hFindable.target_sound.parent, ?_, ⟨p.folder.names, ?_, ?_⟩, ?_⟩
  · rw [length_target_parent hFindable.toNamed]
    exact Nat.lt_of_le_of_lt hFindable.source_sound.length_bytes_parent_le hLength
  · exact names_target_parent hFindable.toNamed
  · rw [Path.start, Path.parent, target_of_kept p hFindable.root hFindable.ne_nil]
    exact hWay
  · intro name hName
    rcases List.mem_cons.mp hName with rfl | hName
    · exact ⟨⟨by decide, by decide⟩, by decide⟩
    · rw [Path.names_parent] at hName
      exact hUsable name (List.dropLast_subset _ hName)

/-- The fault of an update for one of writing its file. -/
def ofWrite : WriteFault Java.Defect → ProjectFault
  | .file fault => .file fault
  | .rejected d => .defect d

theorem writeGenerated_of_ok {target : Path} {text : String} (hConfig : p.config = {})
    (hLog : w.log = none)
    (h : AtomicWrite.write w.tree w.current target text (some Java.defect?) = (.ok (), t)) :
    p.writeGenerated target text w = .ok () { w with tree := t } := by
  rw [writeGenerated_default hConfig, writeAtomically]
  refine (Work.bind_of_ok (a := ()) (v := { w with tree := t }) ?_).trans ?_
  · simp only [Work.onTree, if_true, h]
  · exact congrArg (EStateM.Result.ok ())
      (Workshop.release_of_no_log (w := { w with tree := t }) hLog target)

theorem writeGenerated_of_error {target : Path} {text : String} {fault : WriteFault Java.Defect}
    (hConfig : p.config = {})
    (h : AtomicWrite.write w.tree w.current target text (some Java.defect?) = (.error fault, t)) :
    p.writeGenerated target text w = .error (ofWrite fault) { w with tree := t } := by
  rw [writeGenerated_default hConfig, writeAtomically]
  apply Work.bind_of_error
  cases fault <;> simp only [Work.onTree, if_true, h] <;> rfl

/-- A tree is to an update what another is. -/
structure Agrees (p : Project) (current : Place) (path : Path) (t₀ t : FileTree) : Prop where
  rooted : FileTree.Rooted t.get?
  sources : p.SameSources current (p.generatedPlace current) t₀ t
  similar : AtomicWrite.Similar t₀ t (p.target path) (p.folder.destination current) (below path)

/-- The change that an update is: none at all, or that of writing its file. -/
inductive Change (p : Project) (current : Place) (t₀ : FileTree) (path : Path) : Patch → Prop
  | idle : Change p current t₀ path {}
  | write {P : Patch}
      (hWay : t₀.follow (p.folder.start current) p.folder.names =
        .ok (p.folder.destination current))
      (hReady : AtomicWrite.Ready t₀ current (p.target path) (p.folder.destination current)
        (below path))
      (hFits : AtomicWrite.Fits t₀ (p.target path) (p.folder.destination current) (below path) P)
      (hVisible : ∀ name ∈ below path ++ [(p.target path).name.bytes?.getD []],
        FileName.Visible name) : Change p current t₀ path P

/-- An update has one outcome and is one change wherever things are to it what they were at
first. -/
structure Planned (p : Project) (current : Place) (t₀ : FileTree) (path : Path) (o : Outcome)
    (P : Patch) : Prop where
  change : p.Change current t₀ path P
  result : ∀ w : Workshop, w.log = none → w.current = current → p.Agrees current path t₀ w.tree →
    ∃ w', p.update path w = .ok o w' ∧ Steady w w' ∧ w'.tree.get? = P.apply w.tree.get?

theorem draft_of_agrees (hUsual : p.config.Usual) (hFindable : p.Findable path)
    (hReads : ∀ r ∈ p.reads path t₀ current, p.Passes current (p.generatedPlace current) r)
    (h : p.Agrees current path t₀ t) : p.draft path t current = p.draft path t₀ current := by
  apply draft_congr h.sources hUsual _ hFindable.plain hReads
  intro part hPart
  have hIs := hFindable.names part (List.mem_append_left _ hPart)
  exact ⟨hIs.ne_nil, hIs.slash⟩

theorem update_of_fault {fault : ProjectFault} (hUsual : p.config.Usual)
    (hFindable : p.Findable path) (hLog : w.log = none)
    (hDraft : p.draft path w.tree w.current = .error fault) :
    ∃ w', p.update path w = .ok (.failed path fault) w' ∧ w.Alike w' := by
  obtain ⟨w₁, hAlike, hCompile⟩ := compile_eq hUsual hFindable.root hFindable.plain hLog
  rw [hDraft] at hCompile
  have hTold := Workshop.alike_tell (hAlike.log.trans hLog) (.failed fault.message)
  exact ⟨_, attempt_of_error hCompile (isLocal_of_draft hUsual hFindable hDraft) rfl,
    hAlike.trans hTold⟩

theorem update_of_void (hUsual : p.config.Usual) (hFindable : p.Findable path)
    (hLog : w.log = none) (hDraft : p.draft path w.tree w.current = .ok none) :
    ∃ w', p.update path w = .ok .nothing w' ∧ w.Alike w' := by
  obtain ⟨w₁, hAlike, hCompile⟩ := compile_eq hUsual hFindable.root hFindable.plain hLog
  rw [hDraft] at hCompile
  exact ⟨w₁, attempt_of_none hCompile, hAlike⟩

theorem update_of_written {text : String} (hConfig : p.config = {}) (hFindable : p.Findable path)
    (hLog : w.log = none) (hDraft : p.draft path w.tree w.current = .ok (some text))
    (h : AtomicWrite.write w.tree w.current (p.target path) text (some Java.defect?) =
      (.ok (), t)) :
    ∃ w', p.update path w = .ok (.done (p.target path)) w' ∧ Steady w w' ∧ w'.tree = t := by
  have hUsual : p.config.Usual := hConfig ▸ Config.usual_default
  obtain ⟨w₁, hAlike, hCompile⟩ := compile_eq hUsual hFindable.root hFindable.plain hLog
  rw [← hAlike.tree, ← hAlike.current] at h
  have hLog₁ := hAlike.log.trans hLog
  have hTold := Workshop.alike_tell (w := { w₁ with tree := t }) hLog₁
    (.generated (p.target path).print)
  rw [hDraft, publish, Work.bind_of_ok (writeGenerated_of_ok hConfig hLog₁ h)] at hCompile
  exact ⟨_, attempt_of_some hCompile,
    ⟨hTold.current.trans hAlike.current, hTold.log.trans hAlike.log⟩, hTold.tree⟩

theorem update_of_unwritten {text : String} {fault : WriteFault Java.Defect}
    (hConfig : p.config = {}) (hFindable : p.Findable path) (hLog : w.log = none)
    (hDraft : p.draft path w.tree w.current = .ok (some text))
    (h : AtomicWrite.write w.tree w.current (p.target path) text (some Java.defect?) =
      (.error fault, t)) :
    ∃ w', p.update path w = .ok (.failed path (ofWrite fault)) w' ∧ Steady w w' ∧ w'.tree = t := by
  have hUsual : p.config.Usual := hConfig ▸ Config.usual_default
  obtain ⟨w₁, hAlike, hCompile⟩ := compile_eq hUsual hFindable.root hFindable.plain hLog
  rw [← hAlike.tree, ← hAlike.current] at h
  have hLog₁ := hAlike.log.trans hLog
  have hWrite := writeGenerated_of_error hConfig h
  have hTold := Workshop.alike_tell (w := { w₁ with tree := t }) hLog₁
    (.failed (ofWrite fault).message)
  rw [hDraft, publish, Work.bind_of_error hWrite] at hCompile
  exact ⟨_, attempt_of_error hCompile
      (isLocal_of_writeGenerated hConfig hFindable.target_sound hWrite) rfl,
    ⟨hTold.current.trans hAlike.current, hTold.log.trans hAlike.log⟩, hTold.tree⟩

/-- The name of a generated file is no step. -/
theorem ordinary_name_target (h : p.Named path) {name : FileName}
    (hBytes : (p.target path).name.bytes? = some name) : name.Ordinary := by
  have hMem : Text.Glyph.char 'j' ∈ (p.target path).name := by
    rw [name_target h]
    simp [Path.generatedName, loose]
  exact FileName.ordinary_of_mem ((Loose.byteOf_mem_iff hBytes (by decide)).mpr hMem) (by decide)

/-- Where nothing is in the way, an update makes the folders of its file, whatever becomes
of the file. -/
theorem update_of_text {text : String} (hConfig : p.config = {}) (hFindable : p.Findable path)
    (hLog : w.log = none) (hRooted : FileTree.Rooted w.tree.get?)
    (hDraft : p.draft path w.tree w.current = .ok (some text))
    (hFree : ¬w.tree.Blocked (p.folder.destination w.current) (below path)) :
    ∃ o w', p.update path w = .ok o w' ∧ Steady w w' ∧ ∀ q, q ≠ p.spot w.current path →
      w'.tree.get? q = (w.tree.makeFolders w.current (p.target path).parent).2.get? q := by
  have hReady := ready_of_draft hFindable hRooted hDraft
  obtain ⟨t₁, hMake, hView⟩ := FileTree.makeFoldersUpTo_of_free hReady.rooted hReady.folder hFree
    hReady.down hReady.down.length_lt
  obtain ⟨_, _, _, _, _, hTree⟩ := AtomicWrite.write_of_free hReady hFree hFindable.target_plain
    (by simp [parts_target hFindable.toNamed])
    (fun name => ordinary_name_target hFindable.toNamed) text (some Java.defect?)
  rw [FileTree.makeFolders, hMake, hView]
  cases hWrite : AtomicWrite.write w.tree w.current (p.target path) text (some Java.defect?) with
  | mk result t =>
      rw [hWrite] at hTree
      cases result with
      | ok _ =>
          obtain ⟨w', hUpdate, hSteady, rfl⟩ :=
            update_of_written hConfig hFindable hLog hDraft hWrite
          refine ⟨_, w', hUpdate, hSteady, fun q hq => ?_⟩
          rw [hTree, AtomicWrite.patchOf_ok_apply, if_neg hq]
      | error fault =>
          obtain ⟨w', hUpdate, hSteady, rfl⟩ :=
            update_of_unwritten hConfig hFindable hLog hDraft hWrite
          refine ⟨_, w', hUpdate, hSteady, fun q _ => ?_⟩
          rw [hTree, Patch.apply_of_no_file rfl]
          rfl

theorem exists_planned (hConfig : p.config = {}) (hFindable : p.Findable path)
    (hRooted : FileTree.Rooted t₀.get?)
    (hReads : ∀ r ∈ p.reads path t₀ current, p.Passes current (p.generatedPlace current) r) :
    ∃ o P, p.Planned current t₀ path o P := by
  have hUsual : p.config.Usual := hConfig ▸ Config.usual_default
  have hSame : ∀ {t}, p.Agrees current path t₀ t →
      p.draft path t current = p.draft path t₀ current :=
    draft_of_agrees hUsual hFindable hReads
  cases hDraft : p.draft path t₀ current with
  | error fault =>
      refine ⟨.failed path fault, {}, .idle, ?_⟩
      rintro w hLog rfl hAgrees
      obtain ⟨w', hUpdate, hAlike⟩ :=
        update_of_fault hUsual hFindable hLog ((hSame hAgrees).trans hDraft)
      exact ⟨w', hUpdate, .of_alike hAlike, by rw [hAlike.tree, Patch.apply_empty]⟩
  | ok text? =>
      cases text? with
      | none =>
          refine ⟨.nothing, {}, .idle, ?_⟩
          rintro w hLog rfl hAgrees
          obtain ⟨w', hUpdate, hAlike⟩ :=
            update_of_void hUsual hFindable hLog ((hSame hAgrees).trans hDraft)
          exact ⟨w', hUpdate, .of_alike hAlike, by rw [hAlike.tree, Patch.apply_empty]⟩
      | some text =>
          have hWay := (found_of_draft hFindable hDraft).1
          have hReady := ready_of_draft hFindable hRooted hDraft
          have hVisible := visible_of_draft hFindable.toNamed hDraft
          obtain ⟨result, P, hFits, hPlan⟩ := AtomicWrite.write_plan hReady hFindable.target_plain
            (by simp [parts_target hFindable.toNamed])
            (fun name => ordinary_name_target hFindable.toNamed) text (some Java.defect?)
          have hWrite : ∀ {t}, p.Agrees current path t₀ t → ∃ t',
              AtomicWrite.write t current (p.target path) text (some Java.defect?) = (result, t') ∧
                t'.get? = P.apply t.get? := by
            intro t hAgrees
            obtain ⟨hResult, hTree⟩ := hPlan t (ready_of_draft hFindable hAgrees.rooted
              ((hSame hAgrees).trans hDraft)) hAgrees.similar
            exact ⟨_, Prod.ext hResult rfl, hTree⟩
          cases result with
          | ok _ =>
              refine ⟨.done (p.target path), P, .write hWay hReady hFits hVisible, ?_⟩
              rintro w hLog rfl hAgrees
              obtain ⟨t, hDone, hTree⟩ := hWrite hAgrees
              obtain ⟨w', hUpdate, hSteady, rfl⟩ :=
                update_of_written hConfig hFindable hLog ((hSame hAgrees).trans hDraft) hDone
              exact ⟨w', hUpdate, hSteady, hTree⟩
          | error fault =>
              refine ⟨.failed path (ofWrite fault), P, .write hWay hReady hFits hVisible, ?_⟩
              rintro w hLog rfl hAgrees
              obtain ⟨t, hDone, hTree⟩ := hWrite hAgrees
              obtain ⟨w', hUpdate, hSteady, rfl⟩ :=
                update_of_unwritten hConfig hFindable hLog ((hSame hAgrees).trans hDraft) hDone
              exact ⟨w', hUpdate, hSteady, hTree⟩

end Project

end BinderIdl
