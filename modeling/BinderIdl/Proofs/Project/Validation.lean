import BinderIdl.Proofs.Files.Content
import BinderIdl.Proofs.Project.Plan
import BinderIdl.Proofs.Stub.Accepted

/-! Generated files that are accepted. A file that is replaced in one step is checked before,
so what was generated is accepted. A file that is written in place is never checked: it is
accepted if nothing in the definition can reach the structure of the file. -/
namespace BinderIdl

open Text (Loose loose)

namespace Workshop

variable {w : Workshop} {path : Path} {content : ByteArray}

/-- The log file, if there is one, is not the file at a path. -/
def LogsElsewhere (w : Workshop) (path : Path) : Prop :=
  ∀ file, w.log = some file → ∀ q, w.tree.locate w.current path.print = .ok q →
    w.tree.locate [] file.path.print ≠ .ok q

/-- Telling something changes at most the log file. -/
theorem tell_cases (w : Workshop) (event : Event) :
    (w.tell event).tree = w.tree ∨ ∃ file q content, w.log = some file ∧
      w.tree.locate [] file.path.print = .ok q ∧ w.tree.get? q ≠ some .folder ∧
      (w.tell event).tree = w.tree.put q (.file content) := by
  cases hLog : w.log with
  | none => exact .inl (alike_tell hLog event).tree
  | some file =>
      have hTell : (w.tell event).tree = file.write w.tree (Log.entryOf event) := by
        simp only [tell, hLog]
      rw [hTell]
      rcases file.write_cases w.tree (Log.entryOf event) with hSame | ⟨q, content, hq, hNode, hPut⟩
      · exact .inl hSame
      · exact .inr ⟨file, q, content, rfl, hq, hNode, hPut⟩

theorem keeps_tell (w : Workshop) (event : Event) : w.tree.Keeps (w.tell event).tree := by
  rcases w.tell_cases event with hSame | ⟨_, _, _, _, _, hNode, hPut⟩
  · rw [hSame]
    exact fun _ hq => hq
  · rw [hPut]
    exact FileTree.keeps_put hNode _

theorem LogsElsewhere.of_tell {event : Event} (h : (w.tell event).LogsElsewhere path) :
    w.LogsElsewhere path := by
  intro file hLog q hPath hFile
  exact h file hLog q ((w.keeps_tell event).locate hPath) ((w.keeps_tell event).locate hFile)

/-- A file that is not the log file holds what it held. -/
theorem LogsElsewhere.fetch_tell (h : w.LogsElsewhere path)
    (hFetch : w.tree.fetch w.current path.print = .ok content) (event : Event) :
    (w.tell event).tree.fetch w.current path.print = .ok content := by
  rcases w.tell_cases event with hSame | ⟨file, q, _, hLog, hFile, hNode, hPut⟩
  · rw [hSame, hFetch]
  · rw [hPut]
    exact FileTree.fetch_put_of_ne hFetch hNode (fun hPath => h file hLog q hPath hFile) _

theorem release_cases (w : Workshop) (path : Path) :
    w.release path = { w with log := none } ∨ w.release path = w := by
  rw [release]
  split
  · split
    · split
      · exact .inl rfl
      · exact .inr rfl
    · exact .inr rfl
  · exact .inr rfl

/-- A log file that was given up if it was at a path is not there any more. -/
theorem logsElsewhere_release (hLog : ∀ file, w.log = some file → file.path.root ≠ .none)
    (path : Path) : (w.release path).LogsElsewhere path := by
  rcases w.release_cases path with hGone | hKept
  · rw [hGone]
    exact nofun
  · rw [hKept]
    intro file hFile q hPath hSame
    rw [FileTree.locate_absolute (hLog file hFile) w.current] at hSame
    have hGone : w.release path = { w with log := none } := by
      simp only [release, hFile, hPath, hSame, if_true]
    -- The log file was kept although it was at the path.
    rw [hGone] at hKept
    rw [← hKept] at hFile
    cases hFile

theorem log_tellAll (w : Workshop) (events : List Event) : (w.tellAll events).log = w.log := by
  induction events generalizing w with
  | nil => rfl
  | cons event events ih => exact ih (w.tell event)

end Workshop

namespace Work

variable {α β : Type} {w w' : Workshop}

theorem bind_eq_ok {x : Work α} {f : α → Work β} {b : β} (h : (x >>= f) w = .ok b w') :
    ∃ a v, x w = .ok a v ∧ f a v = .ok b w' := by
  cases hx : x w with
  | ok a v => exact ⟨a, v, rfl, (bind_of_ok hx).symm.trans h⟩
  | error fault v =>
      rw [bind_of_error hx] at h
      cases h

/-- Work that leaves the workshop as it is, unless it fails. -/
def Inert (x : Work α) : Prop := ∀ w a v, x w = .ok a v → v = w

theorem inert_pure (a : α) : Inert (pure a : Work α) := by
  rintro w _ _ ⟨⟩
  rfl

theorem inert_throw (fault : ProjectFault) : Inert (throw fault : Work α) := nofun

theorem Inert.bind {x : Work α} {f : α → Work β} (hx : Inert x) (hf : ∀ a, Inert (f a)) :
    Inert (x >>= f) := by
  intro w b v h
  obtain ⟨a, u, hFirst, hRest⟩ := bind_eq_ok h
  exact (hf a u b v hRest).trans (hx w a u hFirst)

theorem inert_useSetting (setting : Except SettingFault α) : Inert (useSetting setting) := by
  cases setting with
  | ok a => exact inert_pure a
  | error fault => exact inert_throw _

end Work

namespace Project

open Work

variable {p : Project} {w w' : Workshop} {path g : Path}

theorem inert_sourcePath (p : Project) (path : Path) : Inert (p.sourcePath path) :=
  (inert_useSetting _).bind fun _ => inert_pure _

theorem inert_generatedPath (p : Project) (path : Path) : Inert (p.generatedPath path) := by
  refine (inert_useSetting _).bind fun folder => ?_
  split
  · exact inert_pure _
  · exact inert_throw _

theorem inert_readDefinition (source path : Path) : Inert (readDefinition source path) := by
  intro w text v h
  rw [readDefinition] at h
  split at h
  · cases h
  · split at h
    · cases h
      rfl
    · cases h

theorem inert_checkPlace (p : Project) (path : Path) (i : Interface) :
    Inert (p.checkPlace path i) := by
  rw [checkPlace]
  split
  · exact inert_throw _
  · refine (inert_useSetting _).bind fun extension => ?_
    split
    · exact inert_throw _
    · exact inert_pure _

theorem encode_eq_ok {source : Source} {i : Interface} {text : String}
    (h : p.encode path source i w = .ok text w') : ∃ (context : Context) (desk : Desk),
      context.typeParameters = i.typeParameters ∧
      (⟨0, context⟩ : Writer).encodeInterface i (p.bannerOf path) {} = .ok text desk ∧
      w' = w.tellAll desk.journal := by
  obtain ⟨sources, v, hFolder, hRest⟩ := bind_eq_ok h
  obtain rfl : v = w := (inert_useSetting _).bind (fun _ => inert_pure _) _ _ _ hFolder
  dsimp only at hRest
  split at hRest
  · rename_i desk hRun
    cases hRest
    exact ⟨_, desk, rfl, hRun, rfl⟩
  · cases hRest

/-- The definition at a path, with its source and its interface. -/
def Defines (p : Project) (path : Path) (w : Workshop) (s : Source) (i : Interface) : Prop :=
  ∃ source definition, p.sourcePath path w = .ok source w ∧
    readDefinition source path w = .ok definition w ∧
    Source.read (some path.shown) definition = .ok s ∧ Interface.ofSource s = .ok (some i)

/-- There is only one definition at a path. -/
theorem Defines.eq_of_held {s s' : Source} {i i' : Interface} {bytes : ByteArray}
    (hUsual : p.config.Usual) (hFetch : w.tree.fetch w.current (p.source path).print = .ok bytes)
    (hHeld : (decoded path bytes).bind (parsed path) = .ok (some (s', i')))
    (h : p.Defines path w s i) : s = s' ∧ i = i' := by
  obtain ⟨source, definition, hSource, hText, hRead, hParse⟩ := h
  rw [sourcePath_eq hUsual] at hSource
  cases hSource
  rw [readDefinition_of_ok path hFetch] at hText
  cases hDecoded : decoded path bytes with
  | error d =>
      rw [hDecoded] at hText
      cases hText
  | ok text =>
      rw [hDecoded] at hText hHeld
      cases hText
      obtain ⟨hRead', hParse'⟩ := read_of_parsed hHeld
      rw [hRead'] at hRead
      cases hRead
      rw [hParse'] at hParse
      cases hParse
      exact ⟨rfl, rfl⟩

/-- Where a file was generated, there is a definition in its place whose text was written. -/
theorem compile_eq_some (h : p.compile path w = .ok (some g) w') : ∃ s i text w₁ w₂,
    p.Defines path w s i ∧ p.generatedPath path w = .ok g w ∧
      p.checkPlace path i w = .ok () w ∧ p.encode path s i w = .ok text w₁ ∧
      p.writeGenerated g text w₁ = .ok () w₂ ∧ w' = w₂.tell (.generated g.print) := by
  obtain ⟨source, v, hSource, hBehind⟩ := bind_eq_ok h
  obtain rfl : v = w := p.inert_sourcePath path _ _ _ hSource
  obtain ⟨generated, v₁, hGenerated, hBehind₁⟩ := bind_eq_ok hBehind
  obtain rfl : v₁ = v := p.inert_generatedPath path _ _ _ hGenerated
  obtain ⟨definition, v₂, hText, hBehind₂⟩ := bind_eq_ok hBehind₁
  obtain rfl : v₂ = v₁ := inert_readDefinition source path _ _ _ hText
  split at hBehind₂
  · cases hBehind₂
  · cases hRead : Source.read (some path.shown) definition with
    | error d =>
        rw [hRead] at hBehind₂
        cases hBehind₂
    | ok s =>
        rw [hRead, bind_orDiagnostic_ok] at hBehind₂
        cases hParse : Interface.ofSource s with
        | error d =>
            rw [hParse] at hBehind₂
            cases hBehind₂
        | ok i? =>
            rw [hParse, bind_orDiagnostic_ok] at hBehind₂
            cases i? with
            | none => cases hBehind₂
            | some i =>
                obtain ⟨_, v₃, hPlace, hBehind₃⟩ := bind_eq_ok hBehind₂
                obtain rfl : v₃ = v₂ := p.inert_checkPlace path i _ _ _ hPlace
                obtain ⟨text, w₁, hEncode, hBehind₄⟩ := bind_eq_ok hBehind₃
                obtain ⟨_, w₂, hWrite, hBehind₅⟩ := bind_eq_ok hBehind₄
                cases hBehind₅
                exact ⟨s, i, text, w₁, w₂, ⟨source, definition, hSource, hText, hRead, hParse⟩,
                  hGenerated, hPlace, hEncode, hWrite, rfl⟩

theorem onTree_eq_ok {α : Type} {f : FileTree → Place → Except ProjectFault α × FileTree} {a : α}
    (h : onTree f w = .ok a w') :
    ∃ t, f w.tree w.current = (.ok a, t) ∧ w' = { w with tree := t } := by
  rw [onTree] at h
  split at h
  · rename_i t hDone
    cases h
    exact ⟨t, hDone, rfl⟩
  · cases h

/-- A file that was replaced in one step was accepted, and is not the log file any more. -/
theorem fetch_of_writeAtomically {text : String} {validate : Bool}
    (hLog : ∀ file, w.log = some file → file.path.root ≠ .none)
    (h : writeAtomically g text validate w = .ok () w') :
    (validate = true → Java.defect? text = none) ∧ w'.LogsElsewhere g ∧
      w'.tree.fetch w'.current g.print = .ok text.toUTF8 := by
  obtain ⟨_, v, hTree, hRelease⟩ := bind_eq_ok h
  obtain ⟨t, hWrite, rfl⟩ := onTree_eq_ok hTree
  split at hWrite
  · rename_i t' hDone
    cases hWrite
    obtain ⟨hCheck, hFetch⟩ := AtomicWrite.fetch_of_write hDone
    obtain rfl : w' = ({ w with tree := t } : Workshop).release g := by
      cases hRelease
      rfl
    refine ⟨?_, Workshop.logsElsewhere_release (w := { w with tree := t }) hLog g, ?_⟩
    · rintro rfl
      exact AtomicWrite.eq_none_of_checked hCheck
    · rcases Workshop.release_cases { w with tree := t } g with hGone | hKept
      · rw [hGone]
        exact hFetch
      · rw [hKept]
        exact hFetch
  · cases hWrite
  · cases hWrite

theorem fetch_of_writeInPlace {text : String} (h : writeInPlace g text w = .ok () w') :
    w'.tree.fetch w'.current g.print = .ok text.toUTF8 := by
  obtain ⟨t, hWrite, rfl⟩ := onTree_eq_ok h
  split at hWrite
  · cases hWrite
  · split at hWrite
    · rename_i hStore
      cases hWrite
      exact FileTree.fetch_store hStore
    · cases hWrite

/-- The text of a definition that is where it should be. -/
theorem draft_of_held {t : FileTree} {current : Place} {bytes : ByteArray} {s : Source}
    {i : Interface} {text : String} {desk : Desk}
    (hFetch : t.fetch current (p.source path).print = .ok bytes)
    (hHeld : (decoded path bytes).bind (parsed path) = .ok (some (s, i)))
    (hPlace : misplacement? path i = none)
    (hEncoding : p.encoding path s i t current = .ok text desk) :
    p.draft path t current = .ok (some text) := by
  simp only [draft, hFetch, hHeld, encoded, hPlace, hEncoding]

/-- Where the text of a definition can be written, its file is generated. -/
theorem compile_of_draft (p : Project) (path : Path) (w : Workshop) {text : String}
    (hUsual : p.config.Usual) (hRoot : path.root = .none) (hPlain : path.Plain) (hLog : w.log = none)
    (hDraft : p.draft path w.tree w.current = .ok (some text))
    (hWrite : ∀ w₁, w.Alike w₁ → ∃ w₂, p.writeGenerated (p.target path) text w₁ = .ok () w₂ ∧
      w₂.log = none) :
    ∃ w₁ w₂, p.writeGenerated (p.target path) text w₁ = .ok () w₂ ∧ w₂.log = none ∧
      p.compile path w = .ok (some (p.target path)) (w₂.tell (.generated (p.target path).print)) := by
  obtain ⟨w₁, hAlike, hCompile⟩ := compile_eq hUsual hRoot hPlain hLog
  obtain ⟨w₂, hDone, hGone⟩ := hWrite w₁ hAlike
  refine ⟨w₁, w₂, hDone, hGone, ?_⟩
  rw [hCompile, hDraft, publish, bind_of_ok hDone]
  rfl

/-- A generated file holds the text of its definition, which was accepted if it had to be and
the file was replaced in one step. -/
theorem holds_of_compile {validate atomic : Setting}
    (hOptions : p.config.options "atomic_write" = .ok (validate, atomic))
    (hLog : ∀ file, w.log = some file → file.path.root ≠ .none)
    (hPlace : atomic.isSet = true ∨ w'.LogsElsewhere g)
    (hDone : p.compile path w = .ok (some g) w') : ∃ s i context text desk, p.Defines path w s i ∧
      context.typeParameters = i.typeParameters ∧
      (⟨0, context⟩ : Writer).encodeInterface i (p.bannerOf path) {} = .ok text desk ∧
      w'.tree.fetch w'.current g.print = .ok text.toUTF8 ∧
      (validate.isSet = true → atomic.isSet = true → Java.defect? text = none) := by
  obtain ⟨s, i, text, w₁, w₂, hDefines, -, -, hEncode, hWrite, rfl⟩ := compile_eq_some hDone
  obtain ⟨context, desk, hContext, hFile, rfl⟩ := encode_eq_ok hEncode
  have hLog₁ : ∀ file, (w.tellAll desk.journal).log = some file → file.path.root ≠ .none := by
    rwa [w.log_tellAll]
  rw [writeGenerated, hOptions,
    bind_of_ok (x := useSetting _) (a := (validate, atomic)) rfl] at hWrite
  dsimp only at hWrite
  cases hAtomic : atomic.isSet with
  | true =>
      rw [hAtomic] at hWrite
      obtain ⟨hDefect, hElsewhere, hFetch⟩ := fetch_of_writeAtomically hLog₁ hWrite
      exact ⟨s, i, context, text, desk, hDefines, hContext, hFile, hElsewhere.fetch_tell hFetch _,
        fun hValidate _ => hDefect hValidate⟩
  | false =>
      rw [hAtomic] at hWrite hPlace
      have hElsewhere := (hPlace.resolve_left Bool.false_ne_true).of_tell
      exact ⟨s, i, context, text, desk, hDefines, hContext, hFile,
        hElsewhere.fetch_tell (fetch_of_writeInPlace hWrite) _, fun _ hOn => by cases hOn⟩

end Project

/-- Nothing in the definition at a path, nor in the comment of its file, can reach the
structure of the file. -/
structure Project.Tame (p : Project) (path : Path) (w : Workshop) : Prop where
  banner : (p.bannerOf path).Harmless
  blocks : ∀ s i, p.Defines path w s i → ∀ t ∈ s.tokens, t.cls = .typeBlock → Java.Plain t.value
  package : ∀ s i, p.Defines path w s i → '$' ∉ i.package.toList

/-- It is enough to look at the definition that was read. -/
theorem Project.Tame.of_held {p : Project} {path : Path} {w : Workshop} {s : Source} {i : Interface}
    {bytes : ByteArray} (hUsual : p.config.Usual)
    (hFetch : w.tree.fetch w.current (p.source path).print = .ok bytes)
    (hHeld : (decoded path bytes).bind (parsed path) = .ok (some (s, i)))
    (hBanner : (p.bannerOf path).Harmless)
    (hBlocks : ∀ t ∈ s.tokens, t.cls = .typeBlock → Java.Plain t.value)
    (hDollar : '$' ∉ i.package.toList) : p.Tame path w where
  banner := hBanner
  blocks s' i' hDefines := by
    obtain ⟨rfl, -⟩ := hDefines.eq_of_held hUsual hFetch hHeld
    exact hBlocks
  package s' i' hDefines := by
    obtain ⟨-, rfl⟩ := hDefines.eq_of_held hUsual hFetch hHeld
    exact hDollar

/-- The file at a path holds a text that the check accepts. -/
def Workshop.Accepts (w : Workshop) (path : Path) : Prop :=
  ∃ text, w.tree.fetch w.current path.print = .ok text.toUTF8 ∧ Java.defect? text = none

/-- Where files are to be checked, one that was generated is accepted if it was replaced in one
step, whatever the definition is. If it was written in place, it is accepted if the definition
is tame. A log file has a path from the root on; it may be anywhere in the first case, and not in
the place of the generated file in the second. -/
theorem accepts_of_compile (p : Project) (path g : Path) (w w' : Workshop) (validate atomic : Setting)
    (hOptions : p.config.options "atomic_write" = .ok (validate, atomic))
    (hValidate : validate.isSet = true)
    (hLog : ∀ file, w.log = some file → file.path.root ≠ .none)
    (hWay : atomic.isSet = true ∨ (p.Tame path w ∧ w'.LogsElsewhere g))
    (hDone : p.compile path w = .ok (some g) w') : w'.Accepts g := by
  obtain ⟨s, i, context, text, desk, hDefines, hContext, hFile, hFetch, hDefect⟩ :=
    Project.holds_of_compile hOptions hLog (hWay.imp_right And.right) hDone
  refine ⟨text, hFetch, ?_⟩
  rcases hWay with hAtomic | ⟨hTame, -⟩
  · exact hDefect hValidate hAtomic
  · have hBlocks := hTame.blocks s i hDefines
    have hDollar := hTame.package s i hDefines
    obtain ⟨_, _, -, -, hRead, hParse⟩ := hDefines
    exact defect?_of_encodeInterface hRead hParse hBlocks hDollar hTame.banner hContext hFile

/-- A project in the current folder whose files are to be checked. -/
private def checking (atomic : Bool) : Project where
  folder := Path.read (loose "project")
  config := { output := some (.options (.bool true) (.bool atomic)) }
  commandLine := none
  known := []

private def notePath : Path := Path.read (loose "demo/INote.aidl2")

/-- The definition is the only file. -/
private def holding (definition : String) : Workshop where
  tree := ⟨[
    (["project"].map FileName.ofString, .folder),
    (["project", "src"].map FileName.ofString, .folder),
    (["project", "src", "demo"].map FileName.ofString, .folder),
    (["project", "src", "demo", "INote.aidl2"].map FileName.ofString, .file definition.toUTF8)]⟩
  current := []

private theorem fetch_holding (definition : String) (atomic : Bool) :
    (holding definition).tree.fetch [] ((checking atomic).source notePath).print =
      .ok definition.toUTF8 := rfl

private theorem harmless_checking (atomic : Bool) : ((checking atomic).bannerOf notePath).Harmless := by
  constructor
  · intro name hName
    cases hName
    exact not_infix_literal (by decide)
  · exact nofun

/-- Nothing is in the way of the generated file. -/
private theorem write_holding (definition text : String) : ∃ t,
    AtomicWrite.write (holding definition).tree [] ((checking true).target notePath) text
      (none : Option (String → Option Java.Defect)) = (.ok (), t) := ⟨_, rfl⟩

private theorem writes_holding {definition text : String} {atomic : Bool}
    (hAccepted : atomic = true → Java.defect? text = none) (w : Workshop)
    (h : (holding definition).Alike w) :
    ∃ w', (checking atomic).writeGenerated ((checking atomic).target notePath) text w = .ok () w' ∧
      w'.log = none := by
  obtain ⟨tree, current, lists, journal, log⟩ := w
  obtain ⟨rfl, rfl, rfl⟩ := h
  cases atomic with
  | true =>
      obtain ⟨t, hWrite⟩ := write_holding definition text
      rw [← AtomicWrite.write_of_accepted (hAccepted rfl)] at hWrite
      exact ⟨_, Project.writeGenerated_of_ok rfl rfl hWrite, rfl⟩
  | false => exact ⟨_, rfl, rfl⟩

theorem exists_of_outcome {α β : Type} {x : Except Diagnostic (Option α)} {f : α → β} {b : β}
    (h : x.toOption.join.map f = some b) : ∃ a, x = .ok (some a) ∧ f a = b := by
  obtain ⟨a, hRun, hPart⟩ := Option.map_eq_some_iff.mp h
  refine ⟨a, ?_, hPart⟩
  cases hOutcome : x with
  | error d => simp [hOutcome, Except.toOption] at hRun
  | ok a? => simpa [hOutcome, Except.toOption] using hRun

private def notes : String :=
  "package demo; interface INote<T extends Comparable<T>> \x7b void put(in T[] a); \x7d"

theorem accepts_of_compile_notes :
    (∃ g w', (checking true).compile notePath (holding notes) = .ok (some g) w' ∧ w'.Accepts g) ∧
    ∃ g w', (checking false).compile notePath (holding notes) = .ok (some g) w' ∧ w'.Accepts g := by
  have hRun : ((Project.decoded notePath notes.toUTF8).bind (Project.parsed notePath)).toOption.join.map
      (fun held => (decide ((∀ t ∈ held.1.tokens, t.cls = .typeBlock → Java.Plain t.value) ∧
        '$' ∉ held.2.package.toList ∧ Project.misplacement? notePath held.2 = none),
        (((⟨0, (checking true).contextOf held.1 held.2 (holding notes).tree []⟩ : Writer).encodeInterface
          held.2 ((checking true).bannerOf notePath)).answer {}).toBool)) = some (true, true) := by
    decide +kernel
  obtain ⟨⟨s, i⟩, hHeld, hParts⟩ := exists_of_outcome hRun
  obtain ⟨hBlocks, hDollar, hPlace⟩ := of_decide_eq_true (congrArg Prod.fst hParts)
  obtain ⟨text, desk, hFile⟩ := Encoding.exists_of_answer (congrArg Prod.snd hParts)
  obtain ⟨definition, hRead, hParse⟩ := Project.read_of_held hHeld
  have hDefect := defect?_of_encodeInterface hRead hParse hBlocks hDollar (harmless_checking true) rfl hFile
  have hDone : ∀ atomic, ∃ w', (checking atomic).compile notePath (holding notes) =
      .ok (some ((checking atomic).target notePath)) w' ∧ w'.log = none := by
    intro atomic
    have hDraft := Project.draft_of_held (fetch_holding notes atomic) hHeld hPlace hFile
    obtain ⟨w₁, w₂, -, hLog, hDone⟩ := Project.compile_of_draft (checking atomic) notePath
      (holding notes) ⟨rfl, rfl, rfl, rfl⟩ rfl (Path.read_plain _) rfl hDraft
      (writes_holding fun _ => hDefect)
    exact ⟨_, hDone, hLog⟩
  have hTame : (checking false).Tame notePath (holding notes) :=
    .of_held ⟨rfl, rfl, rfl, rfl⟩ (fetch_holding notes false) hHeld (harmless_checking false) hBlocks
      hDollar
  obtain ⟨w₁, hAtomic, -⟩ := hDone true
  obtain ⟨w₂, hInPlace, hLog⟩ := hDone false
  have hElsewhere : w₂.LogsElsewhere ((checking false).target notePath) := by
    intro file hFile
    rw [hLog] at hFile
    cases hFile
  exact ⟨⟨_, w₁, hAtomic, accepts_of_compile _ _ _ (holding notes) _ _ _ rfl rfl nofun (.inl rfl) hAtomic⟩,
    _, w₂, hInPlace, accepts_of_compile _ _ _ (holding notes) _ _ _ rfl rfl nofun
      (.inr ⟨hTame, hElsewhere⟩) hInPlace⟩

/-- An interface with a block that opens a brace. -/
private def gaping : Interface where
  package := "demo"
  imports := []
  javadoc := none
  modifiers := []
  name := "INote"
  typeBlock := some "<T extends \x7b>"
  typeParameters := [⟨"T", ["\x7b"]⟩]
  methods := []

section

open Java

/-- The interface without its block and its bounds. -/
private def closed : Interface := { gaping with typeBlock := none, typeParameters := [⟨"T", []⟩] }

private theorem plain_closed : closed.Plain where
  package := plain_literal rfl
  imports := nofun
  javadoc := nofun
  name := plain_literal rfl
  typeBlock := nofun
  typeParameters := List.forall_mem_singleton.mpr ⟨plain_literal rfl, nofun⟩
  methods := nofun

private theorem nests_block (d : Nat) : Nests gaping.typeBlockText d (d + 1) := .fixed rfl rfl

private theorem nests_applied (d : Nat) : Nests gaping.appliedName d d :=
  .word plain_closed.appliedName

private theorem spans_opening_gaping : Spans gaping.opening 0 2 := by
  have hHeader : Spans gaping.headerLines 0 0 := plain_closed.spans_headerLines
  have hInterface : Nests ("public interface " ++ gaping.name ++ gaping.typeBlockText ++
      " extends android.os.IInterface \x7b") 0 2 :=
    (((Nests.fixed rfl rfl).append (.word plain_closed.name)).append (nests_block 0)).append
      (.fixed rfl rfl)
  exact ((hHeader.append (spans_docLines plain_closed.javadoc 0 0)).append
    (.singleton hInterface)).append (.one (.fixedComment rfl))

private theorem spans_cast_gaping : Spans gaping.asInterfaceHead 4 6 := by
  have hRemark : Java.Plain (" * Cast an IBinder object into an " ++ gaping.name ++
      " interface, generating a proxy if needed.") :=
    plain_append.mpr ⟨plain_append.mpr ⟨plain_literal rfl, plain_closed.name⟩, plain_literal rfl⟩
  have hLiteral : Nests ("\"" ++ "unchecked" ++ "\"") 4 4 :=
    .literal (by decide) (by decide) (by decide)
  have hText : "@SuppressWarnings(\"unchecked\")" =
      "@SuppressWarnings(" ++ ("\"" ++ "unchecked" ++ "\"") ++ ")" := by decide
  refine .remark hRemark ?_
  rw [if_neg (by decide), hText]
  refine .line (((Nests.fixed rfl rfl).append hLiteral).append (.fixed rfl rfl)) (.one ?_)
  exact ((((Nests.fixed rfl rfl).append (nests_block 4)).append (.fixed rfl rfl)).append
    (nests_applied 5)).append (.fixed rfl rfl)

private theorem spans_proxy_gaping : Spans gaping.proxyHead 5 7 := by
  refine .line (((((Nests.fixed rfl rfl).append (nests_block 5)).append (.fixed rfl rfl)).append
    (nests_applied 6)).append (.fixed rfl rfl)) (.line (.fixed rfl rfl) (.blank ?_))
  iterate 3 refine .line (.fixed rfl rfl) ?_
  refine .blank ?_
  iterate 4 refine .line (.fixed rfl rfl) ?_
  refine .blank ?_
  iterate 3 refine .line (.fixed rfl rfl) ?_
  exact .nil

/-- The other lines are those of the closed interface, as many braces deeper as the block has
opened so far. -/
private theorem spans_remainder_gaping : Spans (gaping.remainder []) 4 4 := by
  have hClose : Spans [lineAt 2 "\x7d"] 7 6 := .one (.fixed rfl rfl)
  have hStubClose : Spans [lineAt 1 "\x7d"] 6 5 := .one (.fixed rfl rfl)
  have hMethods := ((plain_closed.spans_stubHead.add 2).append spans_cast_gaping).append
    (plain_closed.spans_asInterfaceBody.add 3)
  have hDispatcher := ((hMethods.append (Interface.spans_dispatcherHead.add 3)).append .nil).append
    (Interface.spans_dispatcherTail.add 3)
  have hHelpers := (hDispatcher.append .nil).append (.blank .nil)
  have hInner := ((hHelpers.append spans_proxy_gaping).append .nil).append hClose
  exact (((hInner.append .nil).append hStubClose).append .nil).append (.singleton (.fixed rfl rfl))

/-- The braces that the block opens are never closed. -/
private theorem nests_gaping {b : Banner} (hBanner : b.Harmless) :
    Nests (gaping.fileText b []) 0 4 := by
  have hStub : Nests ("public static abstract class Stub" ++ gaping.typeBlockText ++
      " extends android.os.Binder implements " ++ gaping.appliedName ++ " \x7b") 2 4 :=
    ((((Nests.fixed rfl rfl).append (nests_block 2)).append (.fixed rfl rfl)).append
      (nests_applied 3)).append (.fixed rfl rfl)
  have hCode : Spans (gaping.codeLines []) 0 4 := by
    rw [Interface.codeLines_eq]
    exact (spans_opening_gaping.append (.one hStub)).append spans_remainder_gaping
  rw [Interface.fileText_eq]
  exact (Banner.nests_text hBanner).append hCode

end

private def gap : String := "package demo;\ninterface INote<T extends \x7b> \x7b\n\x7d\n"

/-- A file that is written in place is not checked, also where files are to be checked. -/
theorem compile_skips_check : ∃ g w',
    (checking false).config.options "atomic_write" = .ok (.bool true, .bool false) ∧
    (checking false).compile notePath (holding gap) = .ok (some g) w' ∧ ¬w'.Accepts g := by
  have hRun : ((Project.decoded notePath gap.toUTF8).bind (Project.parsed notePath)).toOption.join.map
      Prod.snd = some gaping := by
    decide +kernel
  obtain ⟨⟨s, i⟩, hHeld, hSame⟩ := exists_of_outcome hRun
  obtain rfl : i = gaping := hSame
  obtain ⟨desk, hFile⟩ : ∃ desk, (checking false).encoding notePath s gaping (holding gap).tree [] =
      .ok (gaping.fileText ((checking false).bannerOf notePath) []) desk := ⟨_, rfl⟩
  have hDraft := Project.draft_of_held (fetch_holding gap false) hHeld (by decide +kernel) hFile
  obtain ⟨w₁, w₂, hWrite, hLog, hDone⟩ := Project.compile_of_draft (checking false) notePath
    (holding gap) ⟨rfl, rfl, rfl, rfl⟩ rfl (Path.read_plain _) rfl hDraft (writes_holding nofun)
  refine ⟨_, _, rfl, hDone, ?_⟩
  rintro ⟨text, hFetch, hDefect⟩
  have hTold := Workshop.alike_tell hLog (.generated ((checking false).target notePath).print)
  rw [hTold.tree, hTold.current, Project.fetch_of_writeInPlace hWrite] at hFetch
  obtain rfl : gaping.fileText _ [] = text := String.toByteArray_inj.mp (Except.ok.inj hFetch)
  obtain ⟨bare, hLeaves, hDepth⟩ := nests_gaping (harmless_checking false)
  have hCounts := Java.count_of_depth? hDepth
  have hSame := Java.count_of_accepted hDefect
  rw [hLeaves.eq] at hSame
  omega

end BinderIdl
