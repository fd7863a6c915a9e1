import BinderIdl.Proofs.Files.AtomicWrite
import BinderIdl.Proofs.Project.Layout

/-! What compiling a definition does: first the text of the generated file is made,
which changes no file, and then it is written. -/
namespace BinderIdl

open Text (Loose loose)

namespace Project

variable {p : Project} {w : Workshop} {path : Path}

/-- The context in which a definition is encoded. -/
def contextOf (p : Project) (source : Source) (i : Interface) (t : FileTree) (current : Place) :
    Context :=
  let sources : SourceFolder :=
    { root := p.folder / Path.read (loose "src"), extension := p.config.javaExtension }
  { package := i.package, imports := i.imports, typeParameters := i.typeParameters
    known := p.known, source := some source
    lookup := some (sources.lookup t current), obstacle? := sources.obstacle? t current }

/-- The comment at the start of the generated file of a definition. -/
def bannerOf (p : Project) (path : Path) : Banner :=
  ⟨p.config.addComment.isSet, some path.shown, p.commandLine⟩

/-- The encoding of a definition. -/
def encoding (p : Project) (path : Path) (source : Source) (i : Interface) (t : FileTree)
    (current : Place) : EStateM.Result EncodeFault Desk String :=
  ((⟨0, p.contextOf source i t current⟩ : Writer).encodeInterface i (p.bannerOf path)).run {}

/-- The text of a definition. -/
def decoded (path : Path) (bytes : ByteArray) : Except Diagnostic String :=
  match Text.Utf8.decode bytes with
  | .ok cs => .ok (String.ofList (Text.unifyBreaks cs))
  | .error fault =>
      .error {
        complaint := .malformed
        message := "Not a UTF-8 file: " ++ fault.cause.reason ++ " at byte " ++
          toString fault.start ++ "."
        filename := some path.shown }

/-- The interface that a text holds, with its source. The empty text holds none. -/
def parsed (path : Path) (text : String) : Except Diagnostic (Option (Source × Interface)) :=
  if text = "" then .ok none
  else
    (Source.read (some path.shown) text).bind fun source =>
      (Interface.ofSource source).map (Option.map (Prod.mk source))

/-- The complaint about a definition that is not where its package and its name say. -/
def misplacement? (path : Path) (i : Interface) : Option Diagnostic :=
  if loose i.package ≠ List.intercalate (loose ".") path.parent.allParts then
    some {
      complaint := .misplaced
      message := "Wrong package '" ++ i.package ++ "' under folder '" ++ path.parent.shown ++ "'."
      filename := some path.shown }
  else if loose i.name ≠ nameBefore path.name 6 then
    some {
      complaint := .misplaced
      message := "Wrong interface name '" ++ i.name ++ "' in file '" ++ path.name.shown ++ "'."
      filename := some path.shown }
  else none

/-- The text of the generated file of what a definition holds. There is none if it
holds nothing. -/
def encoded (p : Project) (path : Path) (t : FileTree) (current : Place) :
    Except Diagnostic (Option (Source × Interface)) → Except ProjectFault (Option String)
  | .error d => .error (.diagnostic d)
  | .ok none => .ok none
  | .ok (some (source, i)) =>
      match misplacement? path i, p.encoding path source i t current with
      | some d, _ => .error (.diagnostic d)
      | none, .error fault _ => .error (.ofEncoding fault)
      | none, .ok text _ => .ok (some text)

/-- The text of the generated file of a definition. -/
def draft (p : Project) (path : Path) (t : FileTree) (current : Place) :
    Except ProjectFault (Option String) :=
  match t.fetch current (p.source path).print with
  | .error fault => .error (.file fault)
  | .ok bytes => p.encoded path t current ((decoded path bytes).bind (parsed path))

/-- Write the generated file of a definition, if there is a text for it. -/
def publish (p : Project) (path : Path) : Except ProjectFault (Option String) → Work (Option Path)
  | .error fault => throw fault
  | .ok none => return none
  | .ok (some text) => do
      p.writeGenerated (p.target path) text
      Work.tell (.generated (p.target path).print)
      return some (p.target path)

theorem misplacement?_eq_none {i : Interface} : misplacement? path i = none ↔
    loose i.package = List.intercalate (loose ".") path.parent.allParts ∧
      loose i.name = nameBefore path.name 6 := by
  rw [misplacement?]
  split
  · rename_i hPackage
    simp [hPackage]
  · rename_i hPackage
    split
    · rename_i hName
      simp [hName]
    · rename_i hName
      simp only [true_iff]
      exact ⟨not_not.mp hPackage, not_not.mp hName⟩

/-- A text that holds an interface is read into it. -/
theorem read_of_parsed {text : String} {source : Source} {i : Interface}
    (h : parsed path text = .ok (some (source, i))) :
    Source.read (some path.shown) text = .ok source ∧
      Interface.ofSource source = .ok (some i) := by
  rw [parsed] at h
  split at h
  · cases h
  · cases hRead : Source.read (some path.shown) text with
    | error d =>
        rw [hRead] at h
        cases h
    | ok source' =>
        rw [hRead] at h
        change (Interface.ofSource source').map (Option.map (Prod.mk source')) = _ at h
        cases hInterface : Interface.ofSource source' with
        | error d =>
            rw [hInterface] at h
            cases h
        | ok i? =>
            rw [hInterface] at h
            cases i? with
            | none => cases h
            | some i' =>
                cases h
                exact ⟨rfl, hInterface⟩

/-- Bytes that hold an interface are a text that is read into it. -/
theorem read_of_held {bytes : ByteArray} {source : Source} {i : Interface}
    (h : (decoded path bytes).bind (parsed path) = .ok (some (source, i))) :
    ∃ text, Source.read (some path.shown) text = .ok source ∧
      Interface.ofSource source = .ok (some i) := by
  cases hText : decoded path bytes with
  | error d =>
      rw [hText] at h
      cases h
  | ok text =>
      rw [hText] at h
      exact ⟨text, read_of_parsed h⟩

/-- A definition with a text holds an interface that is where it should be. -/
theorem interface_of_draft {t : FileTree} {current : Place} {text : String}
    (h : p.draft path t current = .ok (some text)) : ∃ source i content,
      Source.read (some path.shown) content = .ok source ∧
      Interface.ofSource source = .ok (some i) ∧ misplacement? path i = none := by
  rw [draft] at h
  split at h
  · cases h
  · rename_i bytes _
    cases hHeld : (decoded path bytes).bind (parsed path) with
    | error d =>
        rw [hHeld] at h
        cases h
    | ok held =>
        rw [hHeld] at h
        rcases held with _ | ⟨source, i⟩
        · cases h
        · obtain ⟨content, hRead, hInterface⟩ := read_of_held hHeld
          refine ⟨source, i, content, hRead, hInterface, ?_⟩
          simp only [encoded] at h
          split at h
          · cases h
          · cases h
          · assumption

/-- A complaint ends the work. -/
def heed : Option Diagnostic → Work Unit
  | some d => throw (.diagnostic d)
  | none => return ()

theorem checkPlace_eq (hUsual : p.config.Usual) (path : Path) (i : Interface) :
    p.checkPlace path i = heed (misplacement? path i) := by
  have hLength : p.extensionLength = .ok 6 := by
    rw [extensionLength, hUsual.sourceExtension]
    rfl
  rw [checkPlace, hLength, misplacement?]
  by_cases hPackage : loose i.package = List.intercalate (loose ".") path.parent.allParts
  · rw [if_neg (not_not_intro hPackage), if_neg (not_not_intro hPackage)]
    by_cases hName : loose i.name = nameBefore path.name 6
    · rw [if_neg (not_not_intro hName)]
      funext w
      exact congrFun (if_neg (not_not_intro hName)) w
    · rw [if_pos hName]
      exact if_pos hName
  · rw [if_pos hPackage, if_pos hPackage]
    rfl

/-- Tell what happened during an encoding, and take its answer. -/
def conclude (result : EStateM.Result EncodeFault Desk String) : Work String := fun w =>
  match result with
  | .ok text desk => .ok text (w.tellAll desk.journal)
  | .error fault desk => .error (.ofEncoding fault) (w.tellAll desk.journal)

theorem encode_eq (hUsual : p.config.Usual) (path : Path) (source : Source) (i : Interface) :
    p.encode path source i w = conclude (p.encoding path source i w.tree w.current) w := by
  have hFolder : p.lookupFolder w =
      .ok { root := p.folder / Path.read (loose "src"), extension := p.config.javaExtension } w := by
    rw [lookupFolder, Work.bind_of_ok (sourceFolder_eq hUsual w)]
    rfl
  exact Work.bind_of_ok hFolder

theorem readDefinition_of_ok {source : Path} (path : Path) {bytes : ByteArray}
    (h : w.tree.fetch w.current source.print = .ok bytes) :
    readDefinition source path w = orDiagnostic (decoded path bytes) w := by
  simp only [readDefinition, h, decoded]
  cases Text.Utf8.decode bytes with
  | ok cs => rfl
  | error fault => rfl

theorem bind_orDiagnostic_ok {α β : Type} (a : α) (f : α → Work β) :
    (orDiagnostic (.ok a) >>= f) = f a := rfl

/-- What is done with a definition that holds an interface. -/
def produce (p : Project) (path : Path) (source : Source) (i : Interface) : Work (Option Path) := do
  p.checkPlace path i
  let text ← p.encode path source i
  p.writeGenerated (p.target path) text
  Work.tell (.generated (p.target path).print)
  return some (p.target path)

theorem produce_eq (hUsual : p.config.Usual) (hLog : w.log = none) (source : Source)
    (i : Interface) : ∃ w', w.Alike w' ∧ p.produce path source i w =
      p.publish path (p.encoded path w.tree w.current (.ok (some (source, i)))) w' := by
  rw [produce, checkPlace_eq hUsual, encoded]
  cases misplacement? path i with
  | some d => exact ⟨w, .refl w, rfl⟩
  | none =>
      have hEncode := encode_eq (w := w) hUsual path source i
      rw [Work.bind_of_ok (x := heed none) (a := ()) rfl]
      cases hResult : p.encoding path source i w.tree w.current with
      | ok text desk =>
          rw [hResult] at hEncode
          rw [Work.bind_of_ok (hEncode.trans rfl)]
          exact ⟨_, Workshop.alike_tellAll hLog _, rfl⟩
      | error fault desk =>
          rw [hResult] at hEncode
          rw [Work.bind_of_error (hEncode.trans rfl)]
          exact ⟨_, Workshop.alike_tellAll hLog _, rfl⟩

/-- Compiling a definition makes a text, which changes no file, and writes it. -/
theorem compile_eq (hUsual : p.config.Usual) (hRoot : path.root = .none) (hPlain : path.Plain)
    (hLog : w.log = none) : ∃ w', w.Alike w' ∧
      p.compile path w = p.publish path (p.draft path w.tree w.current) w' := by
  rw [compile, Work.bind_of_ok (sourcePath_eq hUsual path w),
    Work.bind_of_ok (generatedPath_eq hUsual hRoot hPlain w), draft]
  cases hFetch : w.tree.fetch w.current (p.source path).print with
  | error fault =>
      have hRead : readDefinition (p.source path) path w = .error (.file fault) w := by
        simp only [readDefinition, hFetch]
      rw [Work.bind_of_error hRead]
      exact ⟨w, .refl w, rfl⟩
  | ok bytes =>
      have hRead := readDefinition_of_ok path hFetch
      show ∃ w', w.Alike w' ∧ _ = p.publish path (p.encoded path w.tree w.current _) w'
      cases hText : decoded path bytes with
      | error d =>
          rw [hText] at hRead
          rw [Work.bind_of_error (hRead.trans rfl)]
          exact ⟨w, .refl w, rfl⟩
      | ok text =>
          rw [hText] at hRead
          rw [Work.bind_of_ok (hRead.trans rfl)]
          show ∃ w', w.Alike w' ∧ _ = p.publish path (p.encoded path w.tree w.current
            (parsed path text)) w'
          rw [parsed]
          by_cases hNil : text = ""
          · rw [if_pos hNil, if_pos hNil]
            exact ⟨w, .refl w, rfl⟩
          · rw [if_neg hNil, if_neg hNil]
            cases Source.read (some path.shown) text with
            | error d => exact ⟨w, .refl w, rfl⟩
            | ok source =>
                rw [bind_orDiagnostic_ok]
                show ∃ w', w.Alike w' ∧ _ = p.publish path (p.encoded path w.tree w.current
                  ((Interface.ofSource source).map (Option.map (Prod.mk source)))) w'
                cases Interface.ofSource source with
                | error d => exact ⟨w, .refl w, rfl⟩
                | ok i? =>
                    rw [bind_orDiagnostic_ok]
                    cases i? with
                    | none => exact ⟨w, .refl w, rfl⟩
                    | some i => exact produce_eq hUsual hLog source i

/-- The folders and the log file stay what they are. -/
structure Steady (w w' : Workshop) : Prop where
  current : w'.current = w.current
  log : w'.log = w.log

theorem Steady.trans {w' w'' : Workshop} (h : Steady w w') (h' : Steady w' w'') : Steady w w'' :=
  ⟨h'.current.trans h.current, h'.log.trans h.log⟩

theorem Steady.of_alike {w' : Workshop} (h : w.Alike w') : Steady w w' := ⟨h.current, h.log⟩

/-- The room for new folders around a file. -/
abbrev room (w : Workshop) (target : Path) : Place → Prop :=
  FileTree.onTheWay target.parent w.current

theorem writeAtomically_cases {target : Path} (hTarget : target.Plain) (hLog : w.log = none)
    (text : String) (validate : Bool) :
    (∃ fault w', writeAtomically target text validate w = .error fault w' ∧ Steady w w' ∧
      w.tree.Grows w'.tree (room w target)) ∨
    (∃ w', writeAtomically target text validate w = .ok () w' ∧ Steady w w' ∧
      w.tree.Written w'.tree w.current target text.toUTF8) := by
  rcases AtomicWrite.write_cases w.tree w.current hTarget text
    (if validate then some Java.defect? else none) with
      ⟨fault, t, hWrite, hGrows⟩ | ⟨t, hWrite, _, hWritten⟩
  · left
    cases fault with
    | file fault =>
        refine ⟨.file fault, { w with tree := t }, Work.bind_of_error ?_, ⟨rfl, rfl⟩, hGrows⟩
        simp only [Work.onTree, hWrite]
    | rejected d =>
        refine ⟨.defect d, { w with tree := t }, Work.bind_of_error ?_, ⟨rfl, rfl⟩, hGrows⟩
        simp only [Work.onTree, hWrite]
  · right
    refine ⟨{ w with tree := t }, ?_, ⟨rfl, rfl⟩, hWritten⟩
    have hTree : ({ w with tree := t } : Workshop).release target = { w with tree := t } :=
      Workshop.release_of_no_log (w := { w with tree := t }) hLog target
    refine (Work.bind_of_ok (a := ()) (v := { w with tree := t }) ?_).trans ?_
    · simp only [Work.onTree, hWrite]
    · exact congrArg (EStateM.Result.ok ()) hTree

theorem writeInPlace_cases {target : Path} (hTarget : target.Plain) (w : Workshop)
    (text : String) :
    (∃ fault w', writeInPlace target text w = .error fault w' ∧ Steady w w' ∧
      w.tree.Grows w'.tree (room w target)) ∨
    (∃ w', writeInPlace target text w = .ok () w' ∧ Steady w w' ∧
      w.tree.Written w'.tree w.current target text.toUTF8) := by
  obtain ⟨hOk, hError⟩ := FileTree.makeFoldersUpTo_grows w.tree w.current hTarget.parent
    (target.parent.parts.length + 1)
  cases hMake : w.tree.makeFolders w.current target.parent with
  | mk made t =>
      rw [FileTree.makeFolders] at hMake
      rw [hMake] at hOk hError
      cases made with
      | error fault =>
          refine .inl ⟨.file fault, { w with tree := t }, ?_, ⟨rfl, rfl⟩, hError⟩
          simp only [writeInPlace, Work.onTree, FileTree.makeFolders, hMake]
      | ok t₁ =>
          have hGrows := hOk t₁ rfl
          cases hStore : t₁.store w.current target.print text.toUTF8 with
          | error fault =>
              refine .inl ⟨.file fault, { w with tree := t₁ }, ?_, ⟨rfl, rfl⟩, hGrows⟩
              simp only [writeInPlace, Work.onTree, FileTree.makeFolders, hMake, hStore]
          | ok t₂ =>
              obtain ⟨q, hLocate, hFolder, rfl⟩ := FileTree.store_eq_ok hStore
              refine .inr ⟨{ w with tree := t₁.put q (.file text.toUTF8) }, ?_, ⟨rfl, rfl⟩, t₁, q,
                hGrows, hLocate, hFolder, ?_⟩
              · simp only [writeInPlace, Work.onTree, FileTree.makeFolders, hMake, hStore]
              · funext r
                exact FileTree.get?_put (FileTree.ne_nil_of_get?_ne hFolder) _ r

theorem writeGenerated_cases {target : Path} (hTarget : target.Plain) (hLog : w.log = none)
    (text : String) :
    (∃ fault w', p.writeGenerated target text w = .error fault w' ∧ Steady w w' ∧
      w.tree.Grows w'.tree (room w target)) ∨
    (∃ w', p.writeGenerated target text w = .ok () w' ∧ Steady w w' ∧
      w.tree.Written w'.tree w.current target text.toUTF8) := by
  rw [writeGenerated]
  cases p.config.options "atomic_write" with
  | error fault => exact .inl ⟨.setting fault, w, rfl, ⟨rfl, rfl⟩, .refl _ _⟩
  | ok options =>
      obtain ⟨validate, atomic⟩ := options
      rw [Work.bind_of_ok (x := Work.useSetting _) (a := (validate, atomic)) rfl]
      dsimp only
      split
      · exact writeAtomically_cases hTarget hLog text validate.isSet
      · exact writeInPlace_cases hTarget w text

/-- What compiling a definition comes to. -/
inductive Compiled (p : Project) (path : Path) (w : Workshop) :
    EStateM.Result ProjectFault Workshop (Option Path) → Prop
  /-- There is no text for the generated file. -/
  | failed {fault : ProjectFault} {w' : Workshop} (hDraft : p.draft path w.tree w.current = .error fault)
      (hAlike : w.Alike w') : Compiled p path w (.error fault w')
  /-- There is nothing to be generated. -/
  | void {w' : Workshop} (hDraft : p.draft path w.tree w.current = .ok none) (hAlike : w.Alike w') :
      Compiled p path w (.ok none w')
  /-- The text could not be written. -/
  | unwritten {text : String} {fault : ProjectFault} {w₁ w' : Workshop}
      (hDraft : p.draft path w.tree w.current = .ok (some text)) (hAlike : w.Alike w₁)
      (hWrite : p.writeGenerated (p.target path) text w₁ = .error fault w') (hSteady : Steady w w')
      (hGrows : w.tree.Grows w'.tree (room w (p.target path))) : Compiled p path w (.error fault w')
  | written {text : String} {w' : Workshop}
      (hDraft : p.draft path w.tree w.current = .ok (some text)) (hSteady : Steady w w')
      (hWritten : w.tree.Written w'.tree w.current (p.target path) text.toUTF8) :
      Compiled p path w (.ok (some (p.target path)) w')

theorem compiled (hUsual : p.config.Usual) (hRoot : path.root = .none) (hPlain : path.Plain)
    (hTarget : (p.target path).Plain) (hLog : w.log = none) :
    Compiled p path w (p.compile path w) := by
  obtain ⟨w₁, hAlike, hCompile⟩ := compile_eq hUsual hRoot hPlain hLog
  rw [hCompile]
  cases hDraft : p.draft path w.tree w.current with
  | error fault => exact .failed hDraft hAlike
  | ok text? =>
      cases text? with
      | none => exact .void hDraft hAlike
      | some text =>
          have hLog' : w₁.log = none := hAlike.log.trans hLog
          rcases writeGenerated_cases hTarget hLog' text with
            ⟨fault, w₂, hWrite, hSteady, hGrows⟩ | ⟨w₂, hWrite, hSteady, hWritten⟩
          · rw [publish, Work.bind_of_error hWrite]
            rw [hAlike.tree, room, hAlike.current] at hGrows
            exact .unwritten hDraft hAlike hWrite ((Steady.of_alike hAlike).trans hSteady) hGrows
          · rw [publish, Work.bind_of_ok hWrite]
            rw [hAlike.tree, hAlike.current] at hWritten
            have hTell := Workshop.alike_tell (hSteady.log.trans hLog')
              (.generated (p.target path).print)
            apply Compiled.written hDraft
            · exact ((Steady.of_alike hAlike).trans hSteady).trans (.of_alike hTell)
            · rwa [hTell.tree]

/-- What removing the generated file of a definition comes to. -/
inductive Discarded (p : Project) (path : Path) (w : Workshop) :
    EStateM.Result ProjectFault Workshop (Option Path) → Prop
  /-- There is no such file. -/
  | absent {fault : FileFault} {w' : Workshop}
      (hDrop : w.tree.drop w.current (p.target path).print = .error fault)
      (hMissing : fault.kind = .missing) (hAlike : w.Alike w') : Discarded p path w (.ok none w')
  | stuck {fault : FileFault} (hDrop : w.tree.drop w.current (p.target path).print = .error fault)
      (hMissing : fault.kind ≠ .missing) : Discarded p path w (.error (.file fault) w)
  | removed {t : FileTree} {w' : Workshop}
      (hDrop : w.tree.drop w.current (p.target path).print = .ok t) (hSteady : Steady w w')
      (hTree : w'.tree = t) : Discarded p path w (.ok (some (p.target path)) w')

theorem discarded (hUsual : p.config.Usual) (hRoot : path.root = .none) (hPlain : path.Plain)
    (hLog : w.log = none) : Discarded p path w (p.discard path w) := by
  rw [discard, Work.bind_of_ok (generatedPath_eq hUsual hRoot hPlain w),
    Work.bind_of_ok (x := get) (a := w) rfl]
  cases hDrop : w.tree.drop w.current (p.target path).print with
  | error fault =>
      by_cases hMissing : fault.kind = .missing
      · simp only [hMissing, if_true]
        exact .absent hDrop hMissing (Workshop.alike_tell hLog _)
      · simp only [hMissing, if_false]
        exact .stuck hDrop hMissing
  | ok t =>
      have hTell := Workshop.alike_tell (w := { w with tree := t }) hLog
        (.removed (p.target path).print)
      simp only [Workshop.release_of_no_log hLog]
      exact .removed hDrop ⟨hTell.current, hTell.log⟩ hTell.tree

end Project

end BinderIdl
