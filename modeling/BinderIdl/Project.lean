import BinderIdl.AtomicWrite
import BinderIdl.Config
import BinderIdl.Interface.Parse
import BinderIdl.KnownLists
import BinderIdl.Log
import BinderIdl.SourceFolder
import BinderIdl.Stub.Text
import BinderIdl.Java.Check
import BinderIdl.Text.Lowercase

/-! Projects. The interface definitions of a project are compiled into files of
another folder, each at the same place below it; a definition that is gone takes
its generated file along. What goes wrong with one definition is reported and
does not stop the others. -/
namespace BinderIdl

/-- Where the work is done: the files, the current folder, the lists of known
types that were read, what happened, and the log file, which tells it as well. A
log file that was replaced or removed is no longer there. -/
structure Workshop where
  tree : FileTree
  current : Place
  lists : KnownLists := {}
  journal : List Event := []
  log : Option Log.File := none

namespace Workshop

/-- Write an event into the journal and into the log file. -/
def tell (w : Workshop) (event : Event) : Workshop :=
  { w with
    journal := w.journal ++ [event]
    tree :=
      match w.log with
      | some file => file.write w.tree (Log.entryOf event)
      | none => w.tree }

/-- Write events one by one. -/
def tellAll (w : Workshop) (events : List Event) : Workshop := events.foldl tell w

/-- Give up the log file if it is the one at a path. -/
def release (w : Workshop) (path : Path) : Workshop :=
  match w.log, w.tree.locate w.current path.print with
  | some file, .ok place =>
      match w.tree.locate w.current file.path.print with
      | .ok place' => if place' = place then { w with log := none } else w
      | .error _ => w
  | _, _ => w

end Workshop

/-- What can go wrong in a project. -/
inductive ProjectFault where
  | diagnostic (diagnostic : Diagnostic)
  /-- There is something to complain about in a definition, but no place for it. -/
  | unplaced (position : Int)
  | defect (defect : Java.Defect)
  | file (fault : FileFault)
  | setting (fault : SettingFault)
  | suffix (fault : SuffixFault)
  | list (fault : ListFault)
  deriving DecidableEq, Repr

namespace ProjectFault

/-- The message of a fault. -/
def message : ProjectFault → String
  | diagnostic d => d.text
  | unplaced position => unplacedMessage position
  | defect d => d.message
  | file fault => fault.message
  | setting fault => fault.message
  | suffix fault => fault.message
  | list fault => fault.message

/-- Faults of a single definition or of the files around it. Other faults stop a
run, and so does a path that is none. -/
def isLocal : ProjectFault → Bool
  | diagnostic _ | defect _ => true
  | file fault => !fault.kind.isNoPath
  | _ => false

/-- The fault of a definition whose code cannot be made. -/
def ofEncoding : EncodeFault → ProjectFault
  | .located d => diagnostic d
  | .unplaced position => unplaced position
  | .lookup (.setting fault) => setting fault
  | .lookup (.file fault) => file fault

end ProjectFault

/-- Work in a workshop that can fail. What was done before a failure stays done. -/
abbrev Work := EStateM ProjectFault Workshop

namespace Work

/-- Tell what happened. -/
def tell (event : Event) : Work Unit := modify fun w => w.tell event

/-- The current folder as a path. -/
def currentPath : Work Path := do
  return (← get).current.path

/-- Use a setting. -/
def useSetting {α : Type} : Except SettingFault α → Work α
  | .ok a => pure a
  | .error fault => throw (.setting fault)

/-- Do something with the files that gives a tree in any case. -/
def onTree {α : Type} (f : FileTree → Place → Except ProjectFault α × FileTree) : Work α :=
  fun w =>
    match f w.tree w.current with
    | (.ok a, tree) => .ok a { w with tree }
    | (.error fault, tree) => .error fault { w with tree }

/-- The names of known types at a path, or the bundled ones. -/
def loadKnown (path : Text.Loose) : Work (List String) := fun w =>
  match w.lists.load w.tree w.current path with
  | .ok (names, lists, events) => .ok names ({ w with lists }.tellAll events)
  | .error fault => .error (.list fault) w

end Work

/-- A project with what is needed to compile its definitions. -/
structure Project where
  /-- The folder of the project. -/
  folder : Path
  config : Config
  /-- The command that is shown in generated files. -/
  commandLine : Option String
  /-- Names that are known to be Parcelable. -/
  known : List String

namespace Project

open Work

/-- Open a project. The lists of known types are read now. -/
def load (folder : Path) (config : Config) (commandLine : Option String) : Work Project := do
  let path := if config.knownTypesFile.isSet then config.knownTypesFile.asText else []
  let known ← useSetting config.known
  let listed ← loadKnown path
  let extra ← useSetting (Config.names known)
  return { folder, config, commandLine, known := KnownTypes.union listed extra }

/-- A folder that a setting names, below the project's. -/
def subfolder (p : Project) : Setting → Except SettingFault Path
  | .text s => .ok (p.folder / Path.read s)
  | v => .error (.noFolder v.kind)

/-- The folder of the sources. -/
def sourceFolder (p : Project) : Work Path := useSetting (p.subfolder p.config.sourceDir)

/-- The extension of sources, in small letters. -/
def sourceExtension (p : Project) : Except SettingFault Text.Loose :=
  match p.config.sourceExtension with
  | .text s => .ok (Text.lowercase s)
  | v => .error (.lacks v.kind "lower")

/-- Where paths of definitions are looked for: the folder of the sources, and the
folder where other tools leave copies of them. -/
structure Places where
  extension : Text.Loose
  sources : Path
  copies : Path

/-- What to do with a path. -/
inductive Sorting where
  | keep (path : Path)
  | ignore (path : Path)
  | skip
  deriving DecidableEq, Repr

/-- Sort a path. Only paths with the extension of sources count, whatever the case
of its letters; and of these the ones below one of the two folders are kept, as
seen from there. -/
def Places.sort (places : Places) (path : Path) : Sorting :=
  if !places.extension.isSuffixOf (Text.lowercase path.name) then .skip
  else
    match path.below? places.sources, path.below? places.copies with
    | some rest, _ => .keep rest
    | none, some rest => .keep rest
    | none, none => .ignore path

/-- The places of the project. -/
def places (p : Project) : Work Places := do
  let extension ← useSetting p.sourceExtension
  let sources ← p.sourceFolder
  let current ← currentPath
  return ⟨extension, sources.absolute current,
    (p.folder / Path.read "bin/classes").absolute current⟩

/-- The definitions among some paths, as seen from the folder of the sources. -/
def filterSources (p : Project) (paths : List String) : Work (List Path) := do
  let places ← p.places
  let current ← currentPath
  let kept ← paths.mapM fun (text : String) =>
    match places.sort ((Path.read text).absolute current) with
    | .keep path => return [path]
    | .skip => return []
    | .ignore path => do
        tell (.ignored path.print places.sources.print)
        return []
  return kept.flatten

/-- Whether a list or an object holds a slash, which no suffix has. -/
def holdsSlash : Setting → Bool
  | .list vs => vs.any fun v => v.same (.text "/")
  | .object fields => fields.any fun (key, _) => key == Text.loose "/"
  | _ => false

/-- The path with the suffix that a setting gives. -/
def withSuffix (path : Path) : Setting → Except ProjectFault Path
  | .text s =>
      match path.withSuffix s with
      | .ok path => .ok path
      | .error fault => .error (.suffix fault)
  | v =>
      match v with
      | .list _ | .object _ =>
          if holdsSlash v then .error (.suffix (.invalid v.inner))
          else if v.isSet then .error (.setting (.lacks v.kind "startswith"))
          else if path.name = [] then .error (.suffix (.unnamed path))
          else .error (.setting (.noText v.kind))
      | _ => .error (.setting (.noContent v.kind))

/-- The generated file of a definition. -/
def generatedPath (p : Project) (path : Path) : Work Path := do
  let folder ← useSetting (p.subfolder p.config.genDir)
  match withSuffix (folder / path) p.config.javaExtension with
  | .ok path => return path
  | .error fault => throw fault

/-- The file of a definition. -/
def sourcePath (p : Project) (path : Path) : Work Path := do
  return (← p.sourceFolder) / path

/-- The text of a definition. Every kind of line end reads as a line feed. -/
def readDefinition (source path : Path) : Work String := fun w =>
  match w.tree.fetch w.current source.print with
  | .error fault => .error (.file fault) w
  | .ok bytes =>
      match Text.Utf8.decode bytes with
      | .ok cs => .ok (String.ofList (Text.unifyBreaks cs)) w
      | .error fault =>
          .error (.diagnostic {
            complaint := .malformed
            message := "Not a UTF-8 file: " ++ fault.cause.reason ++ " at byte " ++
              toString fault.start ++ "."
            filename := some path.shown }) w

/-- A diagnostic, if there is one. -/
def orDiagnostic {α : Type} : Except Diagnostic α → Work α
  | .ok a => pure a
  | .error d => throw (.diagnostic d)

/-- The name of a file without as many characters as the extension has. An empty
extension leaves nothing. -/
def nameBefore (name : Text.Loose) (extension : Nat) : Text.Loose :=
  if extension = 0 then [] else name.take (name.length - extension)

/-- The length of the extension of sources. -/
def extensionLength (p : Project) : Except SettingFault Nat :=
  match p.config.sourceExtension with
  | .text s => .ok s.length
  | .list vs => .ok vs.length
  | .object fs => .ok fs.length
  | v => .error (.noLength v.kind)

/-- Whether a definition is where its package and its name say. -/
def checkPlace (p : Project) (path : Path) (i : Interface) : Work Unit := do
  if Text.loose i.package ≠ List.intercalate (Text.loose ".") path.parent.allParts then
    throw (.diagnostic {
      complaint := .misplaced
      message := "Wrong package '" ++ i.package ++ "' under folder '" ++ path.parent.shown ++ "'."
      filename := some path.shown })
  let extension ← useSetting p.extensionLength
  if Text.loose i.name ≠ nameBefore path.name extension then
    throw (.diagnostic {
      complaint := .misplaced
      message := "Wrong interface name '" ++ i.name ++ "' in file '" ++ path.name.shown ++ "'."
      filename := some path.shown })

/-- The sources among which natures of types are looked up. -/
def lookupFolder (p : Project) : Work SourceFolder := do
  return { root := ← p.sourceFolder, extension := p.config.javaExtension }

/-- The generated text of a definition. -/
def encode (p : Project) (path : Path) (source : Source) (i : Interface) : Work String := do
  let sources ← p.lookupFolder
  fun w =>
    let context : Context := {
      package := i.package, imports := i.imports, typeParameters := i.typeParameters
      known := p.known, source := some source
      lookup := some (sources.lookup w.tree w.current)
      obstacle? := sources.obstacle? w.tree w.current }
    let banner : Banner := ⟨p.config.addComment.isSet, some path.shown, p.commandLine⟩
    let writer : Writer := ⟨0, context⟩
    match (writer.encodeInterface i banner).run {} with
    | .ok text desk => .ok text (w.tellAll desk.journal)
    | .error fault desk => .error (.ofEncoding fault) (w.tellAll desk.journal)

/-- Write a generated file in one step. It is a new file, even if there was one. -/
def writeAtomically (path : Path) (text : String) (validate : Bool) : Work Unit := do
  onTree fun t current =>
    match AtomicWrite.write t current path text (if validate then some Java.defect? else none) with
    | (.ok (), t) => (.ok (), t)
    | (.error (.file fault), t) => (.error (.file fault), t)
    | (.error (.rejected d), t) => (.error (.defect d), t)
  modify fun w => w.release path

/-- Write a generated file in place. -/
def writeInPlace (path : Path) (text : String) : Work Unit :=
  onTree fun t current =>
    match t.makeFolders current path.parent with
    | (.error fault, t) => (.error (.file fault), t)
    | (.ok t, _) =>
        match t.store current path.print text.toUTF8 with
        | .ok t => (.ok (), t)
        | .error fault => (.error (.file fault), t)

/-- Write a generated file the way the configuration says. -/
def writeGenerated (p : Project) (path : Path) (text : String) : Work Unit := do
  let (validate, atomic) ← useSetting (p.config.options "atomic_write")
  if atomic.isSet then writeAtomically path text validate.isSet else writeInPlace path text

/-- Compile a definition. There is no generated file for one that holds nothing. -/
def compile (p : Project) (path : Path) : Work (Option Path) := do
  let sourcePath ← p.sourcePath path
  let generated ← p.generatedPath path
  let text ← readDefinition sourcePath path
  if text = "" then return none
  let source ← orDiagnostic (Source.read (some path.shown) text)
  match ← orDiagnostic (Interface.ofSource source) with
  | none => return none
  | some i =>
      p.checkPlace path i
      let text ← p.encode path source i
      p.writeGenerated generated text
      tell (.generated generated.print)
      return some generated

/-- Remove the generated file of a definition, if there is one. -/
def discard (p : Project) (path : Path) : Work (Option Path) := do
  let generated ← p.generatedPath path
  let w ← get
  match w.tree.drop w.current generated.print with
  | .ok tree =>
      set { w.release generated with tree }
      tell (.removed generated.print)
      return some generated
  | .error fault =>
      if fault.kind = .missing then
        tell (.absent generated.print)
        return none
      else throw (.file fault)

/-- What a run did. -/
structure Report where
  generated : List Path := []
  removed : List Path := []
  failures : List (Path × ProjectFault) := []
  deriving Repr

/-- Nothing failed. -/
def Report.isFine (r : Report) : Bool := r.failures.isEmpty

/-- One outcome in a run. -/
inductive Outcome where
  | done (path : Path)
  | nothing
  | failed (path : Path) (fault : ProjectFault)
  deriving Repr

/-- Turn a local fault into an outcome, which is reported. -/
def attempt (path : Path) (work : Work (Option Path)) (complain : ProjectFault → Work Unit) :
    Work Outcome := fun w =>
  match work w with
  | .ok (some done) w => .ok (.done done) w
  | .ok none w => .ok .nothing w
  | .error fault w =>
      if fault.isLocal then
        match complain fault w with
        | .ok () w => .ok (.failed path fault) w
        | .error fault w => .error fault w
      else .error fault w

/-- Compile a definition in a run. -/
def update (p : Project) (path : Path) : Work Outcome :=
  attempt path (p.compile path) fun fault => tell (.failed fault.message)

/-- Remove a generated file in a run. -/
def remove (p : Project) (path : Path) : Work Outcome :=
  attempt path (p.discard path) fun fault => do
    let generated ← p.generatedPath path
    tell (.stuck generated.print fault.message)

/-- The paths that something was done with. -/
def donePaths (outcomes : List Outcome) : List Path :=
  outcomes.filterMap fun o =>
    match o with
    | .done path => some path
    | _ => none

/-- The failures among outcomes. -/
def failures (outcomes : List Outcome) : List (Path × ProjectFault) :=
  outcomes.filterMap fun o =>
    match o with
    | .failed path fault => some (path, fault)
    | _ => none

/-- Compile what was updated and remove what was removed, one path at a time. -/
def run (p : Project) (updated removed : List String) : Work Report := do
  let updates ← (← p.filterSources updated).mapM p.update
  let removals ← (← p.filterSources removed).mapM p.remove
  return {
    generated := donePaths updates
    removed := donePaths removals
    failures := failures updates ++ failures removals }

end Project

end BinderIdl
