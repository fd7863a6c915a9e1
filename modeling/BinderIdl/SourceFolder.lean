import BinderIdl.FileTree
import BinderIdl.Setting

/-! The sources of a project, as far as it matters whether there is one for a
type. -/
namespace BinderIdl

/-- Why a source cannot be looked for. -/
inductive LookupFault where
  /-- The extension of sources is no text. -/
  | setting (fault : SettingFault)
  | file (fault : FileFault)
  deriving DecidableEq, Repr

/-- A folder of sources. Answers are remembered, so later changes of the files do
not change them. -/
structure SourceFolder where
  root : Path
  extension : Setting
  answers : List ((String × String) × Bool) := []
  deriving Repr

namespace SourceFolder

/-- A qualified name as a path. -/
def slashed (name : String) : Text.Loose :=
  Text.loose (String.ofList (name.toList.map fun c => if c = '.' then '/' else c))

/-- The path of a type below a folder of sources. An extension can be asked for
instead of the usual one. -/
def fileOf (s : SourceFolder) (type extension : String) :
    Except LookupFault Text.Loose :=
  if extension ≠ "" then .ok (slashed type ++ Text.loose extension)
  else
    match s.extension with
    | .text extension => .ok (slashed type ++ extension)
    | v => .error (.setting (.noText v.kind))

/-- What is at a path. -/
def nodeAt (t : FileTree) (current : Place) (path : Path) :
    Except LookupFault (Option Node) :=
  match t.look current path.print with
  | .ok node => .ok node
  | .error fault => .error (.file fault)

/-- Where the source of a type is expected: below the folder itself, if something
is there, and otherwise below the folder of the package. -/
def pathOf (s : SourceFolder) (t : FileTree) (current : Place) (type package : String)
    (extension : String := "") : Except LookupFault Path := do
  let file ← s.fileOf type extension
  let path := s.root / Path.read file
  if (← nodeAt t current path).isSome || package = "" then return path
  return s.root / Path.read (slashed package) / Path.read file

/-- Whether there is a source for a type. -/
def has (s : SourceFolder) (t : FileTree) (current : Place) (type package : String) :
    Except LookupFault Bool := do
  match ← nodeAt t current (← s.pathOf t current type package) with
  | some (.file _) => return true
  | _ => return false

/-- Whether there is a source for a type, if it can be looked for. -/
def lookup (s : SourceFolder) (t : FileTree) (current : Place) (type package : String) :
    Bool :=
  match s.has t current type package with
  | .ok answer => answer
  | .error _ => false

/-- What keeps a source from being looked for. -/
def obstacle? (s : SourceFolder) (t : FileTree) (current : Place) (type package : String) :
    Option LookupFault :=
  match s.has t current type package with
  | .ok _ => none
  | .error fault => some fault

/-- Whether there is a source for a type, as it was the first time. -/
def ask (s : SourceFolder) (t : FileTree) (current : Place) (type package : String) :
    Except LookupFault (Bool × SourceFolder) :=
  match s.answers.lookup (type, package) with
  | some answer => .ok (answer, s)
  | none => do
      let answer ← s.has t current type package
      return (answer, { s with answers := ((type, package), answer) :: s.answers })

end SourceFolder

end BinderIdl
