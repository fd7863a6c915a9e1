import BinderIdl.Text.Lines
import BinderIdl.Text.Loose

/-! Paths of files. A path is kept as its parts; parts that are empty or a single
dot are dropped, and parts that lead to the folder above are kept. -/
namespace BinderIdl

open Text (Loose loose)

/-- How a path starts. -/
inductive PathRoot where
  /-- From the current folder. -/
  | none
  /-- From the root. -/
  | slash
  /-- From the root, with exactly two slashes. -/
  | twoSlashes
  deriving DecidableEq, Repr

/-- A path. -/
structure Path where
  root : PathRoot
  parts : List Loose
  deriving DecidableEq, Repr

namespace Path

/-- The pieces of a list between separators. -/
def pieces {α : Type} [DecidableEq α] (separator : α) : List α → List (List α)
  | [] => [[]]
  | a :: as =>
      if a = separator then [] :: pieces separator as
      else
        match pieces separator as with
        | [] => [[a]]
        | p :: ps => (a :: p) :: ps

/-- The root of a path that is written as a text. -/
def rootOf : Loose → PathRoot
  | .char '/' :: .char '/' :: .char '/' :: _ => .slash
  | .char '/' :: .char '/' :: _ => .twoSlashes
  | .char '/' :: _ => .slash
  | _ => .none

/-- A piece is a part unless it is empty or a single dot. -/
def isPart (piece : Loose) : Bool := !piece.isEmpty && piece != loose "."

/-- The path that a text names. -/
def read (text : Loose) : Path := ⟨rootOf text, (pieces (.char '/') text).filter isPart⟩

/-- The text of a root. -/
def rootText : PathRoot → Loose
  | .none => loose ""
  | .slash => loose "/"
  | .twoSlashes => loose "//"

/-- The text of a path. The path without parts is the current folder. -/
def print (p : Path) : Loose :=
  if p.root = .none ∧ p.parts = [] then loose "."
  else rootText p.root ++ List.intercalate (loose "/") p.parts

/-- The text of a path for a reader. -/
def shown (p : Path) : String := p.print.shown

/-- Whether the path starts at the root. -/
def isAbsolute (p : Path) : Bool := p.root != .none

/-- A path seen from another. One that starts at the root stays as it is. -/
def append (p q : Path) : Path :=
  if q.isAbsolute then q else ⟨p.root, p.parts ++ q.parts⟩

instance : HDiv Path Path Path := ⟨append⟩

/-- A path from the root, given the current folder. -/
def absolute (p current : Path) : Path := current / p

/-- A path from the root, given the current folder, where parts that lead up are
taken back. -/
def resolved (p current : Path) : Path :=
  ⟨.slash, (p.absolute current).parts.foldl (fun parts part =>
    if part = loose ".." then parts.dropLast else parts ++ [part]) []⟩

/-- The parts with the root as a part of its own. -/
def allParts (p : Path) : List Loose :=
  if p.isAbsolute then rootText p.root :: p.parts else p.parts

/-- The last part, if there is one. -/
def name (p : Path) : Loose := p.parts.getLast?.getD []

/-- The folder of the path. -/
def parent (p : Path) : Path := ⟨p.root, p.parts.dropLast⟩

/-- What is left of the path below a folder. -/
def below? (p folder : Path) : Option Path :=
  if p.root = folder.root ∧ folder.parts.isPrefixOf p.parts then
    some ⟨.none, p.parts.drop folder.parts.length⟩
  else none

/-- The part of a name before its last dot, if something stands on both sides of
the dot. -/
def stem (name : Loose) : Loose :=
  let suffix := (name.reverse.takeWhile (· != .char '.')).reverse
  let rest := name.take (name.length - suffix.length)
  if suffix.isEmpty ∨ rest.length ≤ 1 then name else rest.dropLast

end Path

/-- Why a path cannot get another suffix. -/
inductive SuffixFault where
  /-- The suffix, which is shown, does not start with a dot, is only a dot, or has a
  slash. -/
  | invalid (shown : String)
  /-- The path has no name. -/
  | unnamed (path : Path)
  deriving DecidableEq, Repr

/-- The message of a fault. -/
def SuffixFault.message : SuffixFault → String
  | invalid shown => "Invalid suffix " ++ shown
  | unnamed path => "PosixPath(" ++ Text.quoted path.print ++ ") has an empty name"

/-- Whether a text can be a suffix. -/
def Path.isSuffix : Loose → Bool
  | [] => true
  | g :: rest => g == .char '.' && !rest.isEmpty && !rest.contains (.char '/')

/-- The path with another suffix. -/
def Path.withSuffix (p : Path) (suffix : Loose) : Except SuffixFault Path :=
  if !Path.isSuffix suffix then .error (.invalid (Text.quoted suffix))
  else if p.name = [] then .error (.unnamed p)
  else .ok ⟨p.root, p.parts.dropLast ++ [Path.stem p.name ++ suffix]⟩

end BinderIdl
