import BinderIdl.FileTree

/-! Writing a file in one step. The content goes into a new file beside the
target, which then takes the target's place; if anything fails on the way the
new file is removed and the target is as it was. -/
namespace BinderIdl

/-- Why a file was not written. -/
inductive WriteFault (ε : Type) where
  | file (fault : FileFault)
  /-- The content was checked and not accepted. -/
  | rejected (reason : ε)
  deriving DecidableEq, Repr

namespace AtomicWrite

variable {ε : Type}

/-- The name of the new file beside a target, with a number. -/
def temporaryName (name : Text.Loose) (number : Nat) : Text.Loose :=
  Text.loose "." ++ name ++ Text.loose ("." ++ Text.padded 8 number ++ ".tmp")

/-- A path beside a target at which nothing is. -/
def freshPath (t : FileTree) (current : Place) (target : Path) : Path :=
  let candidates := (List.range (t.nodes.length + 1)).map fun n =>
    target.parent / (⟨.none, [temporaryName target.name n]⟩ : Path)
  (candidates.find? fun p => !t.isThere current p.print).getD target

/-- The content is checked if there is a check. -/
def checked (check : Option (String → Option ε)) (content : String) : Except (WriteFault ε) Unit :=
  match check.bind fun defect? => defect? content with
  | some reason => .error (.rejected reason)
  | none => .ok ()

/-- The steps once the folder is there: fill the new file, check the content, and
move the file to its target. The second tree is the one to clean up. -/
def place (t : FileTree) (current : Place) (target temporary : Path) (content : String)
    (check : Option (String → Option ε)) : Except (WriteFault ε) Unit × FileTree :=
  match t.store current temporary.print content.toUTF8 with
  | .error fault => (.error (.file fault), t)
  | .ok t =>
      match checked check content with
      | .error fault => (.error fault, t)
      | .ok () =>
          match t.move current temporary.print target.print with
          | .error fault => (.error (.file fault), t)
          | .ok t => (.ok (), t)

/-- Remove the new file if it is there. -/
def cleanUp (t : FileTree) (current : Place) (temporary : Path) : FileTree :=
  match t.drop current temporary.print with
  | .ok t => t
  | .error _ => t

/-- Write a content to a target. The tree is the one that is left, also after a
failure. -/
def write (t : FileTree) (current : Place) (target : Path) (content : String)
    (check : Option (String → Option ε)) : Except (WriteFault ε) Unit × FileTree :=
  match t.makeFolders current target.parent with
  | (.error fault, t) => (.error (.file fault), t)
  | (.ok t, _) =>
      let temporary := freshPath t current target
      match place t current target temporary content check with
      | (.ok (), t) => (.ok (), t)
      | (.error fault, t) => (.error fault, cleanUp t current temporary)

end AtomicWrite

end BinderIdl
