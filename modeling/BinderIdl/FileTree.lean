import BinderIdl.Path

/-! Trees of files. A place is the list of the names that lead to it from the
root; at a place there is a file, a folder or nothing. Names are bytes, and two
texts with the same bytes name the same file. Paths are followed name by name, so a
path through something that is not a folder leads nowhere, even if it goes up
again. -/
namespace BinderIdl

open Text (Loose loose)

/-- The name of a file in its folder. -/
abbrev FileName := List UInt8

/-- The name that a text of characters is. -/
def FileName.ofString (text : String) : FileName := text.toList.flatMap String.utf8EncodeChar

/-- A place in a tree. -/
abbrev Place := List FileName

/-- The path from the root to a place. -/
def Place.path (place : Place) : Path := ⟨.slash, place.map Loose.ofBytes⟩

/-- What is at a place. -/
inductive Node where
  | file (content : ByteArray)
  | folder
  deriving Inhabited

/-- A tree of files, as the places where something is. The root is a folder. -/
structure FileTree where
  nodes : List (Place × Node)
  deriving Inhabited

/-- Why something cannot be done with a file. -/
inductive FileFaultKind where
  | missing
  | isFolder
  | notFolder
  | present
  /-- A name in the path is too long, or the path itself. -/
  | tooLong
  /-- What should be replaced is a folder that the path leads through. -/
  | busy
  /-- The path has a null character. -/
  | nullCharacter
  /-- The path has a half of a surrogate pair that no file name has. -/
  | unnameable
  deriving DecidableEq, Repr

/-- The path is none at all, so that no file is looked at. -/
def FileFaultKind.isNoPath : FileFaultKind → Bool
  | nullCharacter | unnameable => true
  | _ => false

/-- A failure, with the paths that it is about: the one that was used, and the
one to which it should have been moved. -/
structure FileFault where
  kind : FileFaultKind
  path : Loose
  target : Option Loose := none
  deriving DecidableEq, Repr

/-- The words of a failure, with its number if it has one. -/
def FileFaultKind.words : FileFaultKind → String
  | missing => "[Errno 2] No such file or directory"
  | isFolder => "[Errno 21] Is a directory"
  | notFolder => "[Errno 20] Not a directory"
  | present => "[Errno 17] File exists"
  | tooLong => "[Errno 36] File name too long"
  | busy => "[Errno 16] Device or resource busy"
  | nullCharacter => "embedded null byte"
  | unnameable => "surrogates not allowed"

/-- The message of a failure. The path is shown if there is one. -/
def FileFault.message (f : FileFault) : String :=
  if f.kind.isNoPath then f.kind.words
  else
    f.kind.words ++ ": " ++ Text.quoted f.path ++
      match f.target with
      | some target => " -> " ++ Text.quoted target
      | none => ""

namespace FileTree

/-- The tree with nothing but the root. -/
def empty : FileTree := ⟨[]⟩

/-- What is at a place. -/
def get? (t : FileTree) (place : Place) : Option Node :=
  match place with
  | [] => some .folder
  | _ => t.nodes.lookup place

/-- The tree with something at a place. -/
def put (t : FileTree) (place : Place) (node : Node) : FileTree :=
  ⟨(place, node) :: t.nodes.filter fun (p, _) => p != place⟩

/-- The tree with nothing at a place. -/
def erase (t : FileTree) (place : Place) : FileTree :=
  ⟨t.nodes.filter fun (p, _) => p != place⟩

/-- The greatest number of bytes in a name. -/
def nameLimit : Nat := 255

/-- The number of bytes from which on a path is too long. -/
def pathLimit : Nat := 4096

/-- The name that stands for the folder itself. -/
def here : FileName := FileName.ofString "."

/-- The name that stands for the folder above. -/
def above : FileName := FileName.ofString ".."

/-- Follow names from a place. Each of them has to be looked up in a folder. -/
def follow (t : FileTree) (place : Place) : List FileName → Except FileFaultKind Place
  | [] => .ok place
  | name :: names =>
      match t.get? place with
      | some .folder =>
          if name = here then t.follow place names
          else if name = above then t.follow place.dropLast names
          else if nameLimit < name.length then .error .tooLong
          else t.follow (place ++ [name]) names
      | some (.file _) => .error .notFolder
      | none => .error .missing

/-- The byte that stands between names. -/
def slash : UInt8 := 0x2F

/-- The names in the bytes of a path. A slash at the end asks for a folder. -/
def names (bytes : List UInt8) : List FileName :=
  let names := (Path.pieces slash bytes).filter (· != [])
  if bytes.getLast? = some slash then names ++ [here] else names

/-- Why the bytes of a path cannot be followed at all. -/
def refusal? (bytes : List UInt8) : Option FileFaultKind :=
  if bytes.contains 0 then some .nullCharacter
  else if bytes = [] then some .missing
  else if pathLimit ≤ bytes.length then some .tooLong
  else none

/-- The place that the bytes of a path lead to from a folder. The empty path leads
nowhere. -/
def trace (t : FileTree) (current : Place) (bytes : List UInt8) : Except FileFaultKind Place :=
  match refusal? bytes with
  | some kind => .error kind
  | none => t.follow (if bytes.head? = some slash then [] else current) (names bytes)

/-- The place that a text names, seen from a folder. -/
def locate (t : FileTree) (current : Place) (text : Loose) : Except FileFaultKind Place :=
  match text.bytes? with
  | some bytes => t.trace current bytes
  | none => .error .unnameable

/-- What is at the place that a text names. -/
def find? (t : FileTree) (current : Place) (text : Loose) : Option Node :=
  match t.locate current text with
  | .ok place => t.get? place
  | .error _ => none

/-- What is at the place that a text names, where a name that is too long is not
taken as the name of nothing. -/
def look (t : FileTree) (current : Place) (text : Loose) :
    Except FileFault (Option Node) :=
  match t.locate current text with
  | .ok place => .ok (t.get? place)
  | .error .tooLong => .error ⟨.tooLong, text, none⟩
  | .error _ => .ok none

/-- Whether there is something. -/
def isThere (t : FileTree) (current : Place) (text : Loose) : Bool :=
  (t.find? current text).isSome

/-- Whether there is a folder. -/
def isFolder (t : FileTree) (current : Place) (text : Loose) : Bool :=
  match t.find? current text with
  | some .folder => true
  | _ => false

/-- The content of a file. -/
def fetch (t : FileTree) (current : Place) (text : Loose) :
    Except FileFault ByteArray :=
  match t.locate current text with
  | .error kind => .error ⟨kind, text, none⟩
  | .ok place =>
      match t.get? place with
      | some (.file content) => .ok content
      | some .folder => .error ⟨.isFolder, text, none⟩
      | none => .error ⟨.missing, text, none⟩

/-- The tree with a content in a file, which need not have been there. -/
def store (t : FileTree) (current : Place) (text : Loose) (content : ByteArray) :
    Except FileFault FileTree :=
  match t.locate current text with
  | .error kind => .error ⟨kind, text, none⟩
  | .ok place =>
      match t.get? place with
      | some .folder => .error ⟨.isFolder, text, none⟩
      | _ => .ok (t.put place (.file content))

/-- The tree without a file. -/
def drop (t : FileTree) (current : Place) (text : Loose) :
    Except FileFault FileTree :=
  match t.locate current text with
  | .error kind => .error ⟨kind, text, none⟩
  | .ok place =>
      match t.get? place with
      | some (.file _) => .ok (t.erase place)
      | some .folder => .error ⟨.isFolder, text, none⟩
      | none => .error ⟨.missing, text, none⟩

/-- The path of a text ends by leading to a folder that is there anyway. -/
def endsInStep (text : Loose) : Bool :=
  match (names (text.bytes?.getD [])).getLast? with
  | some name => name = here || name = above
  | none => true

/-- The tree with a file moved over another, which need not have been there. -/
def move (t : FileTree) (current : Place) (text target : Loose) :
    Except FileFault FileTree :=
  match t.locate current text, t.locate current target with
  | .error kind, _ => .error ⟨kind, text, some target⟩
  | _, .error kind => .error ⟨kind, text, some target⟩
  | .ok place, .ok place' =>
      if endsInStep target then .error ⟨.busy, text, some target⟩
      else
        match t.get? place, t.get? place' with
        | none, _ => .error ⟨.missing, text, some target⟩
        | _, some .folder => .error ⟨.isFolder, text, some target⟩
        | some node, _ => .ok ((t.erase place).put place' node)

/-- The tree with a new folder, in a folder that is there. -/
def makeFolder (t : FileTree) (current : Place) (path : Path) : Except FileFault FileTree :=
  match t.locate current path.print with
  | .error kind => .error ⟨kind, path.print, none⟩
  | .ok place =>
      match t.get? place with
      | some _ => .error ⟨.present, path.print, none⟩
      | none => .ok (t.put place .folder)

/-- The tree with a folder and the folders around it, as far as they were not
there. The fuel bounds the number of folders. -/
def makeFoldersUpTo (t : FileTree) (current : Place) (path : Path) :
    Nat → Except FileFault FileTree × FileTree
  | 0 => (t.makeFolder current path, t)
  | fuel + 1 =>
      match t.makeFolder current path with
      | .ok t' => (.ok t', t')
      | .error fault =>
          if fault.kind = .missing ∧ path.parent ≠ path then
            match t.makeFoldersUpTo current path.parent fuel with
            | (.error fault, t) => (.error fault, t)
            | (.ok t, _) =>
                match t.makeFolder current path with
                | .ok t' => (.ok t', t')
                | .error fault =>
                    if t.isFolder current path.print then (.ok t, t) else (.error fault, t)
          else if fault.kind ≠ .missing ∧ t.isFolder current path.print then (.ok t, t)
          else (.error fault, t)

/-- The tree with a folder and the folders around it. Folders that were made
before a failure stay: the second tree is there in any case. -/
def makeFolders (t : FileTree) (current : Place) (path : Path) :
    Except FileFault FileTree × FileTree :=
  t.makeFoldersUpTo current path (path.parts.length + 1)

end FileTree

end BinderIdl
