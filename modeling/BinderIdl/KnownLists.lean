import BinderIdl.Event
import BinderIdl.FileTree
import BinderIdl.KnownTypes
import BinderIdl.Text.Utf8

/-! Lists of known types that are read from files, each once. -/
namespace BinderIdl

/-- The lists that were read, by the path that was asked for. The bundled list has
none. -/
structure KnownLists where
  loaded : List (Option Text.Loose × List String) := []
  deriving Repr, Inhabited

/-- Why a list cannot be read. -/
inductive ListFault where
  | file (fault : FileFault)
  | encoding (fault : Text.Utf8.Fault)
  deriving DecidableEq, Repr

/-- The message of a fault. -/
def ListFault.message : ListFault → String
  | file fault => fault.message
  | encoding fault => fault.message

namespace KnownLists

/-- How the bundled list is called. -/
def bundledName : String := "<bundled>"

/-- Read a list. Its bytes arrive in blocks. -/
def readList (t : FileTree) (current : Place) : Option Text.Loose →
    Except ListFault (List String)
  | none => .ok KnownTypes.bundled
  | some path =>
      match t.fetch current path with
      | .error fault => .error (.file fault)
      | .ok bytes =>
          match Text.Utf8.decodeBlocks 8191 [] bytes.toList with
          | .error fault => .error (.encoding fault)
          | .ok cs => .ok (KnownTypes.read (Text.unifyBreaks cs))

/-- The list at a path, or the bundled one for the empty path; with what happened
if it had to be read. Failures are not remembered. -/
def load (lists : KnownLists) (t : FileTree) (current : Place) (path : Text.Loose) :
    Except ListFault (List String × KnownLists × List Event) :=
  let key := if path = [] then none else some path
  match lists.loaded.lookup key with
  | some names => .ok (names, lists, [])
  | none =>
      match readList t current key with
      | .error fault => .error fault
      | .ok names =>
          .ok (names, ⟨(key, names) :: lists.loaded⟩,
            [.loaded names.length (key.getD (Text.loose bundledName))])

end KnownLists

end BinderIdl
