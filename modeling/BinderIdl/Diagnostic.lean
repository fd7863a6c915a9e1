import BinderIdl.Token

/-! Diagnostics: errors that belong to a place in a definition, shown the way
a compiler shows them. -/
namespace BinderIdl

/-- What a diagnostic complains about. -/
inductive Complaint where
  /-- The text is not a definition, or not a consistent one. -/
  | malformed
  /-- A type cannot travel in the requested direction. -/
  | unsupported
  /-- The definition is not where its package and name say. -/
  | misplaced
  deriving DecidableEq, Repr

/-- An error in a definition. Each part of the place may be unknown. -/
structure Diagnostic where
  complaint : Complaint
  message : String
  filename : Option String := none
  line : Option Int := none
  column : Option Int := none
  sourceLine : Option String := none
  deriving DecidableEq, Repr

/-- The place as shown before the message. An unknown or empty file name shows
as the input, and a column shows only behind a line. -/
def Diagnostic.place (d : Diagnostic) : String :=
  let file :=
    match d.filename with
    | some name => if name = "" then "<input>" else name
    | none => "<input>"
  match d.line, d.column with
  | some line, some column => file ++ ":" ++ toString line ++ ":" ++ toString column
  | some line, none => file ++ ":" ++ toString line
  | none, _ => file

/-- The shown diagnostic: place and message, then the source line, then a caret
under the column. The last two appear as far as they are known. -/
def Diagnostic.text (d : Diagnostic) : String :=
  let head := d.place ++ ": error: " ++ d.message
  match d.sourceLine, d.column with
  | none, _ => head
  | some line, none => head ++ "\n" ++ line
  | some line, some column =>
      head ++ "\n" ++ line ++ "\n" ++
        String.ofList (Text.spaces (column - 1).toNat ++ ['^'])

/-- Numbers of places fit into 64 bits. -/
def isPlaceNumber (n : Int) : Bool := -Int.pow 2 63 ≤ n && n < Int.pow 2 63

/-- Why there is no caret for a column. -/
inductive CaretFault where
  /-- The column is no number of a place. -/
  | number
  /-- There is no room for so many spaces. -/
  | room
  deriving DecidableEq, Repr

/-- The message of a number that is no number of a place. -/
def numberMessage : String := "cannot fit 'int' into an index-sized integer"

/-- The message of a fault. -/
def CaretFault.message : CaretFault → String
  | number => numberMessage
  | room => ""

/-- What keeps a diagnostic from being shown. The columns of tokens are never so
large. -/
def Diagnostic.caretFault? (d : Diagnostic) : Option CaretFault :=
  match d.sourceLine, d.column with
  | some _, some column =>
      if !isPlaceNumber (column - 1) then some .number
      else if Int.pow 2 28 ≤ column - 1 then some .room
      else none
  | _, _ => none

/-- The message for a position before the first token. -/
def unplacedMessage (position : Int) : String :=
  if isPlaceNumber position then "list index out of range" else numberMessage

/-- The token that a position points at. A position behind the last token
points at the last one, and a negative one counts from the end. -/
def Source.tokenAt? (s : Source) (position : Int) : Option Token :=
  let size : Int := s.tokens.length
  let index := min position (size - 1)
  let index := if index < 0 then index + size else index
  if index < 0 then none else s.tokens[index.toNat]?

/-- The diagnostic for a position in a source. Without a source only the
message is known, and without tokens or a position only the file. There is no
diagnostic when a negative position lies before the first token. -/
def Diagnostic.at? (complaint : Complaint) (message : String) (source : Option Source)
    (position : Option Int) : Option Diagnostic :=
  match source, position with
  | none, _ => some { complaint, message }
  | some s, none => some { complaint, message, filename := s.filename }
  | some s, some position =>
      if s.tokens.isEmpty then some { complaint, message, filename := s.filename }
      else
        (s.tokenAt? position).map fun t =>
          { complaint, message, filename := s.filename, line := some t.line, column := some t.column,
            sourceLine := s.line? t.line }

end BinderIdl
