import BinderIdl.Event
import BinderIdl.FileTree

/-! The log: lines for events, from a level upwards, on the console and in a
file. -/
namespace BinderIdl.Log

/-- The name of the program's logger. -/
def rootName : String := "aidl2"

/-- The name of a logger, which is always below the program's own. -/
def loggerName (name : String) : String :=
  if name = rootName ∨ (rootName ++ ".").toList.isPrefixOf name.toList then name
  else rootName ++ "." ++ name

/-- The names of levels. -/
def levels : List (String × Int) := [
  ("NOTSET", 0),
  ("DEBUG", 10),
  ("INFO", 20),
  ("WARN", 30),
  ("WARNING", 30),
  ("ERROR", 40),
  ("FATAL", 50),
  ("CRITICAL", 50)]

/-- A letter in upper case, as far as names have it. -/
def upper (c : Char) : List Char :=
  if c = 'ı' then ['I']
  else if c = 'ſ' then ['S']
  else if c = 'ﬅ' ∨ c = 'ﬆ' then ['S', 'T']
  else [c.toUpper]

/-- Why a text cannot be a level. Two names are taken by the format of the log. -/
inductive LevelFault where
  /-- The name of the format itself. -/
  | format
  /-- The name of all styles of the format. -/
  | styles
  deriving DecidableEq, Repr

/-- The message of a fault. -/
def LevelFault.message : LevelFault → String
  | format => "Unknown level: '%(levelname)s:%(name)s:%(message)s'"
  | styles =>
      "Level not an integer or a valid string: \x7b'%': (<class 'logging.PercentStyle'>, " ++
        "'%(levelname)s:%(name)s:%(message)s'), '\x7b': (<class 'logging.StrFormatStyle'>, " ++
        "'\x7blevelname\x7d:\x7bname\x7d:\x7bmessage\x7d'), " ++
        "'$': (<class 'logging.StringTemplateStyle'>, " ++
        "'$\x7blevelname\x7d:$\x7bname\x7d:$\x7bmessage\x7d')\x7d"

/-- The level that a text names, in any case. Texts that name nothing stand for the
usual level. -/
def levelOf (text : String) : Except LevelFault Int :=
  match String.ofList (text.toList.flatMap upper) with
  | "BASIC_FORMAT" => .error .format
  | "_STYLES" => .error .styles
  | name => .ok ((levels.lookup name).getD 20)

/-- The name that a level has in the log. -/
def levelName (level : Int) : String :=
  if level = 0 then "NOTSET"
  else if level = 10 then "DEBUG"
  else if level = 20 then "INFO"
  else if level = 30 then "WARNING"
  else if level = 40 then "ERROR"
  else if level = 50 then "CRITICAL"
  else "Level " ++ toString level

/-- The level from the command line, else from the environment, else the usual
one. -/
def chosenLevel (level environment : Option String) : Except LevelFault Int :=
  levelOf (level.getD (environment.getD "INFO"))

/-- The level from which on there are lines. A level of zero means the one of the
logger above. -/
def threshold (level : Int) : Int := if level = 0 then 30 else level

/-- A line of the log. -/
structure Entry where
  level : Int
  logger : String
  message : Text.Loose
  deriving DecidableEq, Repr

/-- The level of an event. -/
def levelOfGravity : Gravity → Int
  | .detail => 10
  | .notice => 20
  | .failure => 40

/-- The entry for an event. -/
def entryOf (e : Event) : Entry := ⟨levelOfGravity e.gravity, e.origin, e.message⟩

/-- The line for an entry at a time. -/
def Entry.line (time : String) (e : Entry) : Text.Loose :=
  Text.loose (time ++ " - " ++ e.logger ++ " - " ++ levelName e.level ++ " - ") ++ e.message ++
    Text.loose "\n"

/-- The lines of the entries that reach a level. -/
def lines (time : String) (level : Int) (entries : List Entry) : List Text.Loose :=
  (entries.filter fun e => threshold level ≤ e.level).map (Entry.line time)

/-- The log as the console shows it. -/
def shown (time : String) (level : Int) (entries : List Entry) : String :=
  String.join ((lines time level entries).map Text.Loose.shown)

/-- The log as a file holds it. A line with a half of a pair cannot be written. -/
def written (time : String) (level : Int) (entries : List Entry) : String :=
  String.join ((lines time level entries).filterMap Text.Loose.plain?)

/-- The path of the log file: parts that lead up are taken back where they stand. -/
def pathOf (current : Place) (text : String) : Path := (Path.read text).resolved current.path

/-- Append a text to the log file, which is made if it is not there. -/
def append (t : FileTree) (path : Path) (text : String) : Except FileFault FileTree :=
  match t.fetch [] path.print with
  | .ok content => t.store [] path.print (content ++ text.toUTF8)
  | .error fault =>
      if fault.kind = .missing then t.store [] path.print text.toUTF8
      else .error fault

/-- A log file that is open: its path, and the time and the level of its lines. -/
structure File where
  path : Path
  time : String
  level : Int
  deriving Repr

/-- The tree after an entry. -/
def File.write (f : File) (t : FileTree) (e : Entry) : FileTree :=
  match append t f.path (written f.time f.level [e]) with
  | .ok t => t
  | .error _ => t

end BinderIdl.Log
