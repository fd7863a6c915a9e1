import BinderIdl.CommandLine.Text

/-! The options of the command, and how they are read. -/
namespace BinderIdl.CommandLine

/-- The options that take a value. -/
inductive Flag where
  | folder
  | update
  | remove
  | config
  | logLevel
  | logFile
  deriving DecidableEq, Repr

/-- The long form of an option. -/
def Flag.long : Flag → String
  | folder => "--prefix"
  | update => "--update"
  | remove => "--remove"
  | config => "--config"
  | logLevel => "--log-level"
  | logFile => "--log-file"

/-- The letter of an option that has a short form. -/
def Flag.letter? : Flag → Option Char
  | folder => some 'p'
  | update => some 'u'
  | remove => some 'r'
  | config => some 'c'
  | logLevel => none
  | logFile => none

/-- All options that take a value. -/
def Flag.all : List Flag := [folder, update, remove, config, logLevel, logFile]

/-- Something that was given. -/
inductive Given where
  | value (flag : Flag) (text : String)
  | help
  /-- A word that belongs to no option. -/
  | extra (word : String)
  deriving DecidableEq, Repr

/-- The word for help. -/
def helpWord : String := "--help"

/-- A word cut at its first equals sign, if it has one. -/
def cutEquals (word : List Char) : List Char × Option (List Char) :=
  match word.span (· != '=') with
  | (name, _ :: value) => (name, some value)
  | (name, []) => (name, none)

/-- What a word is, by its form and its options. -/
inductive WordKind where
  /-- Everything behind the word is extra. -/
  | stop
  | help
  /-- An option with its value, or without if the value is the next word. -/
  | option (flag : Flag) (value : Option String)
  | extra
  | unknown
  deriving DecidableEq, Repr

/-- The kind of a word. -/
def WordKind.of (word : String) : WordKind :=
  match word.toList with
  | ['-', '-'] => .stop
  | '-' :: c :: cs =>
      let (name, value) := cutEquals ('-' :: c :: cs)
      match Flag.all.find? fun f => f.long.toList == name with
      | some flag => .option flag (value.map String.ofList)
      | none =>
          if name == helpWord.toList then
            match value with
            | none => .help
            | some _ => .unknown
          else if c = '-' then .unknown
          else
            match Flag.all.find? fun f => f.letter? == some c with
            | some flag => .option flag (if cs.isEmpty then none else some (String.ofList cs))
            | none => .unknown
  | _ => .extra

/-- Everything that was given, in order. There is nothing if an option is unknown
or lacks its value. -/
def read? : List String → Option (List Given)
  | [] => some []
  | word :: words =>
      match WordKind.of word with
      | .stop => some (words.map .extra)
      | .help => (read? words).map (.help :: ·)
      | .extra => (read? words).map (.extra word :: ·)
      | .unknown => none
      | .option flag (some value) => (read? words).map (.value flag value :: ·)
      | .option flag none =>
          match words with
          | [] => none
          | value :: words => (read? words).map (.value flag value :: ·)

/-- All values of an option. -/
def every (given : List Given) (flag : Flag) : List String :=
  given.filterMap fun g =>
    match g with
    | .value f text => if f = flag then some text else none
    | _ => none

/-- The last value of an option. -/
def last? (given : List Given) (flag : Flag) : Option String := (every given flag).getLast?

/-- The options that were given, in the order in which they came first. -/
def flagsOf (given : List Given) : List Flag :=
  (given.filterMap fun g =>
    match g with
    | .value flag _ => some flag
    | _ => none).eraseDups

/-- Levels that can be asked for. -/
def levelChoices : List String := ["DEBUG", "INFO", "WARNING", "ERROR", "CRITICAL"]

/-- The level that a text asks for, in any case. -/
def level? (text : String) : Option String :=
  levelChoices.find? fun l => l.toList == text.toList.map Char.toUpper

/-- The options of a command. -/
structure Options where
  folder : Path
  updates : List String
  removals : List String
  config : Option Path
  level : Option String
  logFile : Option String
  deriving Repr

/-- Why the values of options cannot be used. -/
inductive ValueFault where
  /-- They cannot be understood or name files that cannot be used. -/
  | misuse
  /-- They name no files at all. -/
  | file (fault : FileFault)
  deriving DecidableEq, Repr

/-- What a command asks for. -/
inductive Request where
  | help
  | fault (fault : ValueFault)
  | run (options : Options)
  deriving Repr

/-- The path of a value from the root, where parts that lead up are taken back. -/
def resolved (current : Place) (text : String) : Path := (Path.read text).resolved current.path

/-- What is at the path of a value. -/
def nodeOf (t : FileTree) (current : Place) (text : Text.Loose) :
    Except ValueFault (Option Node) :=
  match t.locate current text with
  | .ok place => .ok (t.get? place)
  | .error kind => if kind.isNoPath then .error (.file ⟨kind, text, none⟩) else .ok none

/-- What is at the resolved path of a value. All its parts are looked at on the way,
those that are taken back as well. -/
def resolvedNode (t : FileTree) (current : Place) (text : String) :
    Except ValueFault (Option Node) :=
  if text.toList.contains '\x00' then .error (.file ⟨.nullCharacter, text, none⟩)
  else nodeOf t current (resolved current text).print

/-- A condition on values. -/
def ensure (condition : Bool) : Except ValueFault Unit :=
  if condition then .ok () else .error .misuse

/-- Check a value of an option. The folder of the project has to be one, the
configuration has to be there, and the log file cannot be a folder. -/
def checkValue (t : FileTree) (current : Place) (flag : Flag) (text : String) :
    Except ValueFault Unit := do
  match flag with
  | .folder =>
      match ← resolvedNode t current text with
      | some .folder => return ()
      | _ => throw .misuse
  | .config => ensure (← resolvedNode t current text).isSome
  | .logLevel => ensure (level? text).isSome
  | .logFile =>
      match ← nodeOf t current text with
      | some .folder => throw .misuse
      | _ => return ()
  | .update | .remove => discard (nodeOf t current text)

/-- The values of an option that count: all of them, or only the last one. -/
def values (given : List Given) : Flag → List String
  | .update => every given .update
  | .remove => every given .remove
  | flag => (last? given flag).toList

/-- The options that were given. Each is checked in its turn; that the folder is
missing, or that there are words too many, shows only at the end. -/
def options (t : FileTree) (current : Place) (given : List Given) :
    Except ValueFault Options := do
  (flagsOf given).forM fun flag => (values given flag).forM (checkValue t current flag)
  match last? given .folder with
  | none => throw .misuse
  | some folder =>
      ensure (given.all fun g =>
        match g with
        | .extra _ => false
        | _ => true)
      return {
        folder := resolved current folder
        updates := every given .update
        removals := every given .remove
        config := (last? given .config).map (resolved current)
        level := (last? given .logLevel).bind level?
        logFile := last? given .logFile }

/-- The request of a command. -/
def request (t : FileTree) (current : Place) (words : List String) : Request :=
  match read? words with
  | none => .fault .misuse
  | some given =>
      if given.contains .help then .help
      else
        match options t current given with
        | .ok options => .run options
        | .error fault => .fault fault

/-- The parameters of the command, in the order in which they are shown. -/
def parameters : List Parameter := [
  .option "prefix" Flag.folder.long .null,
  .option "update" Flag.update.long .null,
  .option "remove" Flag.remove.long .null,
  .option "config" Flag.config.long .null,
  .option "log_level" Flag.logLevel.long .null,
  .option "log_file" Flag.logFile.long .null]

/-- The values of the parameters. -/
def Options.values (o : Options) : List (String × Setting) := [
  ("prefix", .text o.folder.print),
  ("update", .list (o.updates.map fun (s : String) => .text s)),
  ("remove", .list (o.removals.map fun (s : String) => .text s)),
  ("config", (o.config.map fun p => Setting.text p.print).getD .null),
  ("log_level", (o.level.map fun (s : String) => Setting.text s).getD .null),
  ("log_file", (o.logFile.map fun (s : String) => Setting.text s).getD .null)]

end BinderIdl.CommandLine
