import BinderIdl.CommandLine.Arguments
import BinderIdl.Log
import BinderIdl.Project
import BinderIdl.Setting.Read
import BinderIdl.Text.Console

/-! The command: it sets up the log, reads the configuration, runs over the
project and says what failed. -/
namespace BinderIdl.CommandLine

/-- Why a command stops before it is done. -/
inductive Crash where
  | project (fault : ProjectFault)
  /-- The configuration cannot be read as settings. -/
  | config (fault : Setting.ReadFault)
  | encoding (fault : Text.Utf8.Fault)
  | level (fault : Log.LevelFault)

/-- The message of a crash. -/
def Crash.message : Crash → String
  | project fault => fault.message
  | config fault => fault.message
  | encoding fault => fault.message
  | level fault => fault.message

/-- How a command ends. -/
inductive Ending where
  | help
  | misuse
  /-- The command was carried out. The text went to the console. -/
  | finished (isFine : Bool) (console : String)
  | crashed (crash : Crash)

/-- The configuration in a file. -/
def readConfig (t : FileTree) (current : Place) (path : Path) : Except Crash Config :=
  match t.fetch current path.print with
  | .error fault => .error (.project (.file fault))
  | .ok bytes =>
      match Text.Utf8.decode bytes with
      | .error fault => .error (.encoding fault)
      | .ok cs =>
          match Setting.read (Text.unifyBreaks cs) with
          | .error fault => .error (.config fault)
          | .ok v =>
              match Config.ofSetting v with
              | .ok config => .ok config
              | .error fault => .error (.project (.setting fault))

/-- The list of known types is seen from the folder of the configuration. -/
def withKnownList (path : Path) (config : Config) : Except Crash Config :=
  if config.knownTypesFile.isSet then
    match config.knownTypesFile with
    | .text s => .ok { config with knownTypesFile := .text (path.parent / Path.read s).print }
    | v => .error (.project (.setting (.noFolder v.kind)))
  else .ok config

/-- The configuration of a command. -/
def configOf (t : FileTree) (current : Place) : Option Path → Except Crash Config
  | none => .ok {}
  | some path => readConfig t current path >>= withKnownList path

/-- The messages of the failures in a report, each on its own lines, without what
would steer a terminal. -/
def failureText (r : Project.Report) : String :=
  String.join (r.failures.map fun (_, fault) =>
    String.ofList (Text.withoutSequences fault.message.toList) ++ "\n")

/-- The text of the command with some options. -/
def lineOf (t : FileTree) (current : Place) (o : Options) : Except Crash String :=
  match text t current parameters o.values with
  | .ok line => .ok line
  | .error fault => .error (.project (.file fault))

/-- The project of a command with some options is opened and run over. -/
def work (o : Options) (config : Config) (line : String) : Work Project.Report := do
  let project ← Project.load o.folder config (some line)
  project.run o.updates o.removals

/-- Carry out a command behind the set-up of the log. -/
def carryOut (o : Options) (w : Workshop) : Except Crash Project.Report × Workshop :=
  let prepared := do
    let config ← configOf w.tree w.current o.config
    return (config, ← lineOf w.tree w.current o)
  match prepared with
  | .error crash => (.error crash, w)
  | .ok (config, line) =>
      match work o config line w with
      | .ok report w => (.ok report, w)
      | .error fault w => (.error (.project fault), w)

/-- Open the log file, if one is asked for. It is made if it is not there. -/
def openLog (time : String) (level : Int) (o : Options) (w : Workshop) : Except Crash Workshop :=
  match o.logFile with
  | none | some "" => .ok { w with journal := [], log := none }
  | some path =>
      let path := Log.pathOf w.current path
      match Log.append w.tree path "" with
      | .ok tree => .ok { w with tree, journal := [], log := some ⟨path, time, level⟩ }
      | .error fault => .error (.project (.file fault))

/-- Set up the log with the level that was chosen. -/
def setUp (time : String) (environment : Option String) (o : Options) (w : Workshop) :
    Except Crash (Int × Workshop) :=
  match Log.chosenLevel o.level environment with
  | .error fault => .error (.level fault)
  | .ok level => do
      return (level, ← openLog time level o w)

/-- Run with options. What happened is told on the console, and after it what
failed. -/
def runOptions (time : String) (environment : Option String) (o : Options) (w : Workshop) :
    Ending × Workshop :=
  match setUp time environment o w with
  | .error crash => (.crashed crash, w)
  | .ok (level, w) =>
      match carryOut o w with
      | (.error crash, w) => (.crashed crash, { w with log := none })
      | (.ok report, w) =>
          let log := Log.shown time level (w.journal.map Log.entryOf)
          (.finished report.isFine (log ++ failureText report), { w with log := none })

/-- Run a command. -/
def run (time : String) (environment : Option String) (words : List String) (w : Workshop) :
    Ending × Workshop :=
  match request w.tree w.current words with
  | .help => (.help, w)
  | .fault .misuse => (.misuse, w)
  | .fault (.file fault) => (.crashed (.project (.file fault)), w)
  | .run options => runOptions time environment options w

end BinderIdl.CommandLine
