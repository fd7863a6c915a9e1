import BinderIdl.FileTree
import BinderIdl.Setting

/-! The text of a command, as it is shown in generated files. -/
namespace BinderIdl.CommandLine

/-- The name of the program. -/
def programName : String := "aidl2"

/-- A parameter of a command. -/
inductive Parameter where
  /-- A value that stands by itself. -/
  | argument (name : String)
  /-- A value behind a flag, which can have a default. -/
  | option (name flag : String) (default : Setting)

/-- The name of a parameter. -/
def Parameter.name : Parameter → String
  | argument name => name
  | option name _ _ => name

/-- A value as it is shown. The path of something that is there shows as its name
only. -/
def valueText (t : FileTree) (current : Place) : Setting → Except FileFault String
  | .text s => do
      let path := Path.read s
      if (← t.look current path.print).isSome then return path.name.shown else return s.shown
  | v => .ok v.asText.shown

/-- The values of a parameter that can come several times. -/
def valueTexts (t : FileTree) (current : Place) : Setting → Except FileFault (List String)
  | .list vs => vs.mapM (valueText t current)
  | v => return [← valueText t current v]

/-- The words for the arguments. -/
def argumentWords (t : FileTree) (current : Place) (values : List (String × Setting)) :
    Parameter → Except FileFault (List String)
  | .argument name =>
      match values.lookup name with
      | some v => if v.isSet then valueTexts t current v else .ok []
      | none => .ok []
  | .option .. => .ok []

/-- The words for the options. A value that is the default is not shown. -/
def optionWords (t : FileTree) (current : Place) (values : List (String × Setting)) :
    Parameter → Except FileFault (List String)
  | .argument _ => .ok []
  | .option name flag default =>
      match values.lookup name with
      | some v =>
          if v.isSet && !v.same default then do
            return (← valueTexts t current v).flatMap fun text => [flag, text]
          else .ok []
      | none => .ok []

/-- The text of a command with the values of its parameters. Arguments come before
options. -/
def text (t : FileTree) (current : Place) (parameters : List Parameter)
    (values : List (String × Setting)) : Except FileFault String := do
  let arguments ← parameters.mapM (argumentWords t current values)
  let options ← parameters.mapM (optionWords t current values)
  return Text.join " " ([programName] ++ arguments.flatten ++ options.flatten)

end BinderIdl.CommandLine
