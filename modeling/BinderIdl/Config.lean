import BinderIdl.Setting

/-! Configurations of the compiler. Every setting has a default, settings with
unknown names are passed over, and values are checked where they are used. A few
names stand for the configuration itself: one replaces all settings at once, one
replaces the way it describes itself, and two cannot be set. -/
namespace BinderIdl

/-- How generated files are written. -/
inductive OutputConfig where
  /-- Whether to check a file before it is written, and whether to replace it in
  one step. -/
  | options (validate atomic : Setting)
  /-- A value that has no such options. -/
  | other (value : Setting)

/-- The settings of the compiler. -/
structure Config where
  /-- The folder of the sources, below the project's. -/
  sourceDir : Setting := .text "src"
  /-- The folder of generated files, below the project's. -/
  genDir : Setting := .text "gen"
  sourceExtension : Setting := .text ".aidl2"
  javaExtension : Setting := .text ".java"
  /-- Names that are known to be Parcelable, in addition to those of a list. They
  are missing if all settings were replaced by ones without them. -/
  knownTypes : Option Setting := some (.list [])
  /-- The list of such names; the bundled one if this is not set. -/
  knownTypesFile : Setting := .text ""
  /-- Whether generated files start with a comment that says so. -/
  addComment : Setting := .bool true
  /-- How files are written; missing if all settings were replaced by ones without
  it. -/
  output : Option OutputConfig := some (.options (.bool true) (.bool true))
  /-- A value in the place where the configuration would describe itself. -/
  description : Option Setting := none

namespace Config

/-- The first value of a field, or a default. -/
def fieldOr (fields : List (Text.Loose × Setting)) (key : String) (default : Setting) : Setting :=
  (fields.lookup (Text.loose key)).getD default

/-- The configuration that has nothing but some fields. The settings that are
single values keep their defaults. -/
def replaced (fields : List (Text.Loose × Setting)) : Config :=
  let usual : Config := {}
  { sourceDir := fieldOr fields "source_dir" usual.sourceDir
    genDir := fieldOr fields "gen_dir" usual.genDir
    sourceExtension := fieldOr fields "source_extension" usual.sourceExtension
    javaExtension := fieldOr fields "java_extension" usual.javaExtension
    knownTypes := fields.lookup (Text.loose "known_parcelables")
    knownTypesFile := fieldOr fields "known_parcelables_file" usual.knownTypesFile
    addComment := fieldOr fields "add_generation_comment" usual.addComment
    output := (fields.lookup (Text.loose "output")).map .other
    description := fields.lookup (Text.loose "to_dict") }

/-- The options for writing files in some fields. -/
def outputOf (fields : List (Text.Loose × Setting)) : OutputConfig :=
  .options (fieldOr fields "validate_before_write" (.bool true))
    (fieldOr fields "atomic_write" (.bool true))

/-- Set what a field is for. A setting that is missing stays so, unless its new
value holds the options for writing files. -/
def set (c : Config) : String → Setting → Except SettingFault Config
  | "source_dir", v => .ok { c with sourceDir := v }
  | "gen_dir", v => .ok { c with genDir := v }
  | "source_extension", v => .ok { c with sourceExtension := v }
  | "java_extension", v => .ok { c with javaExtension := v }
  | "known_parcelables", v => .ok { c with knownTypes := c.knownTypes.map fun _ => v }
  | "known_parcelables_file", v => .ok { c with knownTypesFile := v }
  | "add_generation_comment", v => .ok { c with addComment := v }
  | "output", .object fields => .ok { c with output := some (outputOf fields) }
  | "output", v => .ok { c with output := c.output.map fun _ => .other v }
  | "to_dict", v => .ok { c with description := some v }
  | "__dict__", .object fields => .ok (replaced fields)
  | "__dict__", v => .error (.noTable v.kind)
  | "__class__", v => .error (.noClass v.kind)
  | "__weakref__", _ => .error (.fixed "__weakref__")
  | _, _ => .ok c

/-- Set what a field is for, whatever its name is made of. -/
def setField (c : Config) (key : Text.Loose) (v : Setting) : Except SettingFault Config :=
  match key.plain? with
  | some name => c.set name v
  | none => .ok c

/-- The configuration that a value holds. Fields are set in their order, and the
first fault ends it. -/
def ofSetting : Setting → Except SettingFault Config
  | .object fields => fields.foldlM (fun c (key, v) => c.setField key v) {}
  | v => .error (.lacks v.kind "items")

/-- A setting that can be missing. -/
def present {α : Type} (name : String) : Option α → Except SettingFault α
  | some a => .ok a
  | none => .error (.lacks "CodeGeneratorConfig" name)

/-- The names that are known to be Parcelable, as a value. -/
def known (c : Config) : Except SettingFault Setting := present "known_parcelables" c.knownTypes

/-- The options for writing files, if the value has the one that is asked for. -/
def options (c : Config) (wanted : String) : Except SettingFault (Setting × Setting) := do
  match ← present "output" c.output with
  | .options validate atomic => .ok (validate, atomic)
  | .other v => .error (.lacks v.kind wanted)

/-- The configuration as a value. -/
def toSetting (c : Config) : Except SettingFault Setting := do
  if let some v := c.description then throw (.noDescription v.kind)
  let known ← c.known
  let (validate, atomic) ← c.options "validate_before_write"
  let fields : List (String × Setting) := [
    ("source_dir", c.sourceDir),
    ("gen_dir", c.genDir),
    ("source_extension", c.sourceExtension),
    ("java_extension", c.javaExtension),
    ("known_parcelables", known),
    ("known_parcelables_file", c.knownTypesFile),
    ("add_generation_comment", c.addComment),
    ("output", .object [
      (Text.loose "validate_before_write", validate), (Text.loose "atomic_write", atomic)])]
  return .object (fields.map fun (key, v) => (Text.loose key, v))

/-- The names in a value: the texts in a list, the keys of an object, or the
characters of a text. A text with halves of pairs names no type. -/
def names : Setting → Except SettingFault (List String)
  | .text t => .ok (t.filterMap fun g => Text.Loose.plain? [g])
  | .object fields => .ok (fields.filterMap fun (key, _) => key.plain?)
  | .list values => do
      let found ← values.mapM fun v =>
        match v with
        | .text t => .ok t.plain?.toList
        | .list _ | .object _ => .error (SettingFault.noMember v.kind)
        | _ => .ok []
      return found.flatten
  | v => .error (.noElements v.kind)

end Config

end BinderIdl
