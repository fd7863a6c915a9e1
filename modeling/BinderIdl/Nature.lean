import BinderIdl.Interface

/-! The nature of a type that no rule of its own describes: whether its values
are Parcelable, are remote interfaces, or are Serializable. The decision looks
at the imports first, then at names known to be Parcelable, and only then asks
whether the project has a source for the type. -/
namespace BinderIdl

/-- What the values of a type are. -/
inductive Nature where
  | parcelable
  | interface
  | serializable
  deriving DecidableEq, Repr

/-- The word for a nature. -/
def Nature.word : Nature → String
  | .parcelable => "parcelable"
  | .interface => "interface"
  | .serializable => "serializable"

/-- The nature that a kind of import declares, if it declares one. -/
def ImportKind.nature? : ImportKind → Option Nature
  | .plain => none
  | .interface => some .interface
  | .parcelable => some .parcelable
  | .serializable => some .serializable

/-- The type without its type arguments. -/
def withoutArguments (type : String) : String :=
  String.ofList (Text.strip (type.toList.takeWhile (· != '<')))

/-- The import is of the type: it has the same name, or its name ends with a
dot and the type. -/
def Import.isOf (i : Import) (type : String) : Bool :=
  i.name == type || ('.' :: type.toList).isSuffixOf i.name.toList

/-- What is known about a type before its sources are looked at. -/
inductive Verdict where
  | decided (nature : Nature)
  /-- The type is Parcelable exactly if there is a source for this name. -/
  | ask (name : String)
  deriving DecidableEq, Repr

/-- The verdict on a type. The first import of the type that declares a nature
decides. Otherwise the first import of the type gives its qualified name; and a
name without a dot is also looked for among the known names of the language's
own package. -/
def Verdict.of (type : String) (imports : List Import) (known : List String) : Verdict :=
  let type := withoutArguments type
  let matching := imports.filter fun i => i.isOf type
  match matching.findSome? fun i => i.kind.nature? with
  | some nature => .decided nature
  | none =>
      let name :=
        match matching with
        | i :: _ => i.name
        | [] =>
            if !type.toList.contains '.' && known.contains ("java.lang." ++ type) then
              "java.lang." ++ type
            else type
      if known.contains name then .decided .parcelable else .ask name

/-- The nature of a type in a package. Without a way to look for sources there
are none. -/
def Nature.classify (type package : String) (imports : List Import)
    (lookup : Option (String → String → Bool)) (known : List String) : Nature :=
  match Verdict.of type imports known with
  | .decided nature => nature
  | .ask name =>
      match lookup with
      | some lookup => if lookup name package then .parcelable else .interface
      | none => .interface

end BinderIdl
