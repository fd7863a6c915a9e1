import BinderIdl.Registry

/-! Categories of types, and the registry that assigns every type to one. -/
namespace BinderIdl

/-- A category of types that travel alike. -/
inductive Category where
  /-- Any type that no other category covers; its nature decides how it travels. -/
  | object
  /-- The abstract Parcelable, which travels with the name of its class. -/
  | parcelable
  /-- The type of all objects, which travels as a value of any kind. -/
  | anyValue
  /-- Types with a parcel method of their own. -/
  | value
  /-- Types that travel as an `int` and are cast back. -/
  | intLike
  | boolean
  | array
  /-- Arrays with a parcel method of their own. -/
  | valueArray
  | list
  /-- Lists with a parcel method of their own. -/
  | valueList
  | uuid
  | uuidArray
  | uuidList
  /-- Lists and maps of unknown content. -/
  | untypedCollection
  | sparseBooleanArray
  deriving DecidableEq, Repr

namespace Category

/-- The name of a category in messages. -/
def label : Category → String
  | object => "GenericMarshaller"
  | parcelable => "ParcelableMarshaller"
  | anyValue => "ObjectMarshaller"
  | value => "PrimitiveMarshaller"
  | intLike => "IntLikeMarshaller"
  | boolean => "BooleanMarshaller"
  | array => "GenericArrayMarshaller"
  | valueArray => "PrimitiveArrayMarshaller"
  | list => "GenericListMarshaller"
  | valueList => "PrimitiveListMarshaller"
  | uuid => "UUIDMarshaller"
  | uuidArray => "UUIDArrayMarshaller"
  | uuidList => "UUIDListMarshaller"
  | untypedCollection => "UntypedCollectionMarshaller"
  | sparseBooleanArray => "SparseBooleanArrayMarshaller"

/-- Names both bare and inside their package. -/
def qualified (package : String) (names : List String) : List String :=
  names.flatMap fun name => [name, package ++ "." ++ name]

/-- The names of types with a parcel method of their own. -/
def valueNames : List String :=
  ["byte", "double", "float", "int", "long"] ++ qualified "java.io" ["Serializable"] ++
    qualified "java.lang" ["String"] ++ qualified "android.os" ["IBinder"]

/-- The names of element types whose arrays have a parcel method of their own. -/
def valueElementNames : List String :=
  ["boolean", "byte", "char", "double", "float", "int", "long"] ++
    qualified "java.lang" ["String"] ++ qualified "android.os" ["IBinder"]

/-- The names of element types whose lists have a parcel method of their own. -/
def valueContentNames : List String :=
  qualified "java.lang" ["String"] ++ qualified "android.os" ["IBinder"]

/-- The names of lists. -/
def listNames : List String := qualified "java.util" ["List", "ArrayList"]

/-- The names of the universally unique identifier. -/
def uuidNames : List String := qualified "java.util" ["UUID"]

/-- The rules for all types. The first rule takes whatever the later and more
special ones leave. -/
def registry : Registry Category :=
  ⟨[⟨.any, object⟩,
    ⟨.named (qualified "android.os" ["Parcelable"]), parcelable⟩,
    ⟨.named (qualified "java.lang" ["Object"]), anyValue⟩,
    ⟨.named valueNames, value⟩,
    ⟨.named ["char", "short"], intLike⟩,
    ⟨.named ["boolean"], boolean⟩,
    ⟨.array .any, array⟩,
    ⟨.array (.named valueElementNames), valueArray⟩,
    ⟨.generic listNames, list⟩,
    ⟨.genericOf listNames (.named valueContentNames), valueList⟩,
    ⟨.named uuidNames, uuid⟩,
    ⟨.array (.named uuidNames), uuidArray⟩,
    ⟨.genericOf listNames (.named uuidNames), uuidList⟩,
    ⟨.named (qualified "java.util" ["List", "ArrayList", "Map", "HashMap"]), untypedCollection⟩,
    ⟨.named ["SparseBooleanArray", "android.util.SparseBooleanArray",
      "android.os.SparseBooleanArray"], sparseBooleanArray⟩]⟩

end Category

end BinderIdl
