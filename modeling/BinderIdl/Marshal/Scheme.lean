import BinderIdl.Marshal.Category
import BinderIdl.Marshal.Operation
import BinderIdl.Marshal.Temporary
import BinderIdl.Nature

/-! Schemes: how the values of a type travel through a parcel. A category with
the type itself, and the nature of what has one, gives the scheme. -/
namespace BinderIdl

open Java

/-- How the values of a type travel. -/
inductive Scheme where
  /-- As an object of a nature. -/
  | object (type : TypeName) (nature : Nature)
  /-- As a Parcelable, together with the name of its class. -/
  | parcelable
  /-- As a value of any kind. -/
  | anyValue
  /-- By the parcel methods for one kind of value. -/
  | value (kind : String)
  /-- As an `int`, cast back. -/
  | intLike
  /-- As an `int` that is zero or one. -/
  | boolean
  | array (element : TypeName) (nature : Nature)
  /-- By the parcel methods for arrays of one kind. -/
  | valueArray (element : TypeName) (kind : String)
  | list (content : TypeName) (nature : Nature)
  /-- By the parcel methods for lists of one kind. -/
  | valueList (content : TypeName) (kind : String)
  | uuid
  | uuidArray (element : TypeName)
  | uuidList (content : TypeName)
  /-- As a list or a map of values of any kind. -/
  | untypedList
  | untypedMap
  | sparseBooleanArray
  deriving Repr

/-- A name with its first letter large and the others small. -/
def capitalized (name : String) : String :=
  match name.toList with
  | [] => ""
  | c :: cs => String.ofList (c.toUpper :: cs.map Char.toLower)

/-- The word in the names of the parcel methods for a value. -/
def valueKind (t : TypeName) : String :=
  if t.simpleName = "IBinder" then "StrongBinder" else capitalized t.simpleName

/-- The word in the names of the parcel methods for arrays of a type. -/
def arrayKind (t : TypeName) : String :=
  if t.simpleName = "IBinder" then "Binder" else capitalized t.simpleName

/-- The word in the names of the parcel methods for lists of a type. -/
def listKind (t : TypeName) : String :=
  if t.simpleName = "IBinder" then "Binder" else t.simpleName

/-- The name by which an object's class is known. -/
def className (t : TypeName) : String := withoutArguments t.print

/-- The creator of the values of a Parcelable class. -/
def creatorOf (name : String) : String :=
  if name = "java.lang.CharSequence" ∨ name = "CharSequence" then
    "android.text.TextUtils.CHAR_SEQUENCE_CREATOR"
  else name ++ ".CREATOR"

theorem dot_mem_creatorOf (name : String) : '.' ∈ (creatorOf name).toList := by
  rw [creatorOf]
  split
  · decide
  · simp

namespace Scheme

/-- The content of a type that has one. -/
def contentOf (t : TypeName) : TypeName := t.content?.getD (.plain TypeName.object)

/-- The element type of an array type. -/
def elementOf (t : TypeName) : TypeName := t.element?.getD t

/-- The name whose nature a category needs for a type, if it needs one. -/
def subject? (category : Category) (t : TypeName) : Option String :=
  match category with
  | .object => some (className t)
  | .array => some (className (elementOf t))
  | .list => some (contentOf t).base
  | _ => none

/-- The scheme for a type of a category, given the natures of names. -/
def of (category : Category) (t : TypeName) (nature : String → Nature) : Scheme :=
  match category with
  | .object => object t (nature (className t))
  | .parcelable => parcelable
  | .anyValue => anyValue
  | .value => value (valueKind t)
  | .intLike => intLike
  | .boolean => boolean
  | .array => array (elementOf t) (nature (className (elementOf t)))
  | .valueArray => valueArray (elementOf t) (arrayKind (elementOf t))
  | .list => list (contentOf t) (nature (contentOf t).base)
  | .valueList => valueList (contentOf t) (listKind (contentOf t))
  | .uuid => uuid
  | .uuidArray => uuidArray (elementOf t)
  | .uuidList => uuidList (contentOf t)
  | .untypedCollection =>
      if "List".toList.isSuffixOf t.simpleName.toList then untypedList else untypedMap
  | .sparseBooleanArray => sparseBooleanArray

/-- Arrays of arrays, and of primitives without parcel methods, do not travel. -/
def elementTravels (element : TypeName) : Bool :=
  !element.isArray && !element.isPrimitive

end Scheme

/-- What an operation on an argument comes to. The code is given the argument's
variable, and code that needs temporaries is given those too. -/
inductive Emission where
  /-- Values of the type do not travel this way. -/
  | refused
  | plain (code : String → Fragment)
  | scratch (code : Temporaries → String → Fragment)

namespace Emission

/-- A statement that evaluates an expression. -/
def run (code : Expr → Expr) : Emission := plain fun name => .run (code (.name name))

/-- A declaration with a first value. -/
def initial (value : Expr) : Emission := plain fun _ => .initializer value

end Emission

/-- A temporary as an expression. -/
def Temporaries.var (t : Temporaries) (role : Role) : Expr := .name (t.name role)

/-- The class loader of the generated class. -/
def classLoader : Expr := .call (.callSelf "getClass" []) "getClassLoader" []

/-- The interface behind a binder. -/
def asInterface (name : String) (binder : Expr) : Expr :=
  .call (.name (name ++ ".Stub")) "asInterface" [binder]

/-- The type of binders. -/
def binderType : String := "android.os.IBinder"

/-- The type of lists of binders. -/
def binderListType : String := "java.util.ArrayList<android.os.IBinder>"

/-- The type of universally unique identifiers. -/
def uuidType : String := "java.util.UUID"

/-- The loop over the indexes below a bound. -/
def upTo (index : String) (bound : Expr) (body : List Stmt) : Stmt :=
  .count [(index, .int 0)] (.binary .less (.name index) bound) (.preIncrement (.name index)) body

end BinderIdl
