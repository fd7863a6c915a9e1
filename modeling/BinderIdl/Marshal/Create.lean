import BinderIdl.Marshal.Scheme

/-! Declaring an argument with the value that a parcel holds. Each reader takes
from the parcel exactly what the writer of the same scheme puts there. -/
namespace BinderIdl

open Java

/-- What a declaration may have to name: the type as it was declared, which is
a type parameter or not. -/
structure Declared where
  type : String
  isParameter : Bool
  deriving DecidableEq, Repr

/-- A value as the declared type. Only a type parameter needs the cast. -/
def Declared.castTo (d : Declared) (e : Expr) : Expr :=
  if d.isParameter then .cast d.type e else e

namespace Scheme

/-- The value if a flag says that it is there, and null otherwise. -/
def createObject (d : Declared) (type : TypeName) (parcel : Parcel) (name : String) : Fragment :=
  .deferred [
    .branch (.nonzero (parcel.call "readInt" []))
      [.assign (.name name)
        (d.castTo (.call (.name (creatorOf (className type))) "createFromParcel" [parcel.expr]))]
      [.assign (.name name) .null]]

/-- An array of the interfaces behind an array of binders. -/
def createInterfaceArray (element : TypeName) (parcel : Parcel) (t : Temporaries)
    (name : String) : Fragment :=
  .deferred [
    .declare true "android.os.IBinder[]" (t.name .binders)
      (some (parcel.call "createBinderArray" [])),
    .branch (.present (t.var .binders))
      [.assign (.name name) (.newArray element.print (.field (t.var .binders) "length")),
        upTo (t.name .i) (.field (t.var .binders) "length")
          [.assign (.index (.name name) (t.var .i))
            (asInterface (className element) (.index (t.var .binders) (t.var .i)))]]
      [.assign (.name name) .null]]

/-- A value that is read by itself, cast to a type. -/
def readSerializable (type : String) (parcel : Parcel) : Expr :=
  .cast type (parcel.call "readSerializable" [])

/-- An array of the announced size, filled element by element. -/
def createSerializableArray (element : TypeName) (parcel : Parcel) (t : Temporaries)
    (name : String) : Fragment :=
  .deferred [
    .declare true "int" (t.name .size) (some (parcel.call "readInt" [])),
    .branch (.binary .greaterEqual (t.var .size) (.int 0))
      [.assign (.name name) (.newArray element.print (t.var .size)),
        upTo (t.name .i) (t.var .size)
          [.assign (.index (.name name) (t.var .i)) (readSerializable element.print parcel)]]
      [.assign (.name name) .null]]

/-- The type of lists with a content. -/
def arrayListOf (content : String) : String := "java.util.ArrayList<" ++ content ++ ">"

/-- A list of the interfaces behind a list of binders. -/
def createInterfaceList (content : TypeName) (parcel : Parcel) (t : Temporaries) (name : String) :
    Fragment :=
  .deferred [
    .declare true binderListType (t.name .binders)
      (some (parcel.call "createBinderArrayList" [])),
    .branch (.present (t.var .binders))
      [.declare true "int" (t.name .size) (some (.call (t.var .binders) "size" [])),
        .assign (.name name) (.new (arrayListOf content.print) [t.var .size]),
        .each true binderType (t.name .binder) (t.var .binders)
          [.run (.call (.name name) "add" [asInterface content.base (t.var .binder)])]]
      [.assign (.name name) .null]]

/-- A list of the announced size, filled element by element. -/
def createSerializableList (content : TypeName) (parcel : Parcel) (t : Temporaries)
    (name : String) : Fragment :=
  .deferred [
    .declare true "int" (t.name .size) (some (parcel.call "readInt" [])),
    .branch (.binary .greaterEqual (t.var .size) (.int 0))
      [.assign (.name name) (.new (arrayListOf content.print) [t.var .size]),
        upTo (t.name .i) (t.var .size)
          [.run (.call (.name name) "add" [readSerializable content.print parcel])]]
      [.assign (.name name) .null]]

/-- An identifier of its halves if a flag says that it is there. -/
def createUuid (parcel : Parcel) (t : Temporaries) (name : String) : Fragment :=
  .deferred [
    .branch (.nonzero (parcel.call "readInt" []))
      [.declare true "long" (t.name .msb) (some (parcel.call "readLong" [])),
        .declare true "long" (t.name .lsb) (some (parcel.call "readLong" [])),
        .assign (.name name) (.new uuidType [t.var .msb, t.var .lsb])]
      [.assign (.name name) .null]]

/-- Read a collection of identifiers: prepare the collection once its length is
known, then store each identifier. An identifier with the halves of the
announced substitute stands for an absent one. -/
def readUuids (prepare store otherwise : List Stmt) (parcel : Parcel) (t : Temporaries) :
    List Stmt :=
  let next := Expr.index (t.var .bits) (.postIncrement (t.var .j))
  [.declare true "long[]" (t.name .bits) (some (parcel.call "createLongArray" [])),
    .branch (.present (t.var .bits))
      ([.declare true "boolean" (t.name .hasNull)
            (some (.paren (.nonzero (parcel.call "readInt" [])))),
          .declare false "long" (t.name .nullMsb) (some (.int 0)),
          .declare false "long" (t.name .nullLsb) (some (.int 0)),
          .branch (t.var .hasNull)
            [.assign (t.var .nullMsb) (parcel.call "readLong" []),
              .assign (t.var .nullLsb) (parcel.call "readLong" [])]
            [],
          .declare true "int" (t.name .length)
            (some (.binary .divide (.field (t.var .bits) "length") (.int 2)))] ++
        (if prepare.isEmpty then [] else [.inset prepare]) ++
        [.count [(t.name .i, .int 0), (t.name .j, .int 0)]
          (.binary .less (t.var .i) (t.var .length)) (.preIncrement (t.var .i))
          [.declare true "long" (t.name .msb) (some next),
            .declare true "long" (t.name .lsb) (some next),
            .declare true uuidType (t.name .uuid) none,
            .branch
              (.binary .and (.binary .and (t.var .hasNull)
                (.binary .equal (t.var .msb) (t.var .nullMsb)))
                (.binary .equal (t.var .lsb) (t.var .nullLsb)))
              [.assign (t.var .uuid) .null]
              [.assign (t.var .uuid) (.new uuidType [t.var .msb, t.var .lsb])],
            .inset store]])
      otherwise]

/-- An array of identifiers. -/
def createUuidArray (parcel : Parcel) (t : Temporaries) (name : String) : Fragment :=
  .deferred (readUuids
    [.assign (.name name) (.newArray uuidType (t.var .length))]
    [.assign (.index (.name name) (t.var .i)) (t.var .uuid)]
    [.assign (.name name) .null] parcel t)

/-- A list of identifiers. -/
def createUuidList (parcel : Parcel) (t : Temporaries) (name : String) : Fragment :=
  .deferred (readUuids
    [.assign (.name name) (.new (arrayListOf uuidType) [t.var .length])]
    [.run (.call (.name name) "add" [t.var .uuid])]
    [.assign (.name name) .null] parcel t)

/-- Declare an argument with the value in a parcel. -/
def create (scheme : Scheme) (d : Declared) (parcel : Parcel) : Emission :=
  match scheme with
  | object type .parcelable => .plain (createObject d type parcel)
  | object type .interface =>
      .initial (d.castTo (asInterface (className type) (parcel.call "readStrongBinder" [])))
  | object _ .serializable => .initial (readSerializable d.type parcel)
  | parcelable => .initial (parcel.call "readParcelable" [classLoader])
  | anyValue => .initial (.cast d.type (parcel.call "readValue" [classLoader]))
  | value kind => .initial (parcel.call ("read" ++ kind) [])
  | intLike => .initial (.cast d.type (parcel.call "readInt" []))
  | boolean => .initial (.paren (.nonzero (parcel.call "readInt" [])))
  | array element nature =>
      if elementTravels element then
        match nature with
        | .parcelable =>
            .initial (parcel.call "createTypedArray" [.name (creatorOf (className element))])
        | .interface => .scratch (createInterfaceArray element parcel)
        | .serializable => .scratch (createSerializableArray element parcel)
      else .refused
  | valueArray _ kind => .initial (parcel.call ("create" ++ kind ++ "Array") [])
  | list content .parcelable =>
      .initial (parcel.call "createTypedArrayList" [.name (creatorOf content.base)])
  | list content .interface => .scratch (createInterfaceList content parcel)
  | list content .serializable => .scratch (createSerializableList content parcel)
  | valueList _ kind => .initial (parcel.call ("create" ++ kind ++ "ArrayList") [])
  | uuid => .scratch (createUuid parcel)
  | uuidArray _ => .scratch (createUuidArray parcel)
  | uuidList _ => .scratch (createUuidList parcel)
  | untypedList => .initial (parcel.call "readArrayList" [classLoader])
  | untypedMap => .initial (parcel.call "readHashMap" [classLoader])
  | sparseBooleanArray => .initial (parcel.call "readSparseBooleanArray" [])

end Scheme

end BinderIdl
