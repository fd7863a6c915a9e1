import BinderIdl.Marshal.Scheme

/-! Writing an argument into a parcel. What can be absent is preceded by a flag
or by a length, or is written by a parcel method that takes null. -/
namespace BinderIdl.Scheme

open Java

/-- A flag that the value is there, and the value; or a flag that it is not. -/
def writeObject (parcel : Parcel) (name : String) : Fragment :=
  .statements [
    .branch (.present (.name name))
      [.run (parcel.call "writeInt" [.int 1]),
        .run (.call (.name name) "writeToParcel" [parcel.expr, parcel.flags])]
      [.run (parcel.call "writeInt" [.int 0])]]

/-- The binders of an array of interfaces. -/
def writeInterfaceArray (parcel : Parcel) (t : Temporaries) (name : String) : Fragment :=
  let item := Expr.index (.name name) (t.var .i)
  .statements [
    .branch (.present (.name name))
      [.declare true "android.os.IBinder[]" (t.name .binders)
          (some (.newArray binderType (.field (.name name) "length"))),
        upTo (t.name .i) (.field (.name name) "length")
          [.assign (.index (t.var .binders) (t.var .i))
            (.conditional (.paren (.present item)) (.call item "asBinder" []) .null)],
        .run (parcel.call "writeBinderArray" [t.var .binders])]
      [.run (parcel.call "writeBinderArray" [.null])]]

/-- The size of a collection, or minus one, and then its elements one by one. -/
def writeSerializables (size : Expr) (parcel : Parcel) (t : Temporaries) (name : String) :
    Fragment :=
  .statements [
    .branch (.present (.name name))
      [.run (parcel.call "writeInt" [size]),
        .each true "java.io.Serializable" (t.name .item) (.name name)
          [.run (parcel.call "writeSerializable" [t.var .item])]]
      [.run (parcel.call "writeInt" [.int (-1)])]]

/-- The binders of a list of interfaces. -/
def writeInterfaceList (parcel : Parcel) (t : Temporaries) (name : String) : Fragment :=
  .statements [
    .branch (.present (.name name))
      [.declare true "int" (t.name .size) (some (.call (.name name) "size" [])),
        .declare true binderListType (t.name .binders) (some (.new binderListType [t.var .size])),
        .each true "android.os.IInterface" (t.name .interface) (.name name)
          [.run (.call (t.var .binders) "add"
            [.conditional (.present (t.var .interface)) (.call (t.var .interface) "asBinder" [])
              .null])],
        .run (parcel.call "writeBinderList" [t.var .binders])]
      [.run (parcel.call "writeBinderList" [.null])]]

/-- The upper half of an identifier. -/
def upperHalf (e : Expr) : Expr := .call e "getMostSignificantBits" []

/-- The lower half of an identifier. -/
def lowerHalf (e : Expr) : Expr := .call e "getLeastSignificantBits" []

/-- A flag that the identifier is there, and its halves; or a flag that it is
not. -/
def writeUuid (parcel : Parcel) (name : String) : Fragment :=
  .statements [
    .branch (.present (.name name))
      [.run (parcel.call "writeInt" [.int 1]),
        .run (parcel.call "writeLong" [upperHalf (.name name)]),
        .run (parcel.call "writeLong" [lowerHalf (.name name)])]
      [.run (parcel.call "writeInt" [.int 0])]]

/-- The halves of all identifiers in one array. Absent ones are replaced by an
identifier that is drawn until the collection does not contain it, and which
follows the array behind a flag that it was needed. -/
def writeUuids (length : Expr) (asList : Expr) (parcel : Parcel) (t : Temporaries)
    (name : String) : Fragment :=
  let next := Expr.index (t.var .bits) (.postIncrement (t.var .i))
  .statements [
    .branch (.present (.name name))
      [.declare true "long[]" (t.name .bits)
          (some (.newArray "long" (.binary .times length (.int 2)))),
        .declare false uuidType (t.name .nullUuid) (some .null),
        .declare false "int" (t.name .i) (some (.int 0)),
        .each false uuidType (t.name .uuid) (.name name)
          [.branch (.absent (t.var .uuid))
              [.branch (.absent (t.var .nullUuid))
                  [.loop
                    [.assign (t.var .nullUuid) (.call (.name uuidType) "randomUUID" [])]
                    (.call asList "contains" [t.var .nullUuid])]
                  [],
                .assign (t.var .uuid) (t.var .nullUuid)]
              [],
            .assign next (upperHalf (t.var .uuid)),
            .assign next (lowerHalf (t.var .uuid))],
        .run (parcel.call "writeLongArray" [t.var .bits]),
        .branch (.present (t.var .nullUuid))
          [.run (parcel.call "writeInt" [.int 1]),
            .run (parcel.call "writeLong" [upperHalf (t.var .nullUuid)]),
            .run (parcel.call "writeLong" [lowerHalf (t.var .nullUuid)])]
          [.run (parcel.call "writeInt" [.int 0])]]
      [.run (parcel.call "writeLongArray" [.null])]]

/-- Write an argument into a parcel. -/
def write (scheme : Scheme) (parcel : Parcel) : Emission :=
  match scheme with
  | object _ .parcelable => .plain (writeObject parcel)
  | object _ .interface => .run fun e => parcel.call "writeStrongInterface" [e]
  | object _ .serializable => .run fun e => parcel.call "writeSerializable" [e]
  | parcelable => .run fun e => parcel.call "writeParcelable" [e, parcel.flags]
  | anyValue => .run fun e => parcel.call "writeValue" [e]
  | value kind => .run fun e => parcel.call ("write" ++ kind) [e]
  | intLike => .run fun e => parcel.call "writeInt" [e]
  | boolean => .run fun e => parcel.call "writeInt" [.conditional e (.int 1) (.int 0)]
  | array element nature =>
      if elementTravels element then
        match nature with
        | .parcelable => .run fun e => parcel.call "writeTypedArray" [e, parcel.flags]
        | .interface => .scratch (writeInterfaceArray parcel)
        | .serializable =>
            .scratch fun t name => writeSerializables (.field (.name name) "length") parcel t name
      else .refused
  | valueArray _ kind => .run fun e => parcel.call ("write" ++ kind ++ "Array") [e]
  | list _ .parcelable => .run fun e => parcel.call "writeTypedList" [e]
  | list _ .interface => .scratch (writeInterfaceList parcel)
  | list _ .serializable =>
      .scratch fun t name => writeSerializables (.call (.name name) "size" []) parcel t name
  | valueList _ kind => .run fun e => parcel.call ("write" ++ kind ++ "List") [e]
  | uuid => .plain (writeUuid parcel)
  | uuidArray _ =>
      .scratch fun t name =>
        writeUuids (.field (.name name) "length")
          (.call (.name "java.util.Arrays") "asList" [.name name]) parcel t name
  | uuidList _ =>
      .scratch fun t name => writeUuids (.call (.name name) "size" []) (.name name) parcel t name
  | untypedList => .run fun e => parcel.call "writeList" [e]
  | untypedMap => .run fun e => parcel.call "writeMap" [e]
  | sparseBooleanArray => .run fun e => parcel.call "writeSparseBooleanArray" [e]

end BinderIdl.Scheme
