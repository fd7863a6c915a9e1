import BinderIdl.Marshal.Create

/-! Updating an argument in place with the value that a parcel holds. An array
keeps its length, a list takes the length of the value. -/
namespace BinderIdl.Scheme

open Java

/-- Let the object read itself if a flag says that a value is there. -/
def updateObject (parcel : Parcel) (name : String) : Fragment :=
  .statements [
    .branch (.nonzero (parcel.call "readInt" []))
      [.run (.call (.name name) "readFromParcel" [parcel.expr])]
      []]

/-- Overwrite as many elements as there are both binders and places. -/
def updateInterfaceArray (element : TypeName) (parcel : Parcel) (t : Temporaries)
    (name : String) : Fragment :=
  .statements [
    .declare true "android.os.IBinder[]" (t.name .binders)
      (some (parcel.call "createBinderArray" [])),
    .branch (.present (t.var .binders))
      [.count [(t.name .i, .int 0)]
        (.binary .and
          (.binary .less (t.var .i) (.field (t.var .binders) "length"))
          (.binary .less (t.var .i) (.field (.name name) "length")))
        (.preIncrement (t.var .i))
        [.assign (.index (.name name) (t.var .i))
          (asInterface (className element) (.index (t.var .binders) (t.var .i)))]]
      []]

/-- Read every element and keep those that have a place. -/
def updateSerializableArray (element : TypeName) (parcel : Parcel) (t : Temporaries)
    (name : String) : Fragment :=
  .statements [
    .declare true "int" (t.name .size) (some (parcel.call "readInt" [])),
    upTo (t.name .i) (t.var .size)
      [.declare true element.print (t.name .item) (some (readSerializable element.print parcel)),
        .branch (.binary .less (t.var .i) (.field (.name name) "length"))
          [.assign (.index (.name name) (t.var .i)) (t.var .item)]
          []]]

/-- Empty the list and fill it with the interfaces behind a list of binders. -/
def updateInterfaceList (content : TypeName) (parcel : Parcel) (t : Temporaries) (name : String) :
    Fragment :=
  .statements [
    .declare true binderListType (t.name .binders)
      (some (parcel.call "createBinderArrayList" [])),
    .branch (.present (t.var .binders))
      [.run (.call (.name name) "clear" []),
        .each true binderType (t.name .binder) (t.var .binders)
          [.run (.call (.name name) "add" [asInterface content.base (t.var .binder)])]]
      []]

/-- Empty the list and fill it element by element. -/
def updateSerializableList (content : TypeName) (parcel : Parcel) (t : Temporaries)
    (name : String) : Fragment :=
  .statements [
    .declare true "int" (t.name .size) (some (parcel.call "readInt" [])),
    .branch (.binary .greaterEqual (t.var .size) (.int 0))
      [.run (.call (.name name) "clear" []),
        upTo (t.name .i) (t.var .size)
          [.run (.call (.name name) "add" [readSerializable content.print parcel])]]
      []]

/-- Store each identifier that has a place in the array. -/
def updateUuidArray (parcel : Parcel) (t : Temporaries) (name : String) : Fragment :=
  .statements (readUuids []
    [.branch (.binary .less (t.var .i) (.field (.name name) "length"))
      [.assign (.index (.name name) (t.var .i)) (t.var .uuid)]
      []]
    [] parcel t)

/-- Cut the list to the length of the value, then overwrite what it has and
append the rest. -/
def updateUuidList (parcel : Parcel) (t : Temporaries) (name : String) : Fragment :=
  .statements (readUuids
    [.declare true "int" (t.name .curSize) (some (.call (.name name) "size" [])),
      .branch (.binary .greater (t.var .curSize) (t.var .length))
        [.run (.call (.call (.name name) "subList" [t.var .length, t.var .curSize]) "clear" [])]
        []]
    [.branch (.binary .less (t.var .i) (t.var .curSize))
      [.run (.call (.name name) "set" [t.var .i, t.var .uuid])]
      [.run (.call (.name name) "add" [t.var .uuid])]]
    [] parcel t)

/-- Empty the array and fill it pair by pair. -/
def updateSparseBooleanArray (parcel : Parcel) (t : Temporaries) (name : String) : Fragment :=
  .statements [
    .run (.call (.name name) "clear" []),
    .declare true "android.util.SparseBooleanArray" (t.name .array)
      (some (parcel.call "readSparseBooleanArray" [])),
    .branch (.present (t.var .array))
      [.declare true "int" (t.name .size) (some (.call (t.var .array) "size" [])),
        upTo (t.name .i) (t.var .size)
          [.declare true "int" (t.name .key) (some (.call (t.var .array) "keyAt" [t.var .i])),
            .declare true "boolean" (t.name .value)
              (some (.call (t.var .array) "valueAt" [t.var .i])),
            .run (.call (.name name) "append" [t.var .key, t.var .value])]]
      []]

/-- Update an argument with the value in a parcel. -/
def update (scheme : Scheme) (parcel : Parcel) : Emission :=
  match scheme with
  | object _ .parcelable => .plain (updateObject parcel)
  | object _ _ => .refused
  | array element nature =>
      if elementTravels element then
        match nature with
        | .parcelable =>
            .run fun e => parcel.call "readTypedArray" [e, .name (creatorOf (className element))]
        | .interface => .scratch (updateInterfaceArray element parcel)
        | .serializable => .scratch (updateSerializableArray element parcel)
      else .refused
  | valueArray _ kind => .run fun e => parcel.call ("read" ++ kind ++ "Array") [e]
  | list content .parcelable =>
      .run fun e => parcel.call "readTypedList" [e, .name (creatorOf content.base)]
  | list content .interface => .scratch (updateInterfaceList content parcel)
  | list content .serializable => .scratch (updateSerializableList content parcel)
  | valueList _ kind => .run fun e => parcel.call ("read" ++ kind ++ "List") [e]
  | uuidArray _ => .scratch (updateUuidArray parcel)
  | uuidList _ => .scratch (updateUuidList parcel)
  | untypedList => .run fun e => parcel.call "readList" [e, classLoader]
  | untypedMap => .run fun e => parcel.call "readMap" [e, classLoader]
  | sparseBooleanArray => .scratch (updateSparseBooleanArray parcel)
  | parcelable | anyValue | value _ | intLike | boolean | uuid => .refused

end BinderIdl.Scheme
