import BinderIdl.Marshal.Create
import BinderIdl.Marshal.Update
import BinderIdl.Marshal.Write

/-! Cells: the code for an argument of a direction at a site in a phase. A value that
only comes back needs a place at the callee; the caller sends what the callee needs to
make the place: the length of an array, and nothing for the rest. -/
namespace BinderIdl

open Java

namespace Scheme

/-- An array of the length that the caller sent, or null for a negative one. -/
def createArrayBuffer (element : TypeName) (parcel : Parcel) (t : Temporaries) (name : String) :
    Fragment :=
  .deferred [
    .declare true "int" (t.name .length) (some (parcel.call "readInt" [])),
    .branch (.binary .greaterEqual (t.var .length) (.int 0))
      [.assign (.name name) (.newArray element.print (t.var .length))]
      [.assign (.name name) .null]]

/-- Declare an argument with a place for a value. -/
def createBuffer (scheme : Scheme) (d : Declared) (parcel : Parcel) : Emission :=
  match scheme with
  | object _ .interface => .refused
  | object type _ => .initial (d.castTo (.new type.print []))
  | array element _ =>
      if elementTravels element then .scratch (createArrayBuffer element parcel) else .refused
  | uuidArray element =>
      if elementTravels element then .scratch (createArrayBuffer element parcel) else .refused
  | valueArray element _ => .scratch (createArrayBuffer element parcel)
  | list content _ => .initial (.new (arrayListOf content.print) [])
  | valueList content _ => .initial (.new (arrayListOf content.print) [])
  | uuidList content => .initial (.new (arrayListOf content.print) [])
  | untypedList => .initial (.new "java.util.ArrayList" [])
  | untypedMap => .initial (.new "java.util.HashMap" [])
  | sparseBooleanArray => .initial (.new "android.util.SparseBooleanArray" [])
  | parcelable | anyValue | value _ | intLike | boolean | uuid => .refused

/-- The length of an array, or minus one. -/
def writeLength (parcel : Parcel) : Emission :=
  .run fun e => parcel.call "writeInt"
    [.conditional (.paren (.present e)) (.field e "length") (.int (-1))]

/-- Send what the callee needs to make a place for a value. -/
def writeBufferInfo (scheme : Scheme) (parcel : Parcel) : Emission :=
  match scheme with
  | array element _ => if elementTravels element then writeLength parcel else .refused
  | uuidArray element => if elementTravels element then writeLength parcel else .refused
  | valueArray _ _ => writeLength parcel
  | _ => .plain fun _ => .nothing

end Scheme

/-- Do an operation on a parcel. -/
def Scheme.perform (scheme : Scheme) (d : Declared) (parcel : Parcel) : Operation → Emission
  | .create => scheme.create d parcel
  | .write => scheme.write parcel
  | .update => scheme.update parcel
  | .createBuffer => scheme.createBuffer d parcel
  | .writeBufferInfo => scheme.writeBufferInfo parcel

/-- What happens in a cell. -/
def Scheme.cell (scheme : Scheme) (d : Declared) (direction : Direction) (site : Site)
    (phase : Phase) : Emission :=
  match Operation.of? site direction phase with
  | some operation => scheme.perform d (Parcel.of site phase) operation
  | none => .plain fun _ => .nothing

/-- The code of an emission for a variable, and the new count of temporaries.
Only code that needs temporaries takes the next number. -/
def Emission.emit? (e : Emission) (name : String) (count : Nat) : Option (Fragment × Nat) :=
  match e with
  | .refused => none
  | .plain code => some (code name, count)
  | .scratch code =>
      let (temporaries, count) := Temporaries.allocate count
      some (code temporaries name, count)

end BinderIdl
