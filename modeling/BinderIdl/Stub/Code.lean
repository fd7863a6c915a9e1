import BinderIdl.Marshal.Desk

/-! The code of methods: for each argument the fragments of both ends of a call,
before the call and after it. -/
namespace BinderIdl

open Java

/-- The code for an argument. -/
structure ArgumentCode where
  argument : Argument
  index : Nat
  /-- The dispatcher declares its variable. -/
  receive : Fragment
  /-- The proxy sends the argument. -/
  send : Fragment
  /-- The dispatcher sends the argument back. -/
  giveBack : Fragment
  /-- The proxy takes back what was sent. -/
  takeBack : Fragment

/-- The dispatcher's variable for the argument with a number. -/
def argumentLocal (index : Nat) : String := "_arg" ++ toString index

/-- The dispatcher's variable for the argument. -/
def ArgumentCode.localName (a : ArgumentCode) : String := argumentLocal a.index

/-- The code for the result. -/
structure ResultCode where
  argument : Argument
  /-- The dispatcher sends the result. -/
  giveBack : Fragment
  /-- The proxy declares its variable. -/
  takeBack : Fragment

/-- The code of a method. -/
structure MethodCode where
  method : Method
  index : Nat
  /-- The name of the constant that stands for the method in a call. -/
  transaction : String
  arguments : List ArgumentCode
  result : Option ResultCode

namespace MethodCode

/-- The parameters with their types. -/
def parameters (m : MethodCode) : String :=
  Text.join ", " (m.arguments.map fun a => a.argument.type ++ " " ++ a.argument.name)

/-- The dispatcher's variables. -/
def localNames (m : MethodCode) : String :=
  Text.join ", " (m.arguments.map ArgumentCode.localName)

/-- Code that does something. -/
def present (fragments : List Fragment) : List Fragment :=
  fragments.filter fun f => !f.isNothing

/-- What the proxy sends. -/
def sent (m : MethodCode) : List Fragment := present (m.arguments.map ArgumentCode.send)

/-- What the dispatcher sends back behind the result. -/
def givenBack (m : MethodCode) : List Fragment := present (m.arguments.map ArgumentCode.giveBack)

/-- What the proxy takes back behind the result. -/
def takenBack (m : MethodCode) : List Fragment := present (m.arguments.map ArgumentCode.takeBack)

end MethodCode

/-- The name of the constant for a method. The number tells methods of one name
apart, and the first of them has none. -/
def transactionName (name : String) (earlier : Nat) : String :=
  "TRANSACTION_" ++ name ++ if earlier = 0 then "" else "_" ++ toString earlier

/-- The names of the constants for methods that follow others. -/
def transactionNamesAfter (seen : List String) : List String → List String
  | [] => []
  | name :: names =>
      transactionName name (seen.count name) :: transactionNamesAfter (name :: seen) names

/-- The names of the constants for the methods of an interface. -/
def Interface.transactions (i : Interface) : List String :=
  transactionNamesAfter [] (i.methods.map Method.name)

namespace Writer

/-- The code for the way to the callee. -/
def encodeRequest (w : Writer) (index : Nat) (m : Method) : Encoding (List (Fragment × Fragment)) :=
  m.arguments.zipIdx.mapM fun (a, i) => do
    let slot : Slot := ⟨index, some i⟩
    let receive ← w.encode slot a .dispatcher .pre (argumentLocal i)
    let send ← w.encode slot a .proxy .pre a.name
    return (receive, send)

/-- The code for the result. -/
def encodeResult (w : Writer) (index : Nat) (m : Method) : Encoding (Option ResultCode) :=
  match m.result with
  | none => return none
  | some r => do
      let slot : Slot := ⟨index, none⟩
      let giveBack ← w.encode slot r .dispatcher .post r.name
      let takeBack ← w.encode slot r .proxy .post r.name
      return some ⟨r, giveBack, takeBack⟩

/-- The code for the way back to the caller. -/
def encodeReply (w : Writer) (index : Nat) (m : Method) : Encoding (List (Fragment × Fragment)) :=
  m.arguments.zipIdx.mapM fun (a, i) => do
    let slot : Slot := ⟨index, some i⟩
    let giveBack ← w.encode slot a .dispatcher .post (argumentLocal i)
    let takeBack ← w.encode slot a .proxy .post a.name
    return (giveBack, takeBack)

/-- The code of a method. The result goes before the arguments on the way back. -/
def encodeMethod (w : Writer) (index : Nat) (transaction : String) (m : Method) :
    Encoding MethodCode := do
  let request ← w.encodeRequest index m
  let result ← w.encodeResult index m
  let reply ← w.encodeReply index m
  let arguments := (m.arguments.zipIdx.zip (request.zip reply)).map
    fun ((a, i), (receive, send), (giveBack, takeBack)) =>
      (⟨a, i, receive, send, giveBack, takeBack⟩ : ArgumentCode)
  return { method := m, index, transaction, arguments, result }

/-- The code of all methods of an interface. Temporaries are counted anew. -/
def encodeMethods (w : Writer) (i : Interface) : Encoding (List MethodCode) := do
  w.restart
  let methods ← (i.methods.zip i.transactions).zipIdx.mapM fun ((m, transaction), index) =>
    w.encodeMethod index transaction m
  modify fun d => d.record [.encoded methods.length i.qualifiedName]
  return methods

end Writer

end BinderIdl
