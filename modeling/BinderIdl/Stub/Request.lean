import BinderIdl.Stub.Dispatch

/-! The proxy's part of a method: it sends the arguments, makes the call and
takes back what the dispatcher sends. -/
namespace BinderIdl

open Java

/-- What the proxy does inside a call, between obtaining its parcels and
recycling them. -/
inductive RequestStep where
  /-- Say for which interface the call is meant. -/
  | token
  /-- Send an argument. -/
  | send (code : Fragment)
  /-- Make the call without waiting for it. -/
  | post (transaction : String)
  /-- Make the call. -/
  | transact (transaction : String)
  /-- Throw the exception that was sent back, if there is one. -/
  | rethrow
  /-- Declare the variable of the result. -/
  | result (type name : String) (code : Fragment)
  /-- Take something back. -/
  | takeBack (code : Fragment)
  | give (name : String)

namespace RequestStep

/-- The depth of the statements of a call. -/
def depth : Nat := 5

/-- The lines of a step. -/
def lines : RequestStep → List String
  | token => [lineAt depth "_data.writeInterfaceToken(DESCRIPTOR);"]
  | send code => [fragmentAt depth "" code]
  | post transaction =>
      [lineAt depth ("mRemote.transact(Stub." ++ transaction ++
        ", _data, null, android.os.IBinder.FLAG_ONEWAY);")]
  | transact transaction =>
      [lineAt depth ("mRemote.transact(Stub." ++ transaction ++ ", _data, _reply, 0);")]
  | rethrow => [lineAt depth "_reply.readException();"]
  | result type name code => [fragmentAt depth ("final " ++ type ++ " " ++ name) code]
  | takeBack code => [fragmentAt depth "" code]
  | give name => [lineAt depth ("return " ++ name ++ ";")]

end RequestStep

namespace MethodCode

/-- The steps of the proxy on the way back. -/
def response (m : MethodCode) : List RequestStep :=
  [.transact m.transaction, .rethrow] ++
    (match m.result with
    | some r => [.result m.method.returnType r.argument.name r.takeBack]
    | none => []) ++
    m.takenBack.map .takeBack ++
    (match m.result with
    | some r => [.give r.argument.name]
    | none => [])

/-- The steps of the proxy. -/
def request (m : MethodCode) : List RequestStep :=
  [.token] ++ m.sent.map .send ++
    if m.method.isOneway then [.post m.transaction] else m.response

/-- The head of the method's declaration. -/
def signature (m : MethodCode) : String :=
  "public " ++ m.method.returnType ++ " " ++ m.method.name ++ "(" ++ m.parameters ++
    ") throws android.os.RemoteException"

/-- The lines of the proxy's method. -/
def proxyLines (m : MethodCode) : List String :=
  let waits := !m.method.isOneway
  ["", lineAt 3 "@Override", lineAt 3 (m.signature ++ " \x7b"),
    lineAt 4 "final android.os.Parcel _data = android.os.Parcel.obtain();"] ++
    (if waits then [lineAt 4 "final android.os.Parcel _reply = android.os.Parcel.obtain();"]
      else []) ++
    [lineAt 4 "try \x7b"] ++ m.request.flatMap RequestStep.lines ++
    [lineAt 4 "\x7d finally \x7b"] ++
    (if waits then [lineAt 5 "_reply.recycle();"] else []) ++
    [lineAt 5 "_data.recycle();", lineAt 4 "\x7d", lineAt 3 "\x7d"]

end MethodCode

end BinderIdl
