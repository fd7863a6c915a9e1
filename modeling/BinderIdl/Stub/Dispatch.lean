import BinderIdl.Stub.Code

/-! The dispatcher's part of a method: the case that receives the arguments,
makes the call and sends back what it gives. -/
namespace BinderIdl

open Java

/-- A line at a depth. -/
def lineAt (depth : Nat) (text : String) : String := Stmt.pad depth ++ text

/-- A piece of code at a depth, of which the first line follows some text. -/
def fragmentAt (depth : Nat) (text : String) (f : Fragment) : String :=
  lineAt depth (text ++ Text.hang (4 * depth) f.text)

/-- What the dispatcher does for a call. -/
inductive DispatchStep where
  /-- Check that the call is meant for this interface. -/
  | enforce
  /-- Declare the variable of an argument. -/
  | receive (argument : ArgumentCode)
  /-- Declare the task that makes the call on the main thread. -/
  | task (type : String) (body : List String)
  /-- Declare the variable of the result. -/
  | declareResult (type name : String)
  /-- Make the call, and send an exception back if one is thrown. -/
  | guarded (call : String)
  /-- Make the call. -/
  | unguarded (call : String)
  /-- Say that there was no exception. -/
  | confirm
  /-- Send something back. -/
  | giveBack (code : Fragment)
  | finish

namespace DispatchStep

/-- The depth of the statements of a case. -/
def depth : Nat := 5

/-- The lines of a step. -/
def lines : DispatchStep → List String
  | enforce => [lineAt depth "data.enforceInterface(DESCRIPTOR);"]
  | receive a => [fragmentAt depth ("final " ++ a.argument.type ++ " " ++ a.localName) a.receive]
  | task type body =>
      [lineAt depth ("final java.util.concurrent.FutureTask<" ++ type ++
          "> _task = new java.util.concurrent.FutureTask<" ++ type ++ ">("),
        lineAt (depth + 2) ("new java.util.concurrent.Callable<" ++ type ++ ">() \x7b"),
        lineAt (depth + 3) "@Override",
        lineAt (depth + 3) ("public " ++ type ++ " call() throws Exception \x7b")] ++
      body.map (lineAt (depth + 4)) ++
      [lineAt (depth + 3) "\x7d", lineAt (depth + 2) "\x7d);"]
  | declareResult type name => [lineAt depth ("final " ++ type ++ " " ++ name ++ ";")]
  | guarded call =>
      [lineAt depth "try \x7b",
        lineAt (depth + 1) (call ++ ";"),
        lineAt depth "\x7d catch (final RuntimeException e) \x7b",
        lineAt (depth + 1) "reply.writeException(e);",
        lineAt (depth + 1) "return true;",
        lineAt depth "\x7d"]
  | unguarded call => [lineAt depth (call ++ ";")]
  | confirm => [lineAt depth "reply.writeNoException();"]
  | giveBack code => [fragmentAt depth "" code]
  | finish => [lineAt depth "return true;"]

end DispatchStep

namespace MethodCode

/-- The body of the task that makes the call on the main thread. -/
def taskBody (m : MethodCode) : List String :=
  let call := "Stub.this." ++ m.method.name ++ "(" ++ m.localNames ++ ");"
  match m.result with
  | some _ => ["return " ++ call]
  | none => [call, "return null;"]

/-- The call itself. -/
def call (m : MethodCode) : String :=
  let call :=
    if m.method.isMainthread then "runOnMainThread(_task)"
    else "this." ++ m.method.name ++ "(" ++ m.localNames ++ ")"
  match m.result with
  | some r => r.argument.name ++ " = " ++ call
  | none => call

/-- The steps of the dispatcher. -/
def dispatch (m : MethodCode) : List DispatchStep :=
  [.enforce] ++ m.arguments.map .receive ++
    (if m.method.isMainthread then [.task (boxed m.method.returnType) m.taskBody] else []) ++
    (match m.result with
    | some r => [.declareResult m.method.returnType r.argument.name]
    | none => []) ++
    [if m.method.isLocalthrow || m.method.isOneway then .unguarded m.call else .guarded m.call] ++
    (if m.method.isOneway then [] else [.confirm]) ++
    (match m.result with
    | some r => (present [r.giveBack]).map .giveBack
    | none => []) ++
    m.givenBack.map .giveBack ++ [.finish]

/-- The lines of the dispatcher's case. -/
def caseLines (m : MethodCode) : List String :=
  [lineAt 4 ("case " ++ m.transaction ++ ": \x7b")] ++ m.dispatch.flatMap DispatchStep.lines ++
    [lineAt 4 "\x7d"]

end MethodCode

end BinderIdl
