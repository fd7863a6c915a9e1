import BinderIdl.Stub.Request

/-! The generated file of an interface. -/
namespace BinderIdl

/-- The comment at the start of a generated file. Parts that are empty are left
out. -/
structure Banner where
  shown : Bool := true
  sourceName : Option String := none
  commandLine : Option String := none
  deriving DecidableEq, Repr

/-- A line of the comment, if there is something to say. -/
def Banner.entry (label : String) : Option String → List String
  | none => []
  | some value => if value = "" then [] else [" * " ++ label ++ ": " ++ value]

/-- The lines of the comment. -/
def Banner.lines (b : Banner) : List String :=
  if b.shown then
    ["/*", " * This file is auto-generated. DO NOT MODIFY."] ++
      entry "Original file" b.sourceName ++ entry "Generated by" b.commandLine ++ [" */"]
  else []

/-- The lines of a doc comment, if there is one. -/
def docLines (depth : Nat) : Option String → List String
  | none => []
  | some doc => if doc = "" then [] else [lineAt depth doc]

namespace Interface

/-- The block that declares the type parameters, or nothing. -/
def typeBlockText (i : Interface) : String := i.typeBlock.getD ""

/-- The name of the interface with its type arguments. -/
def appliedName (i : Interface) : String := i.name ++ i.typeArguments

/-- The head of the stub up to the method that wraps a binder. -/
def stubHead (i : Interface) : List String := [
  lineAt 1 "/** Local-side IPC implementation stub class. */",
  lineAt 1 ("public static abstract class Stub" ++ i.typeBlockText ++
    " extends android.os.Binder implements " ++ i.appliedName ++ " \x7b"),
  lineAt 2 ("private static final java.lang.String DESCRIPTOR = \"" ++ i.qualifiedName ++ "\";"),
  "",
  lineAt 2 "/** Construct the stub and attach it to the interface. */",
  lineAt 2 "public Stub() \x7b",
  lineAt 3 "this.attachInterface(this, DESCRIPTOR);",
  lineAt 2 "\x7d",
  ""]

/-- The head of the method that wraps a binder. -/
def asInterfaceHead (i : Interface) : List String :=
  [lineAt 2 "/**",
    lineAt 2 (" * Cast an IBinder object into an " ++ i.name ++
      " interface, generating a proxy if needed."),
    lineAt 2 " */"] ++
  if i.typeBlockText = "" then
    [lineAt 2 ("public static " ++ i.name ++ " asInterface(final android.os.IBinder obj) \x7b")]
  else
    [lineAt 2 "@SuppressWarnings(\"unchecked\")",
      lineAt 2 ("public static " ++ i.typeBlockText ++ " " ++ i.appliedName ++
        " asInterface(final android.os.IBinder obj) \x7b")]

/-- The rest of the method that wraps a binder, and the one that gives it back. -/
def asInterfaceBody (i : Interface) : List String := [
  lineAt 3 "if (obj == null) \x7b",
  lineAt 4 "return null;",
  lineAt 3 "\x7d",
  lineAt 3 "final android.os.IInterface iin = obj.queryLocalInterface(DESCRIPTOR);",
  lineAt 3 ("if (iin != null && iin instanceof " ++ i.name ++ ") \x7b"),
  lineAt 4 ("return (" ++ i.appliedName ++ ") iin;"),
  lineAt 3 "\x7d",
  lineAt 3 ("return new " ++ i.name ++ ".Stub.Proxy" ++ i.typeArguments ++ "(obj);"),
  lineAt 2 "\x7d",
  "",
  lineAt 2 "@Override",
  lineAt 2 "public android.os.IBinder asBinder() \x7b",
  lineAt 3 "return this;",
  lineAt 2 "\x7d",
  ""]

/-- The start of the dispatcher. -/
def dispatcherHead : List String := [
  lineAt 2 "@Override",
  lineAt 2 ("public boolean onTransact(final int code, final android.os.Parcel data, " ++
    "final android.os.Parcel reply, final int flags) throws android.os.RemoteException \x7b"),
  lineAt 3 "switch (code) \x7b",
  lineAt 4 "case INTERFACE_TRANSACTION: \x7b",
  lineAt 5 "reply.writeString(DESCRIPTOR);",
  lineAt 5 "return true;",
  lineAt 4 "\x7d"]

/-- The end of the dispatcher. -/
def dispatcherTail : List String := [
  lineAt 3 "\x7d",
  lineAt 3 "return super.onTransact(code, data, reply, flags);",
  lineAt 2 "\x7d"]

/-- The method that runs a task on the main thread. -/
def mainThreadLines : List String := [
  "",
  lineAt 2 ("private static <V> V runOnMainThread(final java.util.concurrent.FutureTask<V> task) " ++
    "throws android.os.RemoteException \x7b"),
  lineAt 3 "if (android.os.Looper.myLooper() == android.os.Looper.getMainLooper()) \x7b",
  lineAt 4 "task.run();",
  lineAt 3 "\x7d else \x7b",
  lineAt 4 "new android.os.Handler(android.os.Looper.getMainLooper()).post(task);",
  lineAt 3 "\x7d",
  lineAt 3 "try \x7b",
  lineAt 4 "return task.get();",
  lineAt 3 "\x7d catch (final InterruptedException e) \x7b",
  lineAt 4 "Thread.currentThread().interrupt();",
  lineAt 4 "throw new RuntimeException(e);",
  lineAt 3 "\x7d catch (final java.util.concurrent.ExecutionException e) \x7b",
  lineAt 4 "final Throwable cause = e.getCause();",
  lineAt 4 "if (cause instanceof RuntimeException) \x7b",
  lineAt 5 "throw (RuntimeException) cause;",
  lineAt 4 "\x7d",
  lineAt 4 "if (cause instanceof android.os.RemoteException) \x7b",
  lineAt 5 "throw (android.os.RemoteException) cause;",
  lineAt 4 "\x7d",
  lineAt 4 "if (cause instanceof Error) \x7b",
  lineAt 5 "throw (Error) cause;",
  lineAt 4 "\x7d",
  lineAt 4 "throw new RuntimeException(cause);",
  lineAt 3 "\x7d",
  lineAt 2 "\x7d"]

/-- The start of the proxy. -/
def proxyHead (i : Interface) : List String := [
  lineAt 2 ("private static class Proxy" ++ i.typeBlockText ++ " implements " ++ i.appliedName ++
    " \x7b"),
  lineAt 3 "private final android.os.IBinder mRemote;",
  "",
  lineAt 3 "Proxy(final android.os.IBinder remote) \x7b",
  lineAt 4 "mRemote = remote;",
  lineAt 3 "\x7d",
  "",
  lineAt 3 "@Override",
  lineAt 3 "public android.os.IBinder asBinder() \x7b",
  lineAt 4 "return mRemote;",
  lineAt 3 "\x7d",
  "",
  lineAt 3 "public java.lang.String getInterfaceDescriptor() \x7b",
  lineAt 4 "return DESCRIPTOR;",
  lineAt 3 "\x7d"]

/-- The constant that stands for a method in a call. -/
def constantLines (m : MethodCode) : List String := [
  "",
  lineAt 2 ("static final int " ++ m.transaction ++ " = (android.os.IBinder.FIRST_CALL_TRANSACTION + " ++
    toString m.index ++ ");")]

/-- The lines of the stub, with the proxy inside it. -/
def stubLines (i : Interface) (methods : List MethodCode) : List String :=
  i.stubHead ++ i.asInterfaceHead ++ i.asInterfaceBody ++ dispatcherHead ++
    methods.flatMap MethodCode.caseLines ++ dispatcherTail ++
    (if i.methods.any Method.isMainthread then mainThreadLines else []) ++ [""] ++
    i.proxyHead ++ methods.flatMap MethodCode.proxyLines ++ [lineAt 2 "\x7d"] ++
    methods.flatMap constantLines ++ [lineAt 1 "\x7d"]

/-- The declaration of a method. -/
def declarationLines (m : MethodCode) : List String :=
  [""] ++ docLines 1 m.method.javadoc ++ [lineAt 1 (m.signature ++ ";")]

/-- The lines of the package and of the imported names. -/
def headerLines (i : Interface) : List String :=
  ["package " ++ i.package ++ ";"] ++
    (if i.imports.isEmpty then [] else [""] ++ i.imports.map fun e => "import " ++ e.name ++ ";") ++
    [""]

/-- The lines of the generated file behind its banner. -/
def codeLines (i : Interface) (methods : List MethodCode) : List String :=
  i.headerLines ++ docLines 0 i.javadoc ++
    ["public interface " ++ i.name ++ i.typeBlockText ++ " extends android.os.IInterface \x7b"] ++
    i.stubLines methods ++ methods.flatMap declarationLines ++ ["\x7d"]

/-- The generated file. -/
def fileText (i : Interface) (banner : Banner) (methods : List MethodCode) : String :=
  String.join ((banner.lines ++ i.codeLines methods).map fun line => line ++ "\n")

end Interface

/-- The generated file of an interface by a writer. -/
def Writer.encodeInterface (w : Writer) (i : Interface) (banner : Banner) : Encoding String := do
  let methods ← w.encodeMethods i
  return i.fileText banner methods

end BinderIdl
