import BinderIdl.Java.Stmt
import BinderIdl.Keyword

/-! What is done with an argument, where and when. A call has a proxy on the
caller's side and a dispatcher on the callee's side; each handles an argument
before the call and after it, on a parcel of its own. -/
namespace BinderIdl

/-- The two ends of a call. -/
inductive Site where
  | proxy
  | dispatcher
  deriving DecidableEq, Repr

/-- Before or after the call itself. -/
inductive Phase where
  | pre
  | post
  deriving DecidableEq, Repr

/-- What can be done with an argument and a parcel. -/
inductive Operation where
  /-- Declare the argument with the value that is read. -/
  | create
  | write
  /-- Update the argument, which exists already. -/
  | update
  /-- Declare the argument with a place for a value that comes later. -/
  | createBuffer
  /-- Send what the other side needs to make such a place. -/
  | writeBufferInfo
  deriving DecidableEq, Repr

/-- The word for a site. -/
def Site.word : Site → String
  | .proxy => "proxy"
  | .dispatcher => "dispatcher"

/-- The word for a phase. -/
def Phase.word : Phase → String
  | .pre => "pre"
  | .post => "post"

/-- The site with a word. -/
def Site.ofWord? (word : String) : Option Site :=
  [Site.proxy, .dispatcher].find? fun s => s.word == word

/-- The phase with a word. -/
def Phase.ofWord? (word : String) : Option Phase :=
  [Phase.pre, .post].find? fun p => p.word == word

/-- What happens to an argument of a direction at a site in a phase. Whatever one
side writes before the call the other side reads before the call, and likewise
after it. -/
def Operation.of? : Site → Direction → Phase → Option Operation
  | .proxy, .into, .pre => some .write
  | .proxy, .into, .post => none
  | .proxy, .out, .pre => some .writeBufferInfo
  | .proxy, .out, .post => some .update
  | .proxy, .inout, .pre => some .write
  | .proxy, .inout, .post => some .update
  | .proxy, .result, .pre => none
  | .proxy, .result, .post => some .create
  | .dispatcher, .into, .pre => some .create
  | .dispatcher, .into, .post => none
  | .dispatcher, .out, .pre => some .createBuffer
  | .dispatcher, .out, .post => some .write
  | .dispatcher, .inout, .pre => some .create
  | .dispatcher, .inout, .post => some .write
  | .dispatcher, .result, .pre => none
  | .dispatcher, .result, .post => some .write

/-- The parcels of a call, as its two ends name them. -/
inductive Parcel where
  | proxyData
  | proxyReply
  | data
  | reply
  deriving DecidableEq, Repr

namespace Parcel

open Java

/-- The parcel of a site in a phase. -/
def of : Site → Phase → Parcel
  | .proxy, .pre => proxyData
  | .proxy, .post => proxyReply
  | .dispatcher, .pre => data
  | .dispatcher, .post => reply

/-- The variable that holds a parcel. -/
def name : Parcel → String
  | proxyData => "_data"
  | proxyReply => "_reply"
  | data => "data"
  | reply => "reply"

/-- The parcel as an expression. -/
def expr (p : Parcel) : Expr := .name p.name

/-- A call of a parcel's method. -/
def call (p : Parcel) (method : String) (arguments : List Expr) : Expr :=
  .call p.expr method arguments

/-- The flags for writing a Parcelable. Only what the dispatcher sends back is a
return value. -/
def flags : Parcel → Expr
  | reply => .name "android.os.Parcelable.PARCELABLE_WRITE_RETURN_VALUE"
  | _ => .int 0

end Parcel

end BinderIdl
