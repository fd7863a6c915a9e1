import BinderIdl.Marshal.Category
import BinderIdl.Nature
import BinderIdl.Text.Loose

/-! Events: what the program tells about its work while it works. -/
namespace BinderIdl

open Text (Loose loose)

/-- How much an event matters. -/
inductive Gravity where
  | detail
  | notice
  | failure
  deriving DecidableEq, Repr

/-- Something that happened. -/
inductive Event where
  /-- A type was found to be of a nature. -/
  | classified (type : String) (nature : Nature)
  /-- The way in which an argument travels was chosen. -/
  | resolved (type : String) (direction : Direction) (category : Category)
  /-- All methods of an interface were encoded. -/
  | encoded (methods : Nat) (interface : String)
  /-- A list of known types was read. -/
  | loaded (names : Nat) (path : Loose)
  /-- A path does not belong to the sources. -/
  | ignored (path folder : Loose)
  | generated (path : Loose)
  | removed (path : Loose)
  /-- There was nothing to remove. -/
  | absent (path : Loose)
  /-- A source could not be compiled. -/
  | failed (reason : String)
  /-- A generated file could not be removed. -/
  | stuck (path : Loose) (reason : String)
  deriving DecidableEq, Repr

namespace Event

/-- The gravity of an event. -/
def gravity : Event → Gravity
  | classified .. | resolved .. | encoded .. | loaded .. | ignored .. | absent .. => .detail
  | generated .. | removed .. => .notice
  | failed .. | stuck .. => .failure

/-- The name of the part of the program that an event comes from. -/
def origin : Event → String
  | classified .. => "aidl2.pipeline.marshal.context"
  | resolved .. => "aidl2.pipeline.marshal.base"
  | encoded .. => "aidl2.pipeline.writer.java_writer"
  | loaded .. => "aidl2.pipeline.analyzer.classifier"
  | ignored .. | generated .. | removed .. | absent .. | failed .. | stuck .. =>
      "aidl2.pipeline.generator"

/-- The message of an event. -/
def message : Event → Loose
  | classified type nature => loose ("Classified '" ++ type ++ "' as " ++ nature.word)
  | resolved type direction category =>
      loose ("Resolved '" ++ type ++ "' (" ++ direction.word ++ ") to " ++ category.label)
  | encoded methods interface =>
      loose ("Encoded " ++ toString methods ++ " methods of " ++ interface)
  | loaded names path =>
      loose ("Loaded " ++ toString names ++ " known parcelables from ") ++ path
  | ignored path folder => loose "Ignoring " ++ path ++ loose ": not below " ++ folder
  | generated path => loose "Generated " ++ path
  | removed path => loose "Removed " ++ path
  | absent path => path ++ loose " already removed"
  | failed reason => loose reason
  | stuck path reason => loose "Cannot remove " ++ path ++ loose (": " ++ reason)

end Event

end BinderIdl
