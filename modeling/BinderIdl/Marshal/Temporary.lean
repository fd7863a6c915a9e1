/-! Names of temporaries in generated code. Each piece of code that needs
temporaries takes a number of its own, and the number becomes part of their
names. -/
namespace BinderIdl

/-- The temporaries of one piece of code, told apart from those of others by a
number. -/
structure Temporaries where
  index : Int
  deriving DecidableEq, Repr

/-- The temporaries of the next piece of code when some pieces have theirs. -/
def Temporaries.after (count : Nat) : Temporaries := ⟨count + 1⟩

/-- Give the next piece of code its temporaries, which count from now on. -/
def Temporaries.allocate (count : Nat) : Temporaries × Nat := (.after count, count + 1)

/-- The name of a temporary with a role. The number one is not written. -/
def Temporaries.named (t : Temporaries) (role : String) : String :=
  "_" ++ role ++ if t.index = 1 then "" else toString t.index

/-- The roles that temporaries of generated code have. -/
inductive Role where
  | array
  | binder
  | binders
  | bits
  | curSize
  | hasNull
  | i
  | interface
  | item
  | j
  | key
  | length
  | lsb
  | msb
  | nullLsb
  | nullMsb
  | nullUuid
  | size
  | uuid
  | value
  deriving DecidableEq, Repr

/-- The word for a role. -/
def Role.word : Role → String
  | .array => "array"
  | .binder => "binder"
  | .binders => "binders"
  | .bits => "bits"
  | .curSize => "curSize"
  | .hasNull => "hasNull"
  | .i => "i"
  | .interface => "interface"
  | .item => "item"
  | .j => "j"
  | .key => "key"
  | .length => "length"
  | .lsb => "lsb"
  | .msb => "msb"
  | .nullLsb => "nullLsb"
  | .nullMsb => "nullMsb"
  | .nullUuid => "nullUuid"
  | .size => "size"
  | .uuid => "uuid"
  | .value => "value"

/-- The name of the temporary in a role. -/
def Temporaries.name (t : Temporaries) (role : Role) : String := t.named role.word

/-- A member of the temporaries: their number, or a name. -/
inductive Member where
  | number (index : Int)
  | name (text : String)
  deriving DecidableEq, Repr

/-- The member that a word names. A word that starts with a low line is private
and names none, except the word for the number itself. -/
def Temporaries.member? (t : Temporaries) (word : String) : Option Member :=
  if word = "_index" then some (.number t.index)
  else if word.toList.head? = some '_' then none
  else some (.name (t.named word))

end BinderIdl
