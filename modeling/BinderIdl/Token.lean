import BinderIdl.Keyword
import BinderIdl.Text.Lines

/-! Tokens of an interface definition, and a definition's text together with
its tokens. -/
namespace BinderIdl

/-- The punctuation of interface definitions. -/
inductive Mark where
  | dot
  | semicolon
  | openBrace
  | closeBrace
  | openParen
  | closeParen
  | comma
  | openBracket
  | closeBracket
  deriving DecidableEq, Repr

/-- The character of a mark. -/
def Mark.char : Mark → Char
  | .dot => '.'
  | .semicolon => ';'
  | .openBrace => '\x7b'
  | .closeBrace => '\x7d'
  | .openParen => '('
  | .closeParen => ')'
  | .comma => ','
  | .openBracket => '['
  | .closeBracket => ']'

/-- All marks. -/
def Mark.all : List Mark :=
  [.dot, .semicolon, .openBrace, .closeBrace, .openParen, .closeParen, .comma, .openBracket,
    .closeBracket]

/-- The mark that is written as a character. -/
def Mark.ofChar? (c : Char) : Option Mark :=
  Mark.all.find? fun m => m.char == c

/-- What a token is. Keywords that choose among several meanings carry theirs. -/
inductive TokenClass where
  | packageWord
  | importWord
  | interfaceWord
  | importKind (kind : ImportKind)
  | modifier (modifier : Modifier)
  | direction (direction : Direction)
  | name
  /-- A whole block of type arguments or parameters, with its angle brackets. -/
  | typeBlock
  | javadoc
  | mark (mark : Mark)
  deriving DecidableEq, Repr

/-- The letter that stands for a class where the classes of a whole definition
are shown as one word. -/
def TokenClass.letter : TokenClass → Char
  | .packageWord => 'p'
  | .importWord => 'o'
  | .interfaceWord => 'i'
  | .importKind _ => 'k'
  | .modifier _ => 'm'
  | .direction _ => 'd'
  | .name => 'n'
  | .typeBlock => 'g'
  | .javadoc => 'j'
  | .mark m => m.char

/-- The class of a word: a keyword, or else a name. -/
def TokenClass.ofWord (word : String) : TokenClass :=
  if word = "package" then .packageWord
  else if word = "import" then .importWord
  else if word = "interface" then .interfaceWord
  else if word = "parcelable" then .importKind .parcelable
  else if word = "serializable" then .importKind .serializable
  else if word = "oneway" then .modifier .oneway
  else if word = "mainthread" then .modifier .mainthread
  else if word = "localthrow" then .modifier .localthrow
  else if word = "in" then .direction .into
  else if word = "out" then .direction .out
  else if word = "inout" then .direction .inout
  else .name

/-- A token with the line and the column of its first character, both counted
from one. -/
structure Token where
  cls : TokenClass
  value : String
  line : Nat
  column : Nat
  deriving DecidableEq, Repr

/-- A definition that has been read into tokens. -/
structure Source where
  filename : Option String
  text : String
  tokens : List Token
  deriving Repr

/-- The classes of all tokens as one word. -/
def Source.shape (s : Source) : String :=
  String.ofList (s.tokens.map fun t => t.cls.letter)

/-- The shown line of the text with a number. -/
def Source.line? (s : Source) (number : Int) : Option String :=
  Text.lineAt? s.text number

end BinderIdl
