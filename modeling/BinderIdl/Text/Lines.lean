/-! Lines of a text. Two notions of line live side by side in this library:
positions count the line feed only, while the lines *shown* to a reader, and
the lines that are re-indented, also end at the other line breaks below. -/
namespace BinderIdl.Text

/-- The characters that end a shown line. A carriage return directly followed
by a line feed ends one line, not two. -/
def isLineBreak (c : Char) : Bool :=
  let n := c.toNat
  (10 ≤ n && n ≤ 13) || (28 ≤ n && n ≤ 30) || n == 0x85 || n == 0x2028 || n == 0x2029

/-- The shown lines of a text, without their line breaks. A break at the very
end does not open another line, and the empty text has no line. -/
def lines : List Char → List (List Char)
  | [] => []
  | '\r' :: '\n' :: cs => [] :: lines cs
  | c :: cs =>
      if isLineBreak c then [] :: lines cs
      else
        match lines cs with
        | [] => [[c]]
        | l :: ls => (c :: l) :: ls

/-- The shown line with a number, counted from one. -/
def lineAt? (text : String) (number : Int) : Option String :=
  if 1 ≤ number then (lines text.toList)[(number - 1).toNat]?.map String.ofList else none

/-- `width` spaces. -/
def spaces (width : Nat) : List Char :=
  List.replicate width ' '

/-- Set a text behind `width` columns: its first line stays where it is placed,
every later line is moved right, and an empty later line stays empty. Whatever
broke the lines before, a line feed breaks them afterwards. -/
def hang (width : Nat) (text : String) : String :=
  match lines (text.toList ++ ['\n']) with
  | [] => ""
  | first :: later =>
      String.ofList (first ++ later.flatMap fun l =>
        '\n' :: if l.isEmpty then [] else spaces width ++ l)

/-- Parts joined with a separator between each two neighbours. -/
def join (separator : String) : List String → String
  | [] => ""
  | [part] => part
  | part :: parts => part ++ separator ++ join separator parts

/-- Line ends as they are read: a carriage return, alone or before a line feed,
reads as one line feed. -/
def unifyBreaks : List Char → List Char
  | '\r' :: '\n' :: cs => '\n' :: unifyBreaks cs
  | '\r' :: cs => '\n' :: unifyBreaks cs
  | c :: cs => c :: unifyBreaks cs
  | [] => []

end BinderIdl.Text
