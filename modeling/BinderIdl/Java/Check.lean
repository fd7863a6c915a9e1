import BinderIdl.Text.Blank
import BinderIdl.Text.Word

/-! Structural checks of Java files. Comments and the content of string literals
are removed first; the rest has to declare a package and a type, and to have as
many opening as closing braces. -/
namespace BinderIdl.Java

/-- What follows the first end of a block comment. -/
def afterComment? : List Char → Option (List Char)
  | [] => none
  | '*' :: '/' :: cs => some cs
  | _ :: cs => afterComment? cs

theorem length_afterComment? {cs rest : List Char} (h : afterComment? cs = some rest) :
    rest.length < cs.length := by
  induction cs using afterComment?.induct with
  | case1 => simp [afterComment?] at h
  | case2 cs =>
      simp only [afterComment?, Option.some.injEq] at h
      subst h
      simp only [List.length_cons]
      omega
  | case3 c cs hc ih =>
      rw [afterComment?] at h
      · have := ih h
        simp only [List.length_cons]
        omega
      · exact hc

/-- A text without its block comments. A comment that does not end is kept. -/
def withoutBlockComments (cs : List Char) : List Char :=
  match cs with
  | [] => []
  | '/' :: '*' :: rest =>
      match h : afterComment? rest with
      | some after =>
          have := length_afterComment? h
          withoutBlockComments after
      | none => '/' :: withoutBlockComments ('*' :: rest)
  | c :: rest => c :: withoutBlockComments rest
termination_by cs.length

/-- A text without its line comments, from inside one or not. The line feed
behind a comment is kept. -/
def withoutLineCommentsFrom : Bool → List Char → List Char
  | _, [] => []
  | true, c :: cs =>
      if c = '\n' then c :: withoutLineCommentsFrom false cs else withoutLineCommentsFrom true cs
  | false, '/' :: '/' :: cs => withoutLineCommentsFrom true cs
  | false, c :: cs => c :: withoutLineCommentsFrom false cs

/-- A text without its line comments. -/
def withoutLineComments (cs : List Char) : List Char := withoutLineCommentsFrom false cs

/-- What follows the end of a string literal. A backslash takes the character
behind it along, which cannot be a line feed. -/
def afterLiteral? : List Char → Option (List Char)
  | [] => none
  | '\x22' :: cs => some cs
  | '\x5c' :: c :: cs => if c = '\n' then none else afterLiteral? cs
  | ['\x5c'] => none
  | _ :: cs => afterLiteral? cs

theorem length_afterLiteral? {cs rest : List Char} (h : afterLiteral? cs = some rest) :
    rest.length < cs.length := by
  fun_induction afterLiteral? cs with
  | case1 => simp at h
  | case2 cs =>
      simp only [Option.some.injEq] at h
      subst h
      simp
  | case3 => simp at h
  | case4 c cs hc ih =>
      have := ih h
      simp only [List.length_cons]
      omega
  | case5 => simp at h
  | case6 c cs _ _ _ ih =>
      have := ih h
      simp only [List.length_cons]
      omega

/-- A text with all its string literals empty. A quote that does not start a
literal is kept. -/
def withEmptyLiterals (cs : List Char) : List Char :=
  match cs with
  | [] => []
  | '\x22' :: rest =>
      match h : afterLiteral? rest with
      | some after =>
          have := length_afterLiteral? h
          '\x22' :: '\x22' :: withEmptyLiterals after
      | none => '\x22' :: withEmptyLiterals rest
  | c :: rest => c :: withEmptyLiterals rest
termination_by cs.length

/-- The part of a text that counts for its structure. -/
def bareCode (cs : List Char) : List Char :=
  withEmptyLiterals (withoutLineComments (withoutBlockComments cs))

/-- What follows a word at the start. -/
def afterWord? (word : String) (cs : List Char) : Option (List Char) :=
  if word.toList.isPrefixOf cs then some (cs.drop word.toList.length) else none

/-- What follows blanks at the start, of which there is at least one. -/
def afterBlanks? : List Char → Option (List Char)
  | [] => none
  | c :: cs => if Text.isBlank c then some (Text.stripLeft cs) else none

/-- A character of a package's name. -/
def isPackageChar (c : Char) : Bool := Text.isWord c || c == '.'

/-- Whether a package is declared at the start, behind blanks. -/
def startsPackage (cs : List Char) : Bool :=
  match (afterWord? "package" (Text.stripLeft cs)).bind afterBlanks? with
  | some name =>
      match name.span isPackageChar with
      | ([], _) => false
      | (_, rest) => (Text.stripLeft rest).head? == some ';'
  | none => false

/-- Whether a package is declared at the start of a line, given whether a line
starts here. -/
def declaresPackageFrom : Bool → List Char → Bool
  | atLine, [] => atLine && startsPackage []
  | atLine, c :: cs => (atLine && startsPackage (c :: cs)) || declaresPackageFrom (c == '\n') cs

/-- Whether a package is declared at the start of a line. -/
def declaresPackage (cs : List Char) : Bool := declaresPackageFrom true cs

/-- Whether a type is declared at the start. -/
def startsType (cs : List Char) : Bool :=
  ["interface", "class", "enum"].any fun word =>
    match (afterWord? word cs).bind afterBlanks? with
    | some name => name.head?.any Text.isWord
    | none => false

/-- Whether a type is declared at the start of a word, given whether a word can
start here. -/
def declaresTypeFrom : Bool → List Char → Bool
  | _, [] => false
  | free, c :: cs => (free && startsType (c :: cs)) || declaresTypeFrom (!Text.isWord c) cs

/-- Whether a type is declared. -/
def declaresType (cs : List Char) : Bool := declaresTypeFrom true cs

/-- What is wrong with the structure of a file. -/
inductive Defect where
  | noPackage
  | noType
  | unbalanced (opening closing : Nat)
  deriving DecidableEq, Repr

/-- The message of a defect. -/
def Defect.message : Defect → String
  | noPackage => "Generated Java code is missing a package declaration"
  | noType => "Generated Java code has no type declarations"
  | unbalanced opening closing =>
      "Generated Java code has unbalanced braces: " ++ toString opening ++ " open, " ++
        toString closing ++ " close"

/-- The first defect of a file. -/
def defect? (text : String) : Option Defect :=
  let code := bareCode text.toList
  let opening := code.count '\x7b'
  let closing := code.count '\x7d'
  if !declaresPackage code then some .noPackage
  else if !declaresType code then some .noType
  else if opening ≠ closing then some (.unbalanced opening closing)
  else none

end BinderIdl.Java
