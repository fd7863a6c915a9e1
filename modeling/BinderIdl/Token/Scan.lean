import BinderIdl.Diagnostic
import BinderIdl.Text.Blank
import BinderIdl.Text.Word

/-! Scanning a text into lexemes and tokens. A text is cut from the left into
lexemes until nothing is left or no lexeme starts; blanks and comments are
lexemes too, so the lexemes read so far always spell the text read so far. -/
namespace BinderIdl

/-- What a lexeme is. Only tokens reach the reader of definitions. -/
inductive LexemeClass where
  | blank
  | lineComment
  | blockComment
  | token (cls : TokenClass)
  deriving DecidableEq, Repr

/-- A piece of text with its class. -/
structure Lexeme where
  cls : LexemeClass
  text : List Char
  deriving DecidableEq, Repr

/-- Why no lexeme starts at a place. -/
inductive LexicalFault where
  | unexpected (c : Char)
  | openComment
  | openJavadoc
  | openTypeBlock
  deriving DecidableEq, Repr

/-- The words for a lexical fault. -/
def LexicalFault.message : LexicalFault → String
  | .unexpected c => "Unexpected character '" ++ String.ofList [c] ++ "'"
  | .openComment => "Unterminated comment"
  | .openJavadoc => "Unterminated Javadoc"
  | .openTypeBlock => "Unbalanced generic type"

namespace Scan

/-- The characters that start an identifier. -/
def startsIdentifier (c : Char) : Bool :=
  Text.isAsciiLetter c || c == '_' || c == '$'

/-- The characters that continue an identifier. -/
def continuesIdentifier (c : Char) : Bool :=
  Text.isWord c || c == '$'

/-- Cut behind the first end of a block comment. -/
def throughCommentEnd : List Char → Option (List Char × List Char)
  | [] => none
  | '*' :: '/' :: cs => some (['*', '/'], cs)
  | c :: cs => (throughCommentEnd cs).map fun (text, rest) => (c :: text, rest)

/-- Cut behind the angle bracket that closes a block with `inner` further
blocks open inside it. -/
def throughBlockEnd (inner : Nat) : List Char → Option (List Char × List Char)
  | [] => none
  | c :: cs =>
      if c = '<' then (throughBlockEnd (inner + 1) cs).map fun (text, rest) => (c :: text, rest)
      else if c = '>' then
        match inner with
        | 0 => some ([c], cs)
        | inner + 1 => (throughBlockEnd inner cs).map fun (text, rest) => (c :: text, rest)
      else (throughBlockEnd inner cs).map fun (text, rest) => (c :: text, rest)

/-- A block comment whose first two characters are known, and what follows it. -/
def comment (cls : LexemeClass) (fault : LexicalFault) (cs : List Char) :
    Except LexicalFault (Lexeme × List Char) :=
  match throughCommentEnd (cs.drop 2) with
  | some (text, rest) => .ok (⟨cls, '/' :: '*' :: text⟩, rest)
  | none => .error fault

/-- The lexeme that starts with a character, and what follows it. A comment
with a second star is a Javadoc, unless it ends right there. -/
def lexeme (c : Char) (cs : List Char) : Except LexicalFault (Lexeme × List Char) :=
  if Text.isBlank c then
    .ok (⟨.blank, c :: cs.takeWhile Text.isBlank⟩, cs.dropWhile Text.isBlank)
  else if ['/', '/'].isPrefixOf (c :: cs) then
    .ok (⟨.lineComment, c :: cs.takeWhile (· != '\n')⟩, cs.dropWhile (· != '\n'))
  else if ['/', '*', '*'].isPrefixOf (c :: cs) && !(['/', '*', '*', '/'].isPrefixOf (c :: cs)) then
    comment (.token .javadoc) .openJavadoc (c :: cs)
  else if ['/', '*'].isPrefixOf (c :: cs) then
    comment .blockComment .openComment (c :: cs)
  else if c = '<' then
    match throughBlockEnd 0 cs with
    | some (text, rest) => .ok (⟨.token .typeBlock, c :: text⟩, rest)
    | none => .error .openTypeBlock
  else
    match Mark.ofChar? c with
    | some m => .ok (⟨.token (.mark m), [c]⟩, cs)
    | none =>
        if startsIdentifier c then
          let word := c :: cs.takeWhile continuesIdentifier
          .ok (⟨.token (.ofWord (String.ofList word)), word⟩, cs.dropWhile continuesIdentifier)
        else .error (.unexpected c)

theorem length_throughCommentEnd {cs text rest : List Char}
    (h : throughCommentEnd cs = some (text, rest)) : rest.length ≤ cs.length := by
  induction cs using throughCommentEnd.induct generalizing text with
  | case1 => simp [throughCommentEnd] at h
  | case2 cs =>
      simp only [throughCommentEnd, Option.some.injEq, Prod.mk.injEq] at h
      simp only [← h.2, List.length_cons]
      omega
  | case3 c cs hne ih =>
      rw [throughCommentEnd] at h
      · obtain ⟨⟨t, r⟩, hr, heq⟩ := Option.map_eq_some_iff.mp h
        simp only [Prod.mk.injEq] at heq
        obtain ⟨rfl, rfl⟩ := heq
        exact Nat.le_succ_of_le (ih hr)
      · exact hne

theorem length_throughBlockEnd {inner : Nat} {cs text rest : List Char}
    (h : throughBlockEnd inner cs = some (text, rest)) : rest.length ≤ cs.length := by
  induction cs generalizing inner text with
  | nil => simp [throughBlockEnd] at h
  | cons c cs ih =>
      have lift : ∀ {n : Nat},
          (throughBlockEnd n cs).map (fun (t, r) => (c :: t, r)) = some (text, rest) →
          rest.length ≤ cs.length + 1 := by
        intro n hn
        obtain ⟨⟨t, r⟩, hr, heq⟩ := Option.map_eq_some_iff.mp hn
        simp only [Prod.mk.injEq] at heq
        obtain ⟨rfl, rfl⟩ := heq
        exact Nat.le_succ_of_le (ih hr)
      unfold throughBlockEnd at h
      split at h
      · exact lift h
      · split at h
        · split at h
          · simp only [Option.some.injEq, Prod.mk.injEq] at h
            simp [← h.2]
          · exact lift h
        · exact lift h

/-- What follows a lexeme is shorter than the text it was cut from. -/
theorem length_lexeme {c : Char} {cs rest : List Char} {l : Lexeme}
    (h : lexeme c cs = .ok (l, rest)) : rest.length ≤ cs.length := by
  have ofComment : ∀ {cls fault}, comment cls fault (c :: cs) = .ok (l, rest) →
      rest.length ≤ cs.length := by
    intro cls fault hc
    unfold comment at hc
    split at hc
    · rename_i text r ht
      simp only [Except.ok.injEq, Prod.mk.injEq] at hc
      rw [← hc.2]
      refine Nat.le_trans (length_throughCommentEnd ht) ?_
      simp only [List.length_drop, List.length_cons]
      omega
    · cases hc
  unfold lexeme at h
  split at h
  · simp only [Except.ok.injEq, Prod.mk.injEq] at h
    exact h.2 ▸ (List.dropWhile_sublist _).length_le
  split at h
  · simp only [Except.ok.injEq, Prod.mk.injEq] at h
    exact h.2 ▸ (List.dropWhile_sublist _).length_le
  split at h
  · exact ofComment h
  split at h
  · exact ofComment h
  split at h
  · split at h
    · rename_i text r ht
      simp only [Except.ok.injEq, Prod.mk.injEq] at h
      exact h.2 ▸ length_throughBlockEnd ht
    · cases h
  split at h
  · simp only [Except.ok.injEq, Prod.mk.injEq] at h
    exact h.2 ▸ Nat.le_refl _
  split at h
  · simp only [Except.ok.injEq, Prod.mk.injEq] at h
    exact h.2 ▸ (List.dropWhile_sublist _).length_le
  · cases h

/-- The lexemes of a text up to its end or to the first fault. -/
def lexemes (cs : List Char) : List Lexeme × Option LexicalFault :=
  match cs with
  | [] => ([], none)
  | c :: cs =>
      match h : lexeme c cs with
      | .error fault => ([], some fault)
      | .ok (l, rest) =>
          have := length_lexeme h
          let (ls, fault) := lexemes rest
          (l :: ls, fault)
termination_by cs.length

end Scan

/-- A place in a text. Lines and columns count from one, and only a line feed
starts a new line. -/
structure Position where
  line : Nat
  column : Nat
  deriving DecidableEq, Repr

namespace Position

/-- The place of the first character. -/
def start : Position := ⟨1, 1⟩

/-- The place behind a character. -/
def next (p : Position) (c : Char) : Position :=
  if c = '\n' then ⟨p.line + 1, 1⟩ else ⟨p.line, p.column + 1⟩

/-- The place behind a text. -/
def advance (p : Position) (cs : List Char) : Position :=
  cs.foldl next p

end Position

namespace Scan

/-- The tokens among lexemes that start at a place, and the place behind them. -/
def place (p : Position) : List Lexeme → List Token × Position
  | [] => ([], p)
  | l :: ls =>
      let (tokens, last) := place (p.advance l.text) ls
      match l.cls with
      | .token cls => (⟨cls, String.ofList l.text, p.line, p.column⟩ :: tokens, last)
      | _ => (tokens, last)

end Scan

/-- Read a text into tokens. A lexical fault is reported where the lexeme that
cannot be read starts. -/
def Source.read (filename : Option String) (text : String) : Except Diagnostic Source :=
  let (lexemes, fault) := Scan.lexemes text.toList
  let (tokens, last) := Scan.place .start lexemes
  match fault with
  | none => .ok { filename, text, tokens }
  | some fault =>
      .error {
        complaint := .malformed, message := fault.message, filename
        line := some last.line, column := some last.column
        sourceLine := Text.lineAt? text last.line }

end BinderIdl
