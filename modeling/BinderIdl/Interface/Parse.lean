import BinderIdl.Interface
import BinderIdl.Token.Scan

/-! Reading an interface from tokens. The grammar is

    file     := 'package' qname ';' entry* javadoc? modifier* 'interface' NAME block? body
    entry    := 'import' kind? qname ';'
    body     := open-brace method* close-brace
    method   := javadoc? modifier* type NAME '(' (argument (',' argument)*)? ')' ';'
    argument := direction? type NAME
    type     := qname block? ('[' ']')*
    qname    := NAME ('.' NAME)*

and every reader below takes a cursor to the cursor behind what it read. -/
namespace BinderIdl

/-- What a reader was looking for. -/
inductive Wanted where
  | mark (mark : Mark)
  | package
  | importWord
  | interface
  | identifier
  | interfaceName
  | methodName
  | argumentName
  deriving DecidableEq, Repr

/-- The words for what was looked for. -/
def Wanted.text : Wanted → String
  | .mark m => "'" ++ String.ofList [m.char] ++ "'"
  | .package => "'package'"
  | .importWord => "'import'"
  | .interface => "'interface'"
  | .identifier => "identifier"
  | .interfaceName => "interface name"
  | .methodName => "method name"
  | .argumentName => "argument name"

/-- The class of token that satisfies a reader. -/
def Wanted.cls : Wanted → TokenClass
  | .mark m => .mark m
  | .package => .packageWord
  | .importWord => .importWord
  | .interface => .interfaceWord
  | .identifier | .interfaceName | .methodName | .argumentName => .name

/-- Why tokens are not an interface. Positions are token indexes. -/
inductive SyntaxFault where
  /-- Another token, or no token, stands where one was wanted. -/
  | expected (wanted : Wanted) (position : Nat) (found : Option String)
  /-- A token follows the interface. -/
  | trailing (position : Nat)
  | parameters (fault : ParameterFault)
  | duplicateArgument (argument method : String) (position : Option Int)
  | onewayResult (method : String) (position : Nat)
  | onewayArgument (method : String) (direction : Direction) (position : Option Int)
  deriving DecidableEq, Repr

namespace SyntaxFault

/-- The words for a fault. -/
def message : SyntaxFault → String
  | .expected wanted _ (some value) => "Expected " ++ wanted.text ++ ", found '" ++ value ++ "'"
  | .expected wanted _ none => "Expected " ++ wanted.text ++ ", found end of file"
  | .trailing _ => "Unexpected token after interface body"
  | .parameters fault => fault.message
  | .duplicateArgument argument method _ =>
      "Duplicate argument '" ++ argument ++ "' in method '" ++ method ++ "'"
  | .onewayResult method _ => "Oneway method '" ++ method ++ "' cannot return a value"
  | .onewayArgument method direction _ =>
      "Oneway method '" ++ method ++ "' cannot have '" ++ direction.word ++ "' arguments"

/-- The token that a fault points at. A faulty parameter block has no place. -/
def position : SyntaxFault → Option Int
  | .expected _ p _ => some p
  | .trailing p => some p
  | .parameters _ => none
  | .duplicateArgument _ _ p => p
  | .onewayResult _ p => some p
  | .onewayArgument _ _ p => p

end SyntaxFault

/-- A place in a token list: the index of the next token, and the tokens from
there on. -/
structure Cursor where
  position : Nat
  rest : List Token
  deriving Repr

namespace Cursor

/-- The class of the next token. -/
def peek? (c : Cursor) : Option TokenClass :=
  c.rest.head?.map Token.cls

/-- Take a wanted token and give its text. -/
def expect (c : Cursor) (wanted : Wanted) : Except SyntaxFault (String × Cursor) :=
  match c.rest with
  | [] => .error (.expected wanted c.position none)
  | t :: rest =>
      if t.cls = wanted.cls then .ok (t.value, ⟨c.position + 1, rest⟩)
      else .error (.expected wanted c.position (some t.value))

/-- Take a token of a class if it comes next, and give its text. -/
def accept (c : Cursor) (cls : TokenClass) : Option String × Cursor :=
  match c.rest with
  | t :: rest => if t.cls = cls then (some t.value, ⟨c.position + 1, rest⟩) else (none, c)
  | [] => (none, c)

theorem expect_shorter {c d : Cursor} {wanted : Wanted} {value : String}
    (h : c.expect wanted = .ok (value, d)) : d.rest.length < c.rest.length := by
  unfold expect at h
  split at h
  · cases h
  · rename_i t rest hc
    split at h
    · simp only [Except.ok.injEq, Prod.mk.injEq] at h
      simp [← h.2, hc]
    · cases h

theorem accept_shorter (c : Cursor) (cls : TokenClass) :
    (c.accept cls).2.rest.length ≤ c.rest.length := by
  unfold accept
  split
  · rename_i t rest hc
    split
    · simp [hc]
    · exact Nat.le_refl _
  · exact Nat.le_refl _

end Cursor

namespace Interface.Parse

/-- The dotted names behind the first name of a qualified name. A dot that no
name follows is left alone. -/
def furtherNames (position : Nat) : List Token → List String × Cursor
  | dot :: name :: rest =>
      if dot.cls = .mark .dot ∧ name.cls = .name then
        let (names, c) := furtherNames (position + 2) rest
        (name.value :: names, c)
      else ([], ⟨position, dot :: name :: rest⟩)
  | rest => ([], ⟨position, rest⟩)

/-- A qualified name. -/
def qualifiedName (c : Cursor) : Except SyntaxFault (String × Cursor) := do
  let (first, c) ← c.expect .identifier
  let (names, c) := furtherNames c.position c.rest
  return (Text.join "." (first :: names), c)

/-- The number of bracket pairs that come next. -/
def bracketPairs (position : Nat) : List Token → Except SyntaxFault (Nat × Cursor)
  | [] => .ok (0, ⟨position, []⟩)
  | [t] =>
      if t.cls = .mark .openBracket then
        .error (.expected (.mark .closeBracket) (position + 1) none)
      else .ok (0, ⟨position, [t]⟩)
  | t :: u :: rest =>
      if t.cls = .mark .openBracket then
        if u.cls = .mark .closeBracket then do
          let (n, c) ← bracketPairs (position + 2) rest
          return (n + 1, c)
        else .error (.expected (.mark .closeBracket) (position + 1) (some u.value))
      else .ok (0, ⟨position, t :: u :: rest⟩)

/-- A type, as written but for the blanks between its tokens. -/
def type (c : Cursor) : Except SyntaxFault (String × Cursor) := do
  let (name, c) ← qualifiedName c
  let (block, c) := c.accept .typeBlock
  let (pairs, c) ← bracketPairs c.position c.rest
  return (name ++ block.getD "" ++ String.join (List.replicate pairs "[]"), c)

/-- The modifiers that come next, each once, behind those already known. -/
def modifiers (known : List Modifier) (position : Nat) : List Token → List Modifier × Cursor
  | [] => (known, ⟨position, []⟩)
  | t :: rest =>
      match t.cls with
      | .modifier m =>
          modifiers (if known.contains m then known else known ++ [m]) (position + 1) rest
      | _ => (known, ⟨position, t :: rest⟩)

/-- The direction that comes next, if one does. -/
def direction (c : Cursor) : Direction × Cursor :=
  match c.rest with
  | t :: rest =>
      match t.cls with
      | .direction d => (d, ⟨c.position + 1, rest⟩)
      | _ => (.into, c)
  | [] => (.into, c)

/-- An argument. -/
def argument (c : Cursor) : Except SyntaxFault (Argument × Cursor) := do
  let (direction, c) := direction c
  let (type, d) ← type c
  let (name, d) ← d.expect .argumentName
  return (⟨direction, type, name, some c.position⟩, d)

/-- The kind of import that comes next, if one is written. -/
def importKind (c : Cursor) : ImportKind × Cursor :=
  match c.rest with
  | t :: rest =>
      match t.cls with
      | .interfaceWord => (.interface, ⟨c.position + 1, rest⟩)
      | .importKind k => (k, ⟨c.position + 1, rest⟩)
      | _ => (.plain, c)
  | [] => (.plain, c)

/-- An import. A name without a dot is a name of the package. -/
def importEntry (package : String) (c : Cursor) : Except SyntaxFault (Import × Cursor) := do
  let (_, c) ← c.expect .importWord
  let (kind, c) := importKind c
  let (name, c) ← qualifiedName c
  let (_, c) ← c.expect (.mark .semicolon)
  return (⟨kind, if name.toList.contains '.' then name else qualify package name⟩, c)

theorem furtherNames_shorter (position : Nat) (rest : List Token) :
    (furtherNames position rest).2.rest.length ≤ rest.length := by
  induction position, rest using furtherNames.induct with
  | case1 position dot name rest h ih =>
      simp only [furtherNames, if_pos h, List.length_cons]
      omega
  | case2 position dot name rest h => simp [furtherNames, if_neg h]
  | case3 position rest h =>
      unfold furtherNames
      split
      · exact (h _ _ _ rfl).elim
      · exact Nat.le_refl _

theorem qualifiedName_shorter {c d : Cursor} {s : String} (h : qualifiedName c = .ok (s, d)) :
    d.rest.length < c.rest.length := by
  unfold qualifiedName at h
  cases he : c.expect .identifier with
  | error e => simp [he, bind, Except.bind] at h
  | ok r =>
      obtain ⟨first, e⟩ := r
      simp only [he, bind, Except.bind, pure, Except.pure, Except.ok.injEq, Prod.mk.injEq] at h
      rw [← h.2]
      exact Nat.lt_of_le_of_lt (furtherNames_shorter _ _) (Cursor.expect_shorter he)

theorem bracketPairs_shorter {position n : Nat} {rest : List Token} {d : Cursor}
    (h : bracketPairs position rest = .ok (n, d)) : d.rest.length ≤ rest.length := by
  induction position, rest using bracketPairs.induct generalizing n d with
  | case1 position =>
      simp only [bracketPairs, Except.ok.injEq, Prod.mk.injEq] at h
      simp [← h.2]
  | case2 position t ht => simp [bracketPairs, ht] at h
  | case3 position t ht =>
      simp only [bracketPairs, if_neg ht, Except.ok.injEq, Prod.mk.injEq] at h
      simp [← h.2]
  | case4 position t u rest ht hu ih =>
      simp only [bracketPairs, if_pos ht, if_pos hu] at h
      cases hr : bracketPairs (position + 2) rest with
      | error e => simp [hr, bind, Except.bind] at h
      | ok r =>
          obtain ⟨m, e⟩ := r
          simp only [hr, bind, Except.bind, pure, Except.pure, Except.ok.injEq, Prod.mk.injEq] at h
          have := ih hr
          rw [← h.2]
          simp only [List.length_cons]
          omega
  | case5 position t u rest ht hu => simp [bracketPairs, ht, hu] at h
  | case6 position t u rest ht =>
      simp only [bracketPairs, if_neg ht, Except.ok.injEq, Prod.mk.injEq] at h
      simp [← h.2]

theorem type_shorter {c d : Cursor} {s : String} (h : type c = .ok (s, d)) :
    d.rest.length < c.rest.length := by
  unfold type at h
  cases hq : qualifiedName c with
  | error e => simp [hq, bind, Except.bind] at h
  | ok r =>
      obtain ⟨name, e⟩ := r
      simp only [hq, bind, Except.bind] at h
      split at h
      · cases h
      · rename_i pairs hp
        obtain ⟨n, f⟩ := pairs
        simp only [pure, Except.pure, Except.ok.injEq, Prod.mk.injEq] at h
        rw [← h.2]
        exact Nat.lt_of_le_of_lt (bracketPairs_shorter hp)
          (Nat.lt_of_le_of_lt (Cursor.accept_shorter _ _) (qualifiedName_shorter hq))

theorem direction_shorter (c : Cursor) : (direction c).2.rest.length ≤ c.rest.length := by
  unfold direction
  split
  · rename_i t rest hc
    split <;> simp [hc]
  · exact Nat.le_refl _

theorem argument_shorter {c d : Cursor} {a : Argument} (h : argument c = .ok (a, d)) :
    d.rest.length < c.rest.length := by
  unfold argument at h
  cases ht : type (direction c).2 with
  | error e => simp [ht, bind, Except.bind] at h
  | ok r =>
      obtain ⟨s, e⟩ := r
      simp only [ht, bind, Except.bind] at h
      split at h
      · cases h
      · rename_i name hn
        obtain ⟨n, f⟩ := name
        simp only [pure, Except.pure, Except.ok.injEq, Prod.mk.injEq] at h
        rw [← h.2]
        exact Nat.lt_trans (Cursor.expect_shorter hn)
          (Nat.lt_of_lt_of_le (type_shorter ht) (direction_shorter c))

theorem importEntry_shorter {package : String} {c d : Cursor} {i : Import}
    (h : importEntry package c = .ok (i, d)) : d.rest.length < c.rest.length := by
  unfold importEntry at h
  cases hi : c.expect .importWord with
  | error e => simp [hi, bind, Except.bind] at h
  | ok r =>
      obtain ⟨word, e⟩ := r
      simp only [hi, bind, Except.bind] at h
      split at h
      · cases h
      · rename_i name hq
        obtain ⟨n, f⟩ := name
        split at h
        · cases h
        · rename_i semicolon hs
          obtain ⟨s, g⟩ := semicolon
          simp only [pure, Except.pure, Except.ok.injEq, Prod.mk.injEq] at h
          rw [← h.2]
          have kind : (importKind e).2.rest.length ≤ e.rest.length := by
            unfold importKind
            split
            · rename_i t rest hc
              split <;> simp [hc]
            · exact Nat.le_refl _
          exact Nat.lt_trans (Cursor.expect_shorter hs)
            (Nat.lt_trans (qualifiedName_shorter hq)
              (Nat.lt_of_le_of_lt kind (Cursor.expect_shorter hi)))

/-- The arguments behind the first one. -/
def furtherArguments (c : Cursor) : Except SyntaxFault (List Argument × Cursor) :=
  match h : c.accept (.mark .comma) with
  | (none, c) => .ok ([], c)
  | (some _, d) =>
      match ha : argument d with
      | .error fault => .error fault
      | .ok (a, e) =>
          have : e.rest.length < c.rest.length :=
            Nat.lt_of_lt_of_le (argument_shorter ha)
              (by simpa [h] using Cursor.accept_shorter c (.mark .comma))
          match furtherArguments e with
          | .error fault => .error fault
          | .ok (as, f) => .ok (a :: as, f)
termination_by c.rest.length

/-- The arguments of a method, up to the closing parenthesis. -/
def arguments (c : Cursor) : Except SyntaxFault (List Argument × Cursor) :=
  if c.peek? = some (.mark .closeParen) then .ok ([], c)
  else do
    let (a, c) ← argument c
    let (as, c) ← furtherArguments c
    return (a :: as, c)

/-- The first argument that has the name of an earlier one. -/
def duplicate? : List String → List Argument → Option Argument
  | _, [] => none
  | seen, a :: as => if seen.contains a.name then some a else duplicate? (a.name :: seen) as

/-- The rules that the grammar does not state: the arguments of a method have
different names, and a oneway method gives nothing back. -/
def check (m : Method) : Except SyntaxFault Unit := do
  if let some a := duplicate? [] m.arguments then
    throw (.duplicateArgument a.name m.name a.position)
  if m.isOneway then
    if !m.isVoid then throw (.onewayResult m.name m.position)
    if let some a := m.arguments.find? fun a => a.direction != .into then
      throw (.onewayArgument m.name a.direction a.position)

/-- A method of an interface with the given modifiers. -/
def method (inherited : List Modifier) (c : Cursor) : Except SyntaxFault (Method × Cursor) := do
  let (javadoc, c) := c.accept .javadoc
  let (modifiers, c) := modifiers inherited c.position c.rest
  let (returnType, d) ← type c
  let (name, e) ← d.expect .methodName
  let (_, f) ← e.expect (.mark .openParen)
  let (arguments, f) ← arguments f
  let (_, f) ← f.expect (.mark .closeParen)
  let (_, f) ← f.expect (.mark .semicolon)
  let m : Method := {
    name, returnType, arguments, modifiers, javadoc
    position := d.position
    result :=
      if returnType = "void" then none
      else some ⟨.result, returnType, Argument.resultName, some c.position⟩ }
  check m
  return (m, f)

theorem furtherArguments_shorter {c d : Cursor} {as : List Argument}
    (h : furtherArguments c = .ok (as, d)) : d.rest.length ≤ c.rest.length := by
  fun_induction furtherArguments c generalizing as d with
  | case1 c e ha =>
      simp only [Except.ok.injEq, Prod.mk.injEq] at h
      have := Cursor.accept_shorter c (.mark .comma)
      rw [ha] at this
      exact h.2 ▸ this
  | case2 => cases h
  | case3 => cases h
  | case4 c value e ha a f hf shorter as g hg ih =>
      simp only [Except.ok.injEq, Prod.mk.injEq] at h
      rw [← h.2]
      exact Nat.le_trans (ih hg) (Nat.le_of_lt shorter)

theorem arguments_shorter {c d : Cursor} {as : List Argument} (h : arguments c = .ok (as, d)) :
    d.rest.length ≤ c.rest.length := by
  unfold arguments at h
  split at h
  · simp only [Except.ok.injEq, Prod.mk.injEq] at h
    exact h.2 ▸ Nat.le_refl _
  · cases ha : argument c with
    | error e => simp [ha, bind, Except.bind] at h
    | ok r =>
        obtain ⟨a, e⟩ := r
        simp only [ha, bind, Except.bind] at h
        split at h
        · cases h
        · rename_i r hr
          obtain ⟨as', f⟩ := r
          simp only [pure, Except.pure, Except.ok.injEq, Prod.mk.injEq] at h
          rw [← h.2]
          exact Nat.le_trans (furtherArguments_shorter hr) (Nat.le_of_lt (argument_shorter ha))

theorem modifiers_shorter (known : List Modifier) (position : Nat) (rest : List Token) :
    (modifiers known position rest).2.rest.length ≤ rest.length := by
  induction rest generalizing known position with
  | nil => simp [modifiers]
  | cons t rest ih =>
      unfold modifiers
      split
      · exact Nat.le_succ_of_le (ih _ _)
      · exact Nat.le_refl _

/-- A method takes at least one token. -/
theorem method_shorter {inherited : List Modifier} {c d : Cursor} {m : Method}
    (h : method inherited c = .ok (m, d)) : d.rest.length < c.rest.length := by
  unfold method at h
  simp only [bind, Except.bind] at h
  split at h
  · cases h
  rename_i r1 ht
  split at h
  · cases h
  rename_i r2 hn
  split at h
  · cases h
  rename_i r3 ho
  split at h
  · cases h
  rename_i r4 ha
  split at h
  · cases h
  rename_i r5 hc
  split at h
  · cases h
  rename_i r6 hs
  split at h
  · cases h
  simp only [pure, Except.pure, Except.ok.injEq, Prod.mk.injEq] at h
  rw [← h.2]
  have h0 := Cursor.accept_shorter c .javadoc
  have h1 := modifiers_shorter inherited (c.accept .javadoc).2.position (c.accept .javadoc).2.rest
  have h2 := type_shorter ht
  have h3 := Cursor.expect_shorter hn
  have h4 := Cursor.expect_shorter ho
  have h5 := arguments_shorter ha
  have h6 := Cursor.expect_shorter hc
  have h7 := Cursor.expect_shorter hs
  omega

/-- The imports that come next. -/
def imports (package : String) (c : Cursor) : Except SyntaxFault (List Import × Cursor) :=
  if c.peek? = some .importWord then
    match h : importEntry package c with
    | .error fault => .error fault
    | .ok (i, d) =>
        have := importEntry_shorter h
        match imports package d with
        | .error fault => .error fault
        | .ok (is, e) => .ok (i :: is, e)
  else .ok ([], c)
termination_by c.rest.length

/-- The methods up to the closing brace or the end of the tokens. -/
def methods (inherited : List Modifier) (c : Cursor) : Except SyntaxFault (List Method × Cursor) :=
  if c.peek? = some (.mark .closeBrace) ∨ c.peek? = none then .ok ([], c)
  else
    match h : method inherited c with
    | .error fault => .error fault
    | .ok (m, d) =>
        have := method_shorter h
        match methods inherited d with
        | .error fault => .error fault
        | .ok (ms, e) => .ok (m :: ms, e)
termination_by c.rest.length

/-- The type parameters that a block declares, none without a block. -/
def typeParameters : Option String → Except SyntaxFault (List TypeParameter)
  | none => .ok []
  | some block =>
      match TypeParameter.readBlock block with
      | .ok parameters => .ok parameters
      | .error fault => .error (.parameters fault)

/-- A whole file. -/
def file (c : Cursor) : Except SyntaxFault Interface := do
  let (_, c) ← c.expect .package
  let (package, c) ← qualifiedName c
  let (_, c) ← c.expect (.mark .semicolon)
  let (imports, c) ← imports package c
  let (javadoc, c) := c.accept .javadoc
  let (modifiers, c) := modifiers [] c.position c.rest
  let (_, c) ← c.expect .interface
  let (name, c) ← c.expect .interfaceName
  let (typeBlock, c) := c.accept .typeBlock
  let typeParameters ← typeParameters typeBlock
  let (_, c) ← c.expect (.mark .openBrace)
  let (methods, c) ← methods modifiers c
  let (_, c) ← c.expect (.mark .closeBrace)
  if !c.rest.isEmpty then throw (.trailing c.position)
  return { package, imports, javadoc, modifiers, name, typeBlock, typeParameters, methods }

end Interface.Parse

/-- The interface of a token list. No tokens are no interface, and no error. -/
def Interface.ofTokens : List Token → Except SyntaxFault (Option Interface)
  | [] => .ok none
  | tokens => some <$> Interface.Parse.file ⟨0, tokens⟩

/-- The diagnostic for a fault in a source. -/
def SyntaxFault.diagnostic (s : Source) (fault : SyntaxFault) : Diagnostic :=
  (Diagnostic.at? .malformed fault.message (some s) fault.position).getD
    { complaint := .malformed, message := fault.message, filename := s.filename }

/-- The interface of a source. -/
def Interface.ofSource (s : Source) : Except Diagnostic (Option Interface) :=
  match Interface.ofTokens s.tokens with
  | .ok interface => .ok interface
  | .error fault => .error (fault.diagnostic s)

end BinderIdl
