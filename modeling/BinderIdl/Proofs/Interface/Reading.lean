import BinderIdl.Proofs.Interface.Checked
import BinderIdl.Proofs.Interface.Grammar

/-! What a derivation says, and that each reader reads exactly that from its tokens. A
reader may look at the token behind what it reads, so its equation names the classes that
may follow. -/
namespace BinderIdl

def NameTree.text (t : NameTree) : String :=
  Text.join "." (t.first.text :: t.further.map fun p => p.2.text)

def TypeTree.text (t : TypeTree) : String :=
  t.name.text ++ (t.block.map Leaf.text).getD "" ++
    String.join (List.replicate t.brackets.length "[]")

/-- The argument of a tree whose first token has an index. -/
def ArgumentTree.argument (t : ArgumentTree) (start : Nat) : Argument where
  direction := (t.direction.map Leaf.meaning).getD .into
  type := t.type.text
  name := t.name.text
  position := some ((start + (optional Leaf.tokens t.direction).length : Nat) : Int)

def argumentsFrom (start : Nat) : List (Terminal (.mark .comma) × ArgumentTree) → List Argument
  | [] => []
  | (_, t) :: rest => t.argument (start + 1) :: argumentsFrom (start + 1 + t.tokens.length) rest

def ArgumentsTree.arguments (t : ArgumentsTree) (start : Nat) : List Argument :=
  t.first.argument start :: argumentsFrom (start + t.first.tokens.length) t.further

/-- Modifiers and behind them the new ones among others, each once. -/
def Modifier.join (inherited own : List Modifier) : List Modifier :=
  inherited ++ (own.filter fun m => !inherited.contains m).eraseDups

namespace MethodTree

/-- The index of the first token of the type. -/
def typeStart (t : MethodTree) (start : Nat) : Nat :=
  start + (optional Leaf.tokens t.javadoc).length + (t.modifiers.flatMap Leaf.tokens).length

def method (t : MethodTree) (inherited : List Modifier) (start : Nat) : Method where
  name := t.name.text
  returnType := t.type.text
  arguments := (t.arguments.map fun as =>
    as.arguments (t.typeStart start + t.type.tokens.length + 1 + 1)).getD []
  modifiers := Modifier.join inherited (t.modifiers.map Leaf.meaning)
  javadoc := t.javadoc.map Leaf.text
  position := t.typeStart start + t.type.tokens.length
  result :=
    if t.type.text = "void" then none
    else some ⟨.result, t.type.text, Argument.resultName, some (t.typeStart start : Int)⟩

end MethodTree

def methodsFrom (inherited : List Modifier) (start : Nat) : List MethodTree → List Method
  | [] => []
  | t :: rest => t.method inherited start :: methodsFrom inherited (start + t.tokens.length) rest

def EntryTree.entry (t : EntryTree) (package : String) : Import where
  kind := (t.kind.map (Sum.elim (fun _ => .interface) Leaf.meaning)).getD .plain
  name := if t.name.text.toList.contains '.' then t.name.text else qualify package t.name.text

namespace DefinitionTree

/-- The index of the first token behind the imports. -/
def importsEnd (t : DefinitionTree) : Nat :=
  1 + t.package.tokens.length + 1 + (t.entries.flatMap EntryTree.tokens).length

/-- The index of the word that says that an interface follows. -/
def wordStart (t : DefinitionTree) : Nat :=
  t.importsEnd + (optional Leaf.tokens t.javadoc).length +
    (t.modifiers.flatMap Leaf.tokens).length

/-- The index of the first token behind the opening brace. -/
def bodyStart (t : DefinitionTree) : Nat :=
  t.wordStart + 1 + 1 + (optional Leaf.tokens t.block).length + 1

def interfaceModifiers (t : DefinitionTree) : List Modifier :=
  Modifier.join [] (t.modifiers.map Leaf.meaning)

/-- The interface of a derivation. A block that cannot be read
declares no parameters. -/
def interface (t : DefinitionTree) : Interface where
  package := t.package.text
  imports := t.entries.map fun e => e.entry t.package.text
  javadoc := t.javadoc.map Leaf.text
  modifiers := t.interfaceModifiers
  name := t.name.text
  typeBlock := t.block.map Leaf.text
  typeParameters := ((Interface.Parse.typeParameters (t.block.map Leaf.text)).toOption).getD []
  methods := methodsFrom t.interfaceModifiers t.bodyStart t.methods

end DefinitionTree

/-- The rules for a method that the grammar does not state. -/
structure Method.Lawful (m : Method) : Prop where
  nodup : (m.arguments.map Argument.name).Nodup
  oneway : Modifier.oneway ∈ m.modifiers →
    m.returnType = "void" ∧ ∀ a ∈ m.arguments, a.direction = .into

/-- The rules for a definition that the grammar does not state. -/
structure DefinitionTree.Lawful (t : DefinitionTree) : Prop where
  block : ∀ b ∈ t.block, ∃ parameters, TypeParameter.readBlock b.text = .ok parameters
  methods : ∀ m ∈ t.interface.methods, m.Lawful

/-- The class of the first token. -/
def opening? (ts : List Token) : Option TokenClass := ts.head?.map Token.cls

section Opening

variable {α : Type} {cls : α → TokenClass} (rest : List Token)

@[simp] theorem opening?_cons (t : Token) : opening? (t :: rest) = some t.cls := rfl

@[simp] theorem opening?_leaf (l : Leaf cls) :
    opening? (l.tokens ++ rest) = some (cls l.meaning) :=
  congrArg some l.cls_eq

@[simp] theorem Leaf.length_tokens (l : Leaf cls) : l.tokens.length = 1 := rfl

theorem NameTree.opening?_tokens (t : NameTree) : opening? (t.tokens ++ rest) = some .name := by
  rw [tokens, List.append_assoc, opening?_leaf]

theorem TypeTree.opening?_tokens (t : TypeTree) : opening? (t.tokens ++ rest) = some .name := by
  rw [tokens, List.append_assoc, List.append_assoc, NameTree.opening?_tokens]

theorem opening?_modifiers (words : List (Leaf TokenClass.modifier)) {cls : TokenClass}
    (hClass : ∀ m, cls ≠ .modifier m) (hRest : opening? rest ≠ some cls) :
    opening? (words.flatMap Leaf.tokens ++ rest) ≠ some cls := by
  cases words with
  | nil => exact hRest
  | cons word words =>
      intro h
      have hFirst : some word.token.cls = some cls := h
      rw [word.cls_eq, Option.some_inj] at hFirst
      exact hClass word.meaning hFirst.symm

theorem ArgumentTree.opening?_tokens (t : ArgumentTree) :
    opening? (t.tokens ++ rest) = some .name ∨
      ∃ d, opening? (t.tokens ++ rest) = some (.direction d) := by
  rw [tokens, List.append_assoc, List.append_assoc]
  cases t.direction with
  | none => exact .inl (t.type.opening?_tokens _)
  | some word => exact .inr ⟨word.meaning, opening?_leaf _ word⟩

theorem MethodTree.opening?_tokens (t : MethodTree) :
    opening? (t.tokens ++ rest) = some .javadoc ∨ opening? (t.tokens ++ rest) = some .name ∨
      ∃ m, opening? (t.tokens ++ rest) = some (.modifier m) := by
  simp only [tokens, List.append_assoc]
  cases t.javadoc with
  | some doc => exact .inl (opening?_leaf _ doc)
  | none =>
      cases t.modifiers with
      | nil => exact .inr (.inl (t.type.opening?_tokens _))
      | cons word words => exact .inr (.inr ⟨word.meaning, congrArg some word.cls_eq⟩)

end Opening

namespace Interface.Parse

variable (p : Nat) (rest : List Token)

theorem expect_terminal (wanted : Wanted) {cls : TokenClass} (t : Terminal cls)
    (hWanted : cls = wanted.cls) :
    (⟨p, t.tokens ++ rest⟩ : Cursor).expect wanted = .ok (t.text, ⟨p + 1, rest⟩) :=
  if_pos (t.cls_eq.trans hWanted)

theorem accept_terminal {cls : TokenClass} (t : Terminal cls) :
    (⟨p, t.tokens ++ rest⟩ : Cursor).accept cls = (some t.text, ⟨p + 1, rest⟩) :=
  if_pos t.cls_eq

theorem accept_optional {cls : TokenClass} (part : Option (Terminal cls))
    (hRest : opening? rest ≠ some cls) :
    (⟨p, optional Leaf.tokens part ++ rest⟩ : Cursor).accept cls =
      (part.map Leaf.text, ⟨p + (optional Leaf.tokens part).length, rest⟩) := by
  cases part with
  | some t => exact accept_terminal p rest t
  | none =>
      cases rest with
      | nil => rfl
      | cons u rest => exact if_neg fun h => hRest (congrArg some h)

theorem furtherNames_tree (further : List (Terminal (.mark .dot) × Terminal .name))
    (hRest : opening? rest ≠ some (.mark .dot)) :
    furtherNames p (further.flatMap (pairTokens Leaf.tokens Leaf.tokens) ++ rest) =
      (further.map fun q => q.2.text,
        ⟨p + (further.flatMap (pairTokens Leaf.tokens Leaf.tokens)).length, rest⟩) := by
  induction further generalizing p with
  | nil =>
      rcases rest with _ | ⟨t, _ | ⟨u, rest⟩⟩
      · rfl
      · rfl
      · exact if_neg fun h => hRest (congrArg some h.1)
  | cons q further ih =>
      obtain ⟨dot, name⟩ := q
      have hStep : furtherNames p (dot.token :: name.token ::
          (further.flatMap (pairTokens Leaf.tokens Leaf.tokens) ++ rest)) = _ :=
        if_pos ⟨dot.cls_eq, name.cls_eq⟩
      rw [ih (p + 2)] at hStep
      refine hStep.trans ?_
      simp [Leaf.text, pairTokens]
      omega

theorem qualifiedName_tree (t : NameTree) (hRest : opening? rest ≠ some (.mark .dot)) :
    qualifiedName ⟨p, t.tokens ++ rest⟩ = .ok (t.text, ⟨p + t.tokens.length, rest⟩) := by
  have hFirst := expect_terminal p
    (t.further.flatMap (pairTokens Leaf.tokens Leaf.tokens) ++ rest) .identifier t.first rfl
  have hFurther := furtherNames_tree (p + 1) rest t.further hRest
  rw [qualifiedName, NameTree.tokens, List.append_assoc, hFirst]
  simp only [bind, Except.bind, hFurther, pure, Except.pure, NameTree.text, List.length_append,
    Leaf.length_tokens, Nat.add_assoc]

theorem bracketPairs_tree
    (pairs : List (Terminal (.mark .openBracket) × Terminal (.mark .closeBracket)))
    (hRest : opening? rest ≠ some (.mark .openBracket)) :
    bracketPairs p (pairs.flatMap (pairTokens Leaf.tokens Leaf.tokens) ++ rest) =
      .ok (pairs.length,
        ⟨p + (pairs.flatMap (pairTokens Leaf.tokens Leaf.tokens)).length, rest⟩) := by
  induction pairs generalizing p with
  | nil =>
      rcases rest with _ | ⟨t, _ | ⟨u, rest⟩⟩
      · rfl
      · exact if_neg fun h => hRest (congrArg some h)
      · exact if_neg fun h => hRest (congrArg some h)
  | cons q pairs ih =>
      obtain ⟨left, right⟩ := q
      change bracketPairs p (left.token :: right.token ::
        (pairs.flatMap (pairTokens Leaf.tokens Leaf.tokens) ++ rest)) = _
      rw [bracketPairs, if_pos left.cls_eq, if_pos right.cls_eq, ih (p + 2)]
      simp [bind, Except.bind, pure, Except.pure, pairTokens]
      omega

theorem type_tree (t : TypeTree) (hRest : opening? rest = some .name) :
    type ⟨p, t.tokens ++ rest⟩ = .ok (t.text, ⟨p + t.tokens.length, rest⟩) := by
  -- Each part ends where the next one begins: with a block, a bracket or a name.
  have hBrackets : opening? (t.brackets.flatMap (pairTokens Leaf.tokens Leaf.tokens) ++ rest) =
      some (.mark .openBracket) ∨
      opening? (t.brackets.flatMap (pairTokens Leaf.tokens Leaf.tokens) ++ rest) = some .name := by
    cases t.brackets with
    | nil => exact .inr hRest
    | cons q pairs => exact .inl (congrArg some q.1.cls_eq)
  have hBlock : opening? (optional Leaf.tokens t.block ++
      (t.brackets.flatMap (pairTokens Leaf.tokens Leaf.tokens) ++ rest)) ≠
      some (.mark .dot) := by
    cases t.block with
    | none => rcases hBrackets with h | h <;> simp [optional, h]
    | some b => simp [optional]
  have hName := qualifiedName_tree p _ t.name hBlock
  have hBefore : opening? (t.brackets.flatMap (pairTokens Leaf.tokens Leaf.tokens) ++ rest) ≠
      some .typeBlock := by
    rcases hBrackets with h | h <;> simp [h]
  have hAccept := accept_optional (p + t.name.tokens.length) _ t.block hBefore
  have hPairs := bracketPairs_tree
    (p + t.name.tokens.length + (optional Leaf.tokens t.block).length) rest t.brackets
    (by simp [hRest])
  rw [type, TypeTree.tokens, List.append_assoc, List.append_assoc, hName]
  simp only [bind, Except.bind, hAccept, hPairs, pure, Except.pure, TypeTree.text]
  simp only [List.length_append, Nat.add_assoc]

theorem join_cons (known : List Modifier) (m : Modifier) (own : List Modifier) :
    Modifier.join known (m :: own) =
      Modifier.join (if known.contains m then known else known ++ [m]) own := by
  by_cases h : m ∈ known
  · simp [Modifier.join, h]
  · have hFilter : (own.filter fun k => !known.contains k).filter (fun k => !k == m) =
        own.filter fun k => !(known ++ [m]).contains k := by
      rw [List.filter_filter]
      congr 1
      funext k
      simp [Bool.and_comm, beq_eq_decide]
    have hContains : known.contains m = false := by simpa using h
    simp only [Modifier.join, hContains, List.filter_cons, Bool.not_false, if_true,
      List.eraseDups_cons, hFilter, Bool.false_eq_true, if_false, List.append_assoc,
      List.singleton_append]

theorem modifiers_of_opening (known : List Modifier)
    (hRest : ∀ m, opening? rest ≠ some (.modifier m)) :
    modifiers known p rest = (known, ⟨p, rest⟩) := by
  fun_cases modifiers known p rest with
  | case1 => rfl
  | case2 t rest m hClass => exact absurd (congrArg some hClass) (hRest m)
  | case3 => rfl

theorem modifiers_tree (known : List Modifier) (words : List (Leaf TokenClass.modifier))
    (hRest : ∀ m, opening? rest ≠ some (.modifier m)) :
    modifiers known p (words.flatMap Leaf.tokens ++ rest) =
      (Modifier.join known (words.map Leaf.meaning),
        ⟨p + (words.flatMap Leaf.tokens).length, rest⟩) := by
  induction words generalizing known p with
  | nil =>
      have hNone : Modifier.join known [] = known := by simp [Modifier.join]
      rw [List.map_nil, hNone]
      exact modifiers_of_opening p rest known hRest
  | cons word words ih =>
      change modifiers known p (word.token :: (words.flatMap Leaf.tokens ++ rest)) = _
      rw [modifiers, word.cls_eq]
      simp only [ih, List.map_cons, join_cons, List.flatMap_cons, List.length_append,
        Leaf.length_tokens, Nat.add_assoc]

theorem direction_of_opening (hRest : ∀ d, opening? rest ≠ some (.direction d)) :
    direction ⟨p, rest⟩ = (.into, ⟨p, rest⟩) := by
  fun_cases direction ⟨p, rest⟩ with
  | case1 t ts hCursor d hClass =>
      cases hCursor
      exact absurd (congrArg some hClass) (hRest d)
  | case2 => rfl
  | case3 => rfl

theorem direction_tree (word : Option (Leaf TokenClass.direction))
    (hRest : opening? rest = some .name) :
    direction ⟨p, optional Leaf.tokens word ++ rest⟩ =
      ((word.map Leaf.meaning).getD .into, ⟨p + (optional Leaf.tokens word).length, rest⟩) := by
  cases word with
  | some w =>
      change direction ⟨p, w.token :: rest⟩ = _
      simp only [direction, w.cls_eq]
      rfl
  | none => exact direction_of_opening p rest (by simp [hRest])

theorem importKind_of_opening (hWord : opening? rest ≠ some .interfaceWord)
    (hKind : ∀ k, opening? rest ≠ some (.importKind k)) :
    importKind ⟨p, rest⟩ = (.plain, ⟨p, rest⟩) := by
  fun_cases importKind ⟨p, rest⟩ with
  | case1 t ts hCursor hClass =>
      cases hCursor
      exact absurd (congrArg some hClass) hWord
  | case2 t ts hCursor k hClass =>
      cases hCursor
      exact absurd (congrArg some hClass) (hKind k)
  | case3 => rfl
  | case4 => rfl

theorem importKind_tree (word : Option (Terminal .interfaceWord ⊕ Leaf TokenClass.importKind))
    (hRest : opening? rest = some .name) :
    importKind ⟨p, optional (Sum.elim Leaf.tokens Leaf.tokens) word ++ rest⟩ =
      ((word.map (Sum.elim (fun _ => .interface) Leaf.meaning)).getD .plain,
        ⟨p + (optional (Sum.elim Leaf.tokens Leaf.tokens) word).length, rest⟩) := by
  rcases word with _ | w | w
  · exact importKind_of_opening p rest (by simp [hRest]) (by simp [hRest])
  · change importKind ⟨p, w.token :: rest⟩ = _
    simp only [importKind, w.cls_eq]
    rfl
  · change importKind ⟨p, w.token :: rest⟩ = _
    simp only [importKind, w.cls_eq]
    rfl

theorem argument_tree (t : ArgumentTree) :
    argument ⟨p, t.tokens ++ rest⟩ = .ok (t.argument p, ⟨p + t.tokens.length, rest⟩) := by
  have hDirection := direction_tree p _ t.direction (t.type.opening?_tokens (t.name.tokens ++ rest))
  have hType := type_tree (p + (optional Leaf.tokens t.direction).length) _ t.type
    (opening?_leaf rest t.name)
  have hName := expect_terminal
    (p + (optional Leaf.tokens t.direction).length + t.type.tokens.length) rest .argumentName
    t.name rfl
  rw [argument, ArgumentTree.tokens, List.append_assoc, List.append_assoc, hDirection]
  simp only [bind, Except.bind, hType, hName, pure, Except.pure, ArgumentTree.argument]
  simp only [List.length_append, Leaf.length_tokens, Nat.add_assoc]

/-- The arguments behind the first one, without the proof that they are read to an end. -/
theorem furtherArguments_eq (c : Cursor) : furtherArguments c =
    match c.accept (.mark .comma) with
    | (none, c) => .ok ([], c)
    | (some _, d) => do
        let (a, e) ← argument d
        let (as, f) ← furtherArguments e
        return (a :: as, f) := by
  fun_cases furtherArguments c with
  | case1 d hComma => simp [hComma]
  | case2 value d hComma fault hArgument => simp [hComma, hArgument, bind, Except.bind]
  | case3 value d hComma a e hArgument shorter fault hRest =>
      simp [hComma, hArgument, hRest, bind, Except.bind]
  | case4 value d hComma a e hArgument shorter as f hRest =>
      simp [hComma, hArgument, hRest, bind, Except.bind, pure, Except.pure]

theorem imports_eq (package : String) (c : Cursor) : imports package c =
    if c.peek? = some .importWord then do
      let (i, d) ← importEntry package c
      let (is, e) ← imports package d
      return (i :: is, e)
    else .ok ([], c) := by
  fun_cases imports package c with
  | case1 hWord fault hEntry => simp [hWord, hEntry, bind, Except.bind]
  | case2 hWord i d hEntry shorter fault hRest => simp [hWord, hEntry, hRest, bind, Except.bind]
  | case3 hWord i d hEntry shorter is e hRest =>
      simp [hWord, hEntry, hRest, bind, Except.bind, pure, Except.pure]
  | case4 hWord => simp [hWord]

theorem methods_eq (inherited : List Modifier) (c : Cursor) : methods inherited c =
    if c.peek? = some (.mark .closeBrace) ∨ c.peek? = none then .ok ([], c)
    else do
      let (m, d) ← method inherited c
      let (ms, e) ← methods inherited d
      return (m :: ms, e) := by
  fun_cases methods inherited c with
  | case1 hEnd => rw [if_pos hEnd]
  | case2 hEnd fault hMethod => simp [hEnd, hMethod, bind, Except.bind]
  | case3 hEnd m d hMethod shorter fault hRest => simp [hEnd, hMethod, hRest, bind, Except.bind]
  | case4 hEnd m d hMethod shorter ms e hRest =>
      simp [hEnd, hMethod, hRest, bind, Except.bind, pure, Except.pure]

theorem furtherArguments_tree (further : List (Terminal (.mark .comma) × ArgumentTree))
    (hRest : opening? rest ≠ some (.mark .comma)) :
    furtherArguments ⟨p, further.flatMap (pairTokens Leaf.tokens ArgumentTree.tokens) ++ rest⟩ =
      .ok (argumentsFrom p further,
        ⟨p + (further.flatMap (pairTokens Leaf.tokens ArgumentTree.tokens)).length, rest⟩) := by
  induction further generalizing p with
  | nil =>
      have hNone : (⟨p, rest⟩ : Cursor).accept (.mark .comma) = (none, ⟨p, rest⟩) :=
        accept_optional p rest none hRest
      change furtherArguments ⟨p, rest⟩ = _
      rw [furtherArguments_eq, hNone]
      rfl
  | cons q further ih =>
      obtain ⟨comma, t⟩ := q
      have hComma := accept_terminal p (t.tokens ++
        (further.flatMap (pairTokens Leaf.tokens ArgumentTree.tokens) ++ rest)) comma
      have hArgument := argument_tree (p + 1)
        (further.flatMap (pairTokens Leaf.tokens ArgumentTree.tokens) ++ rest) t
      rw [furtherArguments_eq, List.flatMap_cons, pairTokens, List.append_assoc, List.append_assoc,
        hComma]
      simp only [bind, Except.bind, hArgument, ih, pure, Except.pure, argumentsFrom]
      simp only [List.length_append, Leaf.length_tokens, Nat.add_assoc]

theorem arguments_tree (part : Option ArgumentsTree)
    (hRest : opening? rest = some (.mark .closeParen)) :
    arguments ⟨p, optional ArgumentsTree.tokens part ++ rest⟩ =
      .ok ((part.map fun t => t.arguments p).getD [],
        ⟨p + (optional ArgumentsTree.tokens part).length, rest⟩) := by
  cases part with
  | none => exact if_pos hRest
  | some t =>
      have hOpening : opening? (t.tokens ++ rest) ≠ some (.mark .closeParen) := by
        rw [ArgumentsTree.tokens, List.append_assoc]
        rcases t.first.opening?_tokens
          (t.further.flatMap (pairTokens Leaf.tokens ArgumentTree.tokens) ++ rest) with h | ⟨d, h⟩
          <;> simp [h]
      have hFirst := argument_tree p
        (t.further.flatMap (pairTokens Leaf.tokens ArgumentTree.tokens) ++ rest) t.first
      have hFurther := furtherArguments_tree (p + t.first.tokens.length) rest t.further
        (by simp [hRest])
      refine (if_neg hOpening).trans ?_
      simp only [optional, Option.elim_some, ArgumentsTree.tokens, List.append_assoc, hFirst, bind,
        Except.bind, hFurther, pure, Except.pure]
      simp only [Option.map_some, Option.getD_some, ArgumentsTree.arguments, List.length_append,
        Nat.add_assoc]

theorem duplicate?_eq_none_iff (seen : List String) (as : List Argument) :
    duplicate? seen as = none ↔
      (as.map Argument.name).Nodup ∧ ∀ a ∈ as, a.name ∉ seen := by
  induction as generalizing seen with
  | nil => simp [duplicate?]
  | cons a as ih =>
      by_cases h : a.name ∈ seen
      · simp [duplicate?, h]
      · simp only [duplicate?, List.contains_iff_mem, h, if_false, ih, List.map_cons,
          List.nodup_cons, List.mem_map, List.mem_cons, not_or, forall_eq_or_imp, not_false_eq_true,
          true_and, not_exists, not_and]
        constructor
        · rintro ⟨hNodup, hSeen⟩
          exact ⟨⟨fun b hb => (hSeen b hb).1, hNodup⟩, fun b hb => (hSeen b hb).2⟩
        · rintro ⟨⟨hNew, hNodup⟩, hSeen⟩
          exact ⟨hNodup, fun b hb => ⟨hNew b hb, hSeen b hb⟩⟩

/-- The check accepts exactly the lawful methods. -/
theorem check_eq_ok_iff (m : Method) : check m = .ok () ↔ m.Lawful := by
  have hLawful : m.Lawful ↔ duplicate? [] m.arguments = none ∧ (m.isOneway = true →
      m.isVoid = true ∧ m.arguments.find? (fun a => a.direction != .into) = none) := by
    rw [duplicate?_eq_none_iff]
    constructor
    · intro h
      refine ⟨⟨h.nodup, by simp⟩, fun hOneway => ?_⟩
      obtain ⟨hVoid, hInto⟩ := h.oneway (by simpa [Method.isOneway] using hOneway)
      exact ⟨by simpa [Method.isVoid] using hVoid, by simpa using hInto⟩
    · rintro ⟨⟨hNodup, -⟩, hRest⟩
      refine ⟨hNodup, fun hOneway => ?_⟩
      obtain ⟨hVoid, hInto⟩ := hRest (by simpa [Method.isOneway] using hOneway)
      exact ⟨by simpa [Method.isVoid] using hVoid, by simpa using hInto⟩
  rw [hLawful, check]
  cases duplicate? [] m.arguments with
  | some a => simp [bind, Except.bind, throw, throwThe, MonadExceptOf.throw]
  | none =>
      cases m.isOneway with
      | false => simp [pure, Except.pure]
      | true =>
          cases m.isVoid with
          | false => simp [bind, Except.bind, throw, throwThe, MonadExceptOf.throw]
          | true =>
              cases m.arguments.find? fun a => a.direction != .into with
              | some a => simp [throw, throwThe, MonadExceptOf.throw]
              | none => simp [pure, Except.pure]

theorem method_tree (inherited : List Modifier) (t : MethodTree) :
    method inherited ⟨p, t.tokens ++ rest⟩ = (do
      check (t.method inherited p)
      return (t.method inherited p, ⟨p + t.tokens.length, rest⟩)) := by
  have hEnd : t.typeStart p + t.type.tokens.length + 1 + 1 +
      (optional ArgumentsTree.tokens t.arguments).length + 1 + 1 = p + t.tokens.length := by
    simp [MethodTree.typeStart, MethodTree.tokens]
    omega
  have hType := fun tail => type_tree (t.typeStart p) (t.name.tokens ++ tail) t.type
    (opening?_leaf tail t.name)
  have hOpening := fun tail => t.type.opening?_tokens (t.name.tokens ++ tail)
  have hJavadoc := fun tail => accept_optional p _ t.javadoc
    (opening?_modifiers (t.type.tokens ++ (t.name.tokens ++ tail)) t.modifiers (by simp)
      (by simp [hOpening]))
  have hModifiers := fun tail => modifiers_tree (p + (optional Leaf.tokens t.javadoc).length)
    (t.type.tokens ++ (t.name.tokens ++ tail)) inherited t.modifiers (by simp [hOpening])
  have hName := fun tail => expect_terminal (t.typeStart p + t.type.tokens.length) tail
    .methodName t.name rfl
  have hOpen := fun tail => expect_terminal (t.typeStart p + t.type.tokens.length + 1) tail
    (.mark .openParen) t.openParen rfl
  have hArguments := fun tail => arguments_tree (t.typeStart p + t.type.tokens.length + 1 + 1)
    (t.closeParen.tokens ++ tail) t.arguments (opening?_leaf tail t.closeParen)
  have hClose := fun tail => expect_terminal (t.typeStart p + t.type.tokens.length + 1 + 1 +
    (optional ArgumentsTree.tokens t.arguments).length) tail (.mark .closeParen) t.closeParen rfl
  have hSemicolon := fun tail => expect_terminal (t.typeStart p + t.type.tokens.length + 1 + 1 +
    (optional ArgumentsTree.tokens t.arguments).length + 1) tail (.mark .semicolon) t.semicolon rfl
  rw [← hEnd]
  simp only [method, MethodTree.tokens, List.append_assoc, hJavadoc, hModifiers]
  simp only [← MethodTree.typeStart.eq_1, hType, hName, hOpen, hArguments, hClose, hSemicolon,
    bind, Except.bind]
  rfl

theorem methods_of_close (inherited : List Modifier)
    (hRest : opening? rest = some (.mark .closeBrace)) :
    methods inherited ⟨p, rest⟩ = .ok ([], ⟨p, rest⟩) := by
  rw [methods_eq]
  exact if_pos (.inl hRest)

/-- Behind the tokens of a method it is checked, and then the next ones are read. -/
theorem methods_cons_tree (inherited : List Modifier) (t : MethodTree) :
    methods inherited ⟨p, t.tokens ++ rest⟩ = (do
      check (t.method inherited p)
      let (ms, c) ← methods inherited ⟨p + t.tokens.length, rest⟩
      return (t.method inherited p :: ms, c)) := by
  have hMore : ¬(opening? (t.tokens ++ rest) = some (.mark .closeBrace) ∨
      opening? (t.tokens ++ rest) = none) := by
    rcases t.opening?_tokens rest with h | h | ⟨m, h⟩ <;> simp [h]
  have hStep : methods inherited ⟨p, t.tokens ++ rest⟩ = _ :=
    (methods_eq inherited _).trans (if_neg hMore)
  rw [hStep, method_tree]
  simp only [bind_assoc, pure_bind]

/-- Methods are read exactly if all of them are lawful. -/
theorem methods_tree (inherited : List Modifier) (ts : List MethodTree)
    (hRest : opening? rest = some (.mark .closeBrace)) (r : List Method × Cursor) :
    methods inherited ⟨p, ts.flatMap MethodTree.tokens ++ rest⟩ = .ok r ↔
      (∀ m ∈ methodsFrom inherited p ts, m.Lawful) ∧
        r = (methodsFrom inherited p ts, ⟨p + (ts.flatMap MethodTree.tokens).length, rest⟩) := by
  induction ts generalizing p r with
  | nil =>
      change methods inherited ⟨p, rest⟩ = .ok r ↔ _
      rw [methods_of_close p rest inherited hRest]
      simp [methodsFrom, eq_comm]
  | cons t ts ih =>
      rw [List.flatMap_cons, List.append_assoc, methods_cons_tree, methodsFrom,
        List.forall_mem_cons, ← check_eq_ok_iff, bind_eq_ok]
      have hNext := ih (p + t.tokens.length)
      constructor
      · rintro ⟨⟨⟩, hCheck, h⟩
        obtain ⟨q, hMethods, h⟩ := bind_eq_ok.mp h
        obtain ⟨hLawful, rfl⟩ := (hNext q).mp hMethods
        cases h
        exact ⟨⟨hCheck, hLawful⟩, by rw [List.length_append, Nat.add_assoc]⟩
      · rintro ⟨⟨hCheck, hLawful⟩, rfl⟩
        refine ⟨(), hCheck, bind_eq_ok.mpr ⟨_, (hNext _).mpr ⟨hLawful, rfl⟩, ?_⟩⟩
        rw [List.length_append, ← Nat.add_assoc]
        rfl

theorem importEntry_tree (package : String) (t : EntryTree) :
    importEntry package ⟨p, t.tokens ++ rest⟩ =
      .ok (t.entry package, ⟨p + t.tokens.length, rest⟩) := by
  have hWord := fun tail => expect_terminal p tail .importWord t.word rfl
  have hKind := fun tail => importKind_tree (p + 1) (t.name.tokens ++ tail) t.kind
    (t.name.opening?_tokens tail)
  have hName := fun tail => qualifiedName_tree
    (p + 1 + (optional (Sum.elim Leaf.tokens Leaf.tokens) t.kind).length)
    (t.semicolon.tokens ++ tail) t.name (by simp)
  have hSemicolon := expect_terminal
    (p + 1 + (optional (Sum.elim Leaf.tokens Leaf.tokens) t.kind).length + t.name.tokens.length)
    rest (.mark .semicolon) t.semicolon rfl
  simp only [importEntry, EntryTree.tokens, List.append_assoc, hWord, hKind, hName, hSemicolon,
    bind, Except.bind, pure, Except.pure, EntryTree.entry]
  simp only [List.length_append, Leaf.length_tokens, Nat.add_assoc]

theorem imports_tree (package : String) (ts : List EntryTree)
    (hRest : opening? rest ≠ some .importWord) :
    imports package ⟨p, ts.flatMap EntryTree.tokens ++ rest⟩ =
      .ok (ts.map fun t => t.entry package,
        ⟨p + (ts.flatMap EntryTree.tokens).length, rest⟩) := by
  induction ts generalizing p with
  | nil =>
      change imports package ⟨p, rest⟩ = _
      rw [imports_eq]
      exact if_neg hRest
  | cons t ts ih =>
      have hWord : opening? (t.tokens ++ (ts.flatMap EntryTree.tokens ++ rest)) =
          some .importWord := by
        simp only [EntryTree.tokens, List.append_assoc, opening?_leaf]
      have hStep : imports package ⟨p, t.tokens ++ (ts.flatMap EntryTree.tokens ++ rest)⟩ = _ :=
        (imports_eq package _).trans (if_pos hWord)
      rw [List.flatMap_cons, List.append_assoc, hStep, importEntry_tree]
      simp only [bind, Except.bind, ih, pure, Except.pure, List.map_cons, List.length_append,
        Nat.add_assoc]

/-- Up to its methods, only the type parameters of a file can fail. -/
theorem file_tree (t : DefinitionTree) : file ⟨0, t.tokens⟩ = (do
      let parameters ← typeParameters (t.block.map Leaf.text)
      let (methods, c) ← methods t.interfaceModifiers
        ⟨t.bodyStart, t.methods.flatMap MethodTree.tokens ++ t.closeBrace.tokens⟩
      let (_, c) ← c.expect (.mark .closeBrace)
      if !c.rest.isEmpty then throw (.trailing c.position)
      return { t.interface with typeParameters := parameters, methods }) := by
  have hPackageWord : ∀ tail, (⟨0, t.word.tokens ++ tail⟩ : Cursor).expect .package =
      .ok (t.word.text, ⟨1, tail⟩) :=
    fun tail => expect_terminal 0 tail .package t.word rfl
  have hPackage := fun tail => qualifiedName_tree 1 (t.semicolon.tokens ++ tail) t.package
    (by simp)
  have hSemicolon := fun tail => expect_terminal (1 + t.package.tokens.length) tail
    (.mark .semicolon) t.semicolon rfl
  have hTitle : ∀ tail, opening? (optional Leaf.tokens t.javadoc ++
      (t.modifiers.flatMap Leaf.tokens ++ (t.interfaceWord.tokens ++ tail))) ≠
      some .importWord := by
    intro tail
    cases t.javadoc with
    | some doc => simp [optional]
    | none => exact opening?_modifiers _ t.modifiers (by simp) (by simp)
  have hImports := fun tail => imports_tree (1 + t.package.tokens.length + 1) _ t.package.text
    t.entries (hTitle tail)
  have hJavadoc := fun tail => accept_optional t.importsEnd _ t.javadoc
    (opening?_modifiers (t.interfaceWord.tokens ++ tail) t.modifiers (by simp) (by simp))
  have hModifiers := fun tail => modifiers_tree
    (t.importsEnd + (optional Leaf.tokens t.javadoc).length) (t.interfaceWord.tokens ++ tail) []
    t.modifiers (by simp)
  have hInterface := fun tail => expect_terminal t.wordStart tail .interface t.interfaceWord rfl
  have hName := fun tail => expect_terminal (t.wordStart + 1) tail .interfaceName t.name rfl
  have hBlock := fun tail => accept_optional (t.wordStart + 1 + 1) (t.openBrace.tokens ++ tail)
    t.block (by simp)
  have hOpen := fun tail => expect_terminal
    (t.wordStart + 1 + 1 + (optional Leaf.tokens t.block).length) tail (.mark .openBrace)
    t.openBrace rfl
  simp only [file, DefinitionTree.tokens, List.append_assoc, hPackageWord, hPackage, hSemicolon,
    hImports, bind, Except.bind]
  simp only [← DefinitionTree.importsEnd.eq_1, hJavadoc, hModifiers]
  simp only [← DefinitionTree.wordStart.eq_1, hInterface, hName, hBlock, hOpen]
  rfl

theorem typeParameters_eq_ok_iff (block : Option (Terminal .typeBlock)) :
    (∃ parameters, typeParameters (block.map Leaf.text) = .ok parameters) ↔
      ∀ b ∈ block, ∃ parameters, TypeParameter.readBlock b.text = .ok parameters := by
  cases block with
  | none => simp [typeParameters]
  | some b =>
      simp only [Option.map_some, typeParameters, Option.mem_some_iff, forall_eq']
      cases TypeParameter.readBlock b.text <;> simp

/-- A derivation is read as its interface exactly if it is lawful. -/
theorem file_eq_ok_iff (t : DefinitionTree) (i : Interface) :
    file ⟨0, t.tokens⟩ = .ok i ↔ t.Lawful ∧ i = t.interface := by
  have hLawful : t.Lawful ↔
      (∃ parameters, typeParameters (t.block.map Leaf.text) = .ok parameters) ∧
        ∀ m ∈ methodsFrom t.interfaceModifiers t.bodyStart t.methods, m.Lawful := by
    rw [typeParameters_eq_ok_iff]
    exact ⟨fun h => ⟨h.block, h.methods⟩, fun h => ⟨h.1, h.2⟩⟩
  have hMethods := methods_tree t.bodyStart t.closeBrace.tokens t.interfaceModifiers t.methods
    (congrArg some t.closeBrace.cls_eq)
  have hClose := expect_terminal (t.bodyStart + (t.methods.flatMap MethodTree.tokens).length) []
    (.mark .closeBrace) t.closeBrace rfl
  rw [List.append_nil] at hClose
  rw [file_tree, hLawful]
  cases hParameters : typeParameters (t.block.map Leaf.text) with
  | error fault => simp [bind, Except.bind]
  | ok parameters =>
      have hInterface : { t.interface with
          typeParameters := parameters
          methods := methodsFrom t.interfaceModifiers t.bodyStart t.methods } = t.interface := by
        simp [DefinitionTree.interface, hParameters, Except.toOption]
      cases hBody : methods t.interfaceModifiers
          ⟨t.bodyStart, t.methods.flatMap MethodTree.tokens ++ t.closeBrace.tokens⟩ with
      | error fault =>
          have hUnlawful : ¬∀ m ∈ methodsFrom t.interfaceModifiers t.bodyStart t.methods,
              m.Lawful := by
            intro h
            have := (hMethods _).mpr ⟨h, rfl⟩
            rw [hBody] at this
            cases this
          simp [bind, Except.bind, hUnlawful]
      | ok r =>
          obtain ⟨hAll, rfl⟩ := (hMethods r).mp hBody
          simp only [bind, Except.bind, hClose, List.isEmpty_nil, Bool.not_true,
            Bool.false_eq_true, if_false, pure, Except.pure, hInterface, Except.ok.injEq]
          exact ⟨fun h => ⟨⟨⟨parameters, rfl⟩, hAll⟩, h.symm⟩, fun h => h.2.symm⟩

end Interface.Parse

end BinderIdl
