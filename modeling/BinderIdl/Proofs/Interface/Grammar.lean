import BinderIdl.Interface.Parse
import Mathlib.Computability.Language

/-! The grammar of definitions as languages over the letters of token classes, and its
derivations as trees whose leaves are tokens. A token list has a tree of a kind exactly
if its letters are a word of the language for that kind. -/
namespace BinderIdl

open scoped Computability

namespace Grammar

def letter (c : Char) : Language Char := {[c]}

def qname : Language Char := letter 'n' * (letter '.' * letter 'n')∗

def type : Language Char := qname * (1 + letter 'g') * (letter '[' * letter ']')∗

def argument : Language Char := (1 + letter 'd') * type * letter 'n'

def arguments : Language Char := argument * (letter ',' * argument)∗

def method : Language Char :=
  (1 + letter 'j') * (letter 'm')∗ * type * letter 'n' * letter '(' * (1 + arguments) *
    letter ')' * letter ';'

def entry : Language Char := letter 'o' * (1 + (letter 'i' + letter 'k')) * qname * letter ';'

def file : Language Char :=
  letter 'p' * qname * letter ';' * entry∗ * (1 + letter 'j') * (letter 'm')∗ * letter 'i' *
    letter 'n' * (1 + letter 'g') * letter '\x7b' * method∗ * letter '\x7d'

end Grammar

/-- A token whose class is one of a family, with the meaning that the class carries. -/
structure Leaf {α : Type} (cls : α → TokenClass) where
  meaning : α
  token : Token
  cls_eq : token.cls = cls meaning

/-- A token of one class. -/
abbrev Terminal (cls : TokenClass) := Leaf fun _ : Unit => cls

namespace Leaf

variable {α : Type} {cls : α → TokenClass}

def tokens (l : Leaf cls) : List Token := [l.token]

def text (l : Leaf cls) : String := l.token.value

end Leaf

/-- The tokens of a part that may be left out. -/
def optional {α : Type} (tokens : α → List Token) (part : Option α) : List Token :=
  part.elim [] tokens

structure NameTree where
  first : Terminal .name
  further : List (Terminal (.mark .dot) × Terminal .name)

structure TypeTree where
  name : NameTree
  block : Option (Terminal .typeBlock)
  brackets : List (Terminal (.mark .openBracket) × Terminal (.mark .closeBracket))

structure ArgumentTree where
  direction : Option (Leaf TokenClass.direction)
  type : TypeTree
  name : Terminal .name

structure ArgumentsTree where
  first : ArgumentTree
  further : List (Terminal (.mark .comma) × ArgumentTree)

structure MethodTree where
  javadoc : Option (Terminal .javadoc)
  modifiers : List (Leaf TokenClass.modifier)
  type : TypeTree
  name : Terminal .name
  openParen : Terminal (.mark .openParen)
  arguments : Option ArgumentsTree
  closeParen : Terminal (.mark .closeParen)
  semicolon : Terminal (.mark .semicolon)

structure EntryTree where
  word : Terminal .importWord
  kind : Option (Terminal .interfaceWord ⊕ Leaf TokenClass.importKind)
  name : NameTree
  semicolon : Terminal (.mark .semicolon)

/-- A derivation of a whole file. -/
structure DefinitionTree where
  word : Terminal .packageWord
  package : NameTree
  semicolon : Terminal (.mark .semicolon)
  entries : List EntryTree
  javadoc : Option (Terminal .javadoc)
  modifiers : List (Leaf TokenClass.modifier)
  interfaceWord : Terminal .interfaceWord
  name : Terminal .name
  block : Option (Terminal .typeBlock)
  openBrace : Terminal (.mark .openBrace)
  methods : List MethodTree
  closeBrace : Terminal (.mark .closeBrace)

/-- The tokens of two parts. -/
def pairTokens {α β : Type} (f : α → List Token) (g : β → List Token) (p : α × β) : List Token :=
  f p.1 ++ g p.2

def NameTree.tokens (t : NameTree) : List Token :=
  t.first.tokens ++ t.further.flatMap (pairTokens Leaf.tokens Leaf.tokens)

def TypeTree.tokens (t : TypeTree) : List Token :=
  t.name.tokens ++ optional Leaf.tokens t.block ++
    t.brackets.flatMap (pairTokens Leaf.tokens Leaf.tokens)

def ArgumentTree.tokens (t : ArgumentTree) : List Token :=
  optional Leaf.tokens t.direction ++ t.type.tokens ++ t.name.tokens

def ArgumentsTree.tokens (t : ArgumentsTree) : List Token :=
  t.first.tokens ++ t.further.flatMap (pairTokens Leaf.tokens ArgumentTree.tokens)

def MethodTree.tokens (t : MethodTree) : List Token :=
  optional Leaf.tokens t.javadoc ++ t.modifiers.flatMap Leaf.tokens ++ t.type.tokens ++
    t.name.tokens ++ t.openParen.tokens ++ optional ArgumentsTree.tokens t.arguments ++
    t.closeParen.tokens ++ t.semicolon.tokens

def EntryTree.tokens (t : EntryTree) : List Token :=
  t.word.tokens ++ optional (Sum.elim Leaf.tokens Leaf.tokens) t.kind ++ t.name.tokens ++
    t.semicolon.tokens

def DefinitionTree.tokens (t : DefinitionTree) : List Token :=
  t.word.tokens ++ t.package.tokens ++ t.semicolon.tokens ++ t.entries.flatMap EntryTree.tokens ++
    optional Leaf.tokens t.javadoc ++ t.modifiers.flatMap Leaf.tokens ++ t.interfaceWord.tokens ++
    t.name.tokens ++ optional Leaf.tokens t.block ++ t.openBrace.tokens ++
    t.methods.flatMap MethodTree.tokens ++ t.closeBrace.tokens

/-- The letters of the classes of tokens. -/
def letters (ts : List Token) : List Char := ts.map fun t => t.cls.letter

theorem letters_append (ts us : List Token) : letters (ts ++ us) = letters ts ++ letters us :=
  List.map_append

/-- The trees of a kind are the derivations of a language: a token list has one exactly
if its letters are a word. -/
def Derives {α : Type} (tokens : α → List Token) (L : Language Char) : Prop :=
  ∀ ts, letters ts ∈ L ↔ ∃ t, tokens t = ts

namespace Derives

variable {α β : Type} {f : α → List Token} {g : β → List Token} {L M : Language Char}

theorem leaf {cls : α → TokenClass} {c : Char}
    (h : ∀ k : TokenClass, k.letter = c ↔ ∃ a, k = cls a) :
    Derives (Leaf.tokens : Leaf cls → List Token) (Grammar.letter c) := by
  intro ts
  constructor
  · intro hWord
    obtain ⟨t, rfl, ht⟩ := List.map_eq_singleton_iff.mp (show letters ts = [c] from hWord)
    obtain ⟨a, ha⟩ := (h t.cls).mp ht
    exact ⟨⟨a, t, ha⟩, rfl⟩
  · rintro ⟨l, rfl⟩
    show [l.token.cls.letter] = [c]
    rw [(h l.token.cls).mpr ⟨l.meaning, l.cls_eq⟩]

theorem mul (hf : Derives f L) (hg : Derives g M) : Derives (pairTokens f g) (L * M) := by
  intro ts
  rw [Language.mem_mul]
  constructor
  · rintro ⟨u, hu, v, hv, hWord⟩
    obtain ⟨us, vs, rfl, rfl, rfl⟩ := List.map_eq_append_iff.mp hWord.symm
    obtain ⟨a, rfl⟩ := (hf us).mp hu
    obtain ⟨b, rfl⟩ := (hg vs).mp hv
    exact ⟨(a, b), rfl⟩
  · rintro ⟨⟨a, b⟩, rfl⟩
    exact ⟨letters (f a), (hf _).mpr ⟨a, rfl⟩, letters (g b), (hg _).mpr ⟨b, rfl⟩,
      (letters_append _ _).symm⟩

theorem option (hf : Derives f L) : Derives (optional f) (1 + L) := by
  intro ts
  rw [Language.mem_add, Language.mem_one, hf ts]
  constructor
  · rintro (hNil | ⟨a, rfl⟩)
    · exact ⟨none, (List.map_eq_nil_iff.mp hNil).symm⟩
    · exact ⟨some a, rfl⟩
  · rintro ⟨_ | a, rfl⟩
    · exact .inl rfl
    · exact .inr ⟨a, rfl⟩

theorem add (hf : Derives f L) (hg : Derives g M) : Derives (Sum.elim f g) (L + M) := by
  intro ts
  rw [Language.mem_add, hf ts, hg ts]
  simp

theorem star (hf : Derives f L) : Derives (fun l : List α => l.flatMap f) L∗ := by
  intro ts
  rw [Language.mem_kstar]
  constructor
  · rintro ⟨words, hWord, hWords⟩
    induction words generalizing ts with
    | nil => exact ⟨[], (List.map_eq_nil_iff.mp hWord).symm⟩
    | cons word words ih =>
        obtain ⟨us, vs, rfl, rfl, hRest⟩ := List.map_eq_append_iff.mp hWord
        obtain ⟨a, rfl⟩ := (hf us).mp (hWords _ List.mem_cons_self)
        obtain ⟨l, rfl⟩ := ih vs hRest fun w hw => hWords w (List.mem_cons_of_mem _ hw)
        exact ⟨a :: l, rfl⟩
  · rintro ⟨l, rfl⟩
    refine ⟨l.map fun a => letters (f a), ?_, ?_⟩
    · rw [letters, List.map_flatMap, List.flatMap_def]
      rfl
    · intro word hWord
      obtain ⟨a, -, rfl⟩ := List.mem_map.mp hWord
      exact (hf _).mpr ⟨a, rfl⟩

/-- Trees are derivations of what their parts derive. -/
theorem of_parts (hf : Derives f L) (parts : β → α) (hParts : Function.Surjective parts)
    (hTokens : ∀ t, g t = f (parts t)) : Derives g L := by
  intro ts
  rw [hf ts]
  constructor
  · rintro ⟨a, rfl⟩
    obtain ⟨t, rfl⟩ := hParts a
    exact ⟨t, hTokens t⟩
  · rintro ⟨t, rfl⟩
    exact ⟨parts t, (hTokens t).symm⟩

end Derives

/-- The class carries no meaning of its own, so its letter is only its. -/
def TokenClass.isPlain : TokenClass → Bool
  | .importKind _ | .modifier _ | .direction _ => false
  | _ => true

theorem TokenClass.eq_of_letter {k c : TokenClass} (h : k.letter = c.letter)
    (hPlain : c.isPlain = true) : k = c := by
  revert h hPlain
  rcases k with _ | _ | _ | _ | _ | _ | _ | _ | _ | (_ | _ | _ | _ | _ | _ | _ | _ | _) <;>
    rcases c with _ | _ | _ | _ | _ | _ | _ | _ | _ | (_ | _ | _ | _ | _ | _ | _ | _ | _) <;>
    simp [letter, isPlain, Mark.char]

/-- The letters that stand for several classes. -/
theorem TokenClass.letter_eq_iff (k : TokenClass) :
    (k.letter = 'm' ↔ ∃ m, k = .modifier m) ∧ (k.letter = 'd' ↔ ∃ d, k = .direction d) ∧
      (k.letter = 'k' ↔ ∃ i, k = .importKind i) := by
  rcases k with _ | _ | _ | _ | _ | _ | _ | _ | _ | (_ | _ | _ | _ | _ | _ | _ | _ | _) <;>
    simp [letter, Mark.char]

namespace Derives

theorem terminal (c : TokenClass) (hPlain : c.isPlain = true) :
    Derives (Leaf.tokens : Terminal c → List Token) (Grammar.letter c.letter) :=
  leaf fun _ => ⟨fun h => ⟨(), TokenClass.eq_of_letter h hPlain⟩, fun ⟨_, h⟩ => h ▸ rfl⟩

theorem mark (m : Mark) :
    Derives (Leaf.tokens : Terminal (.mark m) → List Token) (Grammar.letter m.char) :=
  terminal (.mark m) rfl

theorem name : Derives (Leaf.tokens : Terminal .name → List Token) (Grammar.letter 'n') :=
  terminal .name rfl

theorem typeBlock :
    Derives (optional Leaf.tokens : Option (Terminal .typeBlock) → List Token)
      (1 + Grammar.letter 'g') :=
  (terminal .typeBlock rfl).option

theorem javadoc :
    Derives (optional Leaf.tokens : Option (Terminal .javadoc) → List Token)
      (1 + Grammar.letter 'j') :=
  (terminal .javadoc rfl).option

theorem modifiers :
    Derives (fun l : List (Leaf TokenClass.modifier) => l.flatMap Leaf.tokens)
      (Grammar.letter 'm')∗ :=
  (leaf fun k => k.letter_eq_iff.1).star

theorem direction :
    Derives (optional Leaf.tokens : Option (Leaf TokenClass.direction) → List Token)
      (1 + Grammar.letter 'd') :=
  (leaf fun k => k.letter_eq_iff.2.1).option

theorem importKind :
    Derives (Leaf.tokens : Leaf TokenClass.importKind → List Token) (Grammar.letter 'k') :=
  leaf fun k => k.letter_eq_iff.2.2

theorem qname : Derives NameTree.tokens Grammar.qname :=
  (name.mul ((mark .dot).mul name).star).of_parts (fun t => (t.first, t.further))
    (fun (a, b) => ⟨⟨a, b⟩, rfl⟩) fun _ => rfl

theorem type : Derives TypeTree.tokens Grammar.type :=
  ((qname.mul typeBlock).mul ((mark .openBracket).mul (mark .closeBracket)).star).of_parts
    (fun t => ((t.name, t.block), t.brackets)) (fun ((a, b), c) => ⟨⟨a, b, c⟩, rfl⟩) fun _ => rfl

theorem argument : Derives ArgumentTree.tokens Grammar.argument :=
  ((direction.mul type).mul name).of_parts (fun t => ((t.direction, t.type), t.name))
    (fun ((a, b), c) => ⟨⟨a, b, c⟩, rfl⟩) fun _ => rfl

theorem arguments : Derives ArgumentsTree.tokens Grammar.arguments :=
  (argument.mul ((mark .comma).mul argument).star).of_parts (fun t => (t.first, t.further))
    (fun (a, b) => ⟨⟨a, b⟩, rfl⟩) fun _ => rfl

theorem method : Derives MethodTree.tokens Grammar.method :=
  (((((((javadoc.mul modifiers).mul type).mul name).mul (mark .openParen)).mul arguments.option).mul
    (mark .closeParen)).mul (mark .semicolon)).of_parts
    (fun t => (((((((t.javadoc, t.modifiers), t.type), t.name), t.openParen), t.arguments),
      t.closeParen), t.semicolon))
    (fun (((((((a, b), c), d), e), f), g), h) => ⟨⟨a, b, c, d, e, f, g, h⟩, rfl⟩) fun _ => rfl

theorem entry : Derives EntryTree.tokens Grammar.entry :=
  ((((terminal .importWord rfl).mul ((terminal .interfaceWord rfl).add importKind).option).mul
    qname).mul (mark .semicolon)).of_parts (fun t => (((t.word, t.kind), t.name), t.semicolon))
    (fun (((a, b), c), d) => ⟨⟨a, b, c, d⟩, rfl⟩) fun _ => rfl

/-- A token list has a derivation exactly if its letters are a word of the grammar. -/
theorem file : Derives DefinitionTree.tokens Grammar.file :=
  (((((((((((terminal .packageWord rfl).mul qname).mul (mark .semicolon)).mul entry.star).mul
    javadoc).mul modifiers).mul (terminal .interfaceWord rfl)).mul name).mul typeBlock).mul
    (mark .openBrace)).mul method.star).mul (mark .closeBrace) |>.of_parts
    (fun t => (((((((((((t.word, t.package), t.semicolon), t.entries), t.javadoc), t.modifiers),
      t.interfaceWord), t.name), t.block), t.openBrace), t.methods), t.closeBrace))
    (fun (((((((((((a, b), c), d), e), f), g), h), i), j), k), l) =>
      ⟨⟨a, b, c, d, e, f, g, h, i, j, k, l⟩, rfl⟩) fun _ => rfl

end Derives

end BinderIdl
