import BinderIdl.Proofs.Interface.Reading

/-! Positions are token indexes. A part of a derivation stands at an index if the tokens
from there on begin with its own, and the parts behind it stand where its tokens end. -/
namespace BinderIdl

/-- From an index on, the tokens begin with some. -/
def StandsAt (tokens : List Token) (p : Nat) (part : List Token) : Prop :=
  part <+: tokens.drop p

namespace StandsAt

variable {tokens part more : List Token} {p : Nat}

theorem left (h : StandsAt tokens p (part ++ more)) : StandsAt tokens p part :=
  (List.prefix_append part more).trans h

theorem right (h : StandsAt tokens p (part ++ more)) :
    StandsAt tokens (p + part.length) more := by
  obtain ⟨rest, hRest⟩ := h
  refine ⟨rest, ?_⟩
  rw [← List.drop_drop, ← hRest, List.append_assoc, List.drop_left]

theorem getElem? {t : Token} (h : StandsAt tokens p (t :: part)) : tokens[p]? = some t := by
  obtain ⟨rest, hRest⟩ := h
  rw [← List.head?_drop, ← hRest]
  rfl

end StandsAt

/-- The position of an argument is that of its type. -/
def Argument.Placed (tokens : List Token) (a : Argument) : Prop :=
  ∃ (p : Nat) (type : TypeTree), a.position = some (p : Int) ∧ a.type = type.text ∧
    StandsAt tokens p type.tokens

/-- The position of a method is that of its name. -/
structure Method.Placed (tokens : List Token) (m : Method) : Prop where
  name : ∃ name : Terminal .name, m.name = name.text ∧ StandsAt tokens m.position name.tokens
  arguments : ∀ a ∈ m.arguments, a.Placed tokens
  result : ∀ r ∈ m.result, r.Placed tokens

/-- An argument is declared at its position: its type stands there, in front of a name. -/
def Argument.Declared (tokens : List Token) (name : String) (a : Argument) : Prop :=
  ∃ (p : Nat) (type : TypeTree) (word : Terminal .name), a.position = some (p : Int) ∧
    a.type = type.text ∧ name = word.text ∧ StandsAt tokens p (type.tokens ++ word.tokens)

/-- The arguments of a method are declared in front of their names, and its result in front of
the name of the method. -/
structure Method.Declared (tokens : List Token) (m : Method) : Prop where
  name : ∃ name : Terminal .name, m.name = name.text ∧ StandsAt tokens m.position name.tokens
  arguments : ∀ a ∈ m.arguments, a.Declared tokens a.name
  result : ∀ r ∈ m.result, r.Declared tokens m.name

variable {tokens : List Token} {p : Nat}

theorem Argument.Declared.placed {name : String} {a : Argument} (h : a.Declared tokens name) :
    a.Placed tokens := by
  obtain ⟨p, type, word, hPosition, hType, _, hStands⟩ := h
  exact ⟨p, type, hPosition, hType, hStands.left⟩

theorem Method.Declared.placed {m : Method} (h : m.Declared tokens) : m.Placed tokens :=
  ⟨h.name, fun a ha => (h.arguments a ha).placed, fun r hr => (h.result r hr).placed⟩

theorem ArgumentTree.declared (t : ArgumentTree) (h : StandsAt tokens p t.tokens) :
    (t.argument p).Declared tokens (t.argument p).name := by
  rw [ArgumentTree.tokens, List.append_assoc] at h
  exact ⟨_, t.type, t.name, rfl, rfl, rfl, h.right⟩

theorem declared_argumentsFrom (further : List (Terminal (.mark .comma) × ArgumentTree))
    (h : StandsAt tokens p (further.flatMap (pairTokens Leaf.tokens ArgumentTree.tokens))) :
    ∀ a ∈ argumentsFrom p further, a.Declared tokens a.name := by
  induction further generalizing p with
  | nil => simp [argumentsFrom]
  | cons q further ih =>
      rw [List.flatMap_cons, pairTokens, List.append_assoc] at h
      rw [argumentsFrom, List.forall_mem_cons]
      exact ⟨q.2.declared h.right.left, ih h.right.right⟩

theorem ArgumentsTree.declared (t : ArgumentsTree) (h : StandsAt tokens p t.tokens) :
    ∀ a ∈ t.arguments p, a.Declared tokens a.name := by
  rw [arguments, List.forall_mem_cons]
  exact ⟨t.first.declared h.left, declared_argumentsFrom t.further h.right⟩

theorem MethodTree.declared (t : MethodTree) (inherited : List Modifier)
    (h : StandsAt tokens p t.tokens) : (t.method inherited p).Declared tokens := by
  simp only [MethodTree.tokens, List.append_assoc] at h
  have hType : StandsAt tokens (t.typeStart p) _ := h.right.right
  have hName := hType.right
  refine ⟨⟨t.name, rfl, hName.left⟩, ?_, ?_⟩
  · have hArguments := hName.right.right.left
    cases hPart : t.arguments with
    | none => simp [method, hPart]
    | some part =>
        rw [hPart] at hArguments
        simpa [method, hPart] using part.declared hArguments
  · intro r hr
    rw [method] at hr
    split at hr
    · cases hr
    · cases hr
      rw [← List.append_assoc] at hType
      exact ⟨_, t.type, t.name, rfl, rfl, rfl, hType.left⟩

theorem declared_methodsFrom (inherited : List Modifier) (ts : List MethodTree)
    (h : StandsAt tokens p (ts.flatMap MethodTree.tokens)) :
    ∀ m ∈ methodsFrom inherited p ts, m.Declared tokens := by
  induction ts generalizing p with
  | nil => simp [methodsFrom]
  | cons t ts ih =>
      rw [methodsFrom, List.forall_mem_cons]
      exact ⟨t.declared inherited h.left, ih h.right⟩

theorem DefinitionTree.declared (t : DefinitionTree) (h : StandsAt tokens 0 t.tokens) :
    ∀ m ∈ t.interface.methods, m.Declared tokens := by
  simp only [DefinitionTree.tokens, List.append_assoc] at h
  have hJavadoc : StandsAt tokens t.importsEnd _ := h.right.right.right.right
  have hWord : StandsAt tokens t.wordStart _ := hJavadoc.right.right
  have hBody : StandsAt tokens t.bodyStart _ := hWord.right.right.right.right
  exact declared_methodsFrom t.interfaceModifiers t.methods hBody.left

theorem DefinitionTree.placed (t : DefinitionTree) (h : StandsAt tokens 0 t.tokens) :
    ∀ m ∈ t.interface.methods, m.Placed tokens := fun m hm => (t.declared h m hm).placed

end BinderIdl
