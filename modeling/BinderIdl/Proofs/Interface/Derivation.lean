import BinderIdl.Proofs.Interface.Positions
import BinderIdl.Proofs.Interface.Recognition

/-! Tokens are an interface exactly if they have a lawful derivation, and it is the interface of
the derivation. -/
namespace BinderIdl

theorem Interface.ofTokens_eq_ok_some_iff (tokens : List Token) (i : Interface) :
    ofTokens tokens = .ok (some i) ↔ Parse.file ⟨0, tokens⟩ = .ok i := by
  cases tokens with
  | nil =>
      constructor
      · intro h
        cases h
      · intro h
        obtain ⟨⟨_, c⟩, hWord, -⟩ := Parse.bind_eq_ok.mp h
        cases hWord
  | cons t ts =>
      change some <$> Parse.file ⟨0, t :: ts⟩ = .ok (some i) ↔ _
      cases Parse.file ⟨0, t :: ts⟩ <;> simp [Functor.map, Except.map]

theorem Interface.ofTokens_eq_ok_none_iff (tokens : List Token) :
    ofTokens tokens = .ok none ↔ tokens = [] := by
  cases tokens with
  | nil => simp [ofTokens]
  | cons t ts =>
      change some <$> Parse.file ⟨0, t :: ts⟩ = .ok none ↔ _
      cases Parse.file ⟨0, t :: ts⟩ <;> simp [Functor.map, Except.map]

/-- Tokens are read as an interface exactly if their letters are a word of the grammar
and the derivation is lawful. The interface is that of the derivation, and its positions
are indexes of the tokens. -/
theorem ofTokens_reads_derivation (tokens : List Token) :
    (Interface.ofTokens tokens = .ok none ↔ tokens = []) ∧
    (letters tokens ∈ Grammar.file ↔ ∃ t : DefinitionTree, t.tokens = tokens) ∧
    ((∃ i, Interface.ofTokens tokens = .ok (some i)) ↔
      letters tokens ∈ Grammar.file ∧ ∀ t : DefinitionTree, t.tokens = tokens → t.Lawful) ∧
    ∀ t : DefinitionTree, t.tokens = tokens →
      ∀ i, Interface.ofTokens tokens = .ok (some i) →
        i = t.interface ∧ ∀ m ∈ i.methods, m.Placed tokens := by
  refine ⟨Interface.ofTokens_eq_ok_none_iff tokens, Derives.file tokens, ?_, ?_⟩
  · constructor
    · rintro ⟨i, h⟩
      rw [Interface.ofTokens_eq_ok_some_iff] at h
      refine ⟨(Derives.file tokens).mpr (Interface.Parse.exists_tree_of_file h), fun t ht => ?_⟩
      rw [← ht] at h
      exact ((Interface.Parse.file_eq_ok_iff t i).mp h).1
    · rintro ⟨hWord, hLawful⟩
      obtain ⟨t, rfl⟩ := (Derives.file tokens).mp hWord
      refine ⟨t.interface, (Interface.ofTokens_eq_ok_some_iff _ _).mpr ?_⟩
      exact (Interface.Parse.file_eq_ok_iff t t.interface).mpr ⟨hLawful t rfl, rfl⟩
  · rintro t rfl i h
    rw [Interface.ofTokens_eq_ok_some_iff] at h
    obtain ⟨-, rfl⟩ := (Interface.Parse.file_eq_ok_iff t i).mp h
    exact ⟨rfl, t.placed (List.prefix_refl _)⟩

/-- The tokens of a definition with one method that gives nothing back. -/
private def pingTokens : List Token :=
  [⟨.packageWord, "package", 1, 1⟩, ⟨.name, "demo", 1, 9⟩, ⟨.mark .semicolon, ";", 1, 13⟩,
    ⟨.interfaceWord, "interface", 1, 15⟩, ⟨.name, "IPing", 1, 25⟩,
    ⟨.mark .openBrace, "\x7b", 1, 31⟩, ⟨.modifier .oneway, "oneway", 1, 33⟩,
    ⟨.name, "void", 1, 40⟩, ⟨.name, "ping", 1, 45⟩, ⟨.mark .openParen, "(", 1, 49⟩,
    ⟨.name, "int", 1, 50⟩, ⟨.mark .openBracket, "[", 1, 53⟩, ⟨.mark .closeBracket, "]", 1, 54⟩,
    ⟨.name, "ids", 1, 56⟩, ⟨.mark .closeParen, ")", 1, 59⟩, ⟨.mark .semicolon, ";", 1, 60⟩,
    ⟨.mark .closeBrace, "\x7d", 1, 62⟩]

theorem ofTokens_reads_derivation_ping :
    "pn;in\x7bmnn(n[]n);\x7d".toList ∈ Grammar.file ∧
    ∃ t : DefinitionTree, t.tokens = pingTokens ∧ t.Lawful ∧
      t.interface.methods = [{
        name := "ping", returnType := "void", arguments := [⟨.into, "int[]", "ids", some 10⟩]
        modifiers := [.oneway], javadoc := none, position := 8, result := none }] := by
  have hRun : (Interface.ofTokens pingTokens).toOption.join.map Interface.methods = some [{
      name := "ping", returnType := "void", arguments := [⟨.into, "int[]", "ids", some 10⟩]
      modifiers := [.oneway], javadoc := none, position := 8, result := none }] := by
    decide +kernel
  obtain ⟨-, hTree, hAccepts, hReads⟩ := ofTokens_reads_derivation pingTokens
  obtain ⟨i, hTokens, hMethods⟩ := Interface.exists_of_run hRun
  obtain ⟨hWord, hLawful⟩ := hAccepts.mp ⟨i, hTokens⟩
  obtain ⟨t, ht⟩ := hTree.mp hWord
  refine ⟨hWord, t, ht, hLawful t ht, ?_⟩
  rw [← (hReads t ht i hTokens).1]
  exact hMethods

end BinderIdl
