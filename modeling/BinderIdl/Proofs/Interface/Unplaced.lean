import BinderIdl.Proofs.Interface.Reading

/-! Tokens without their places. The readers of a definition look at the classes and the
texts of tokens only: tokens that agree in these are the same definition, or have the same
fault, wherever they stand. -/
namespace BinderIdl

namespace Token

/-- The class and the text of a token, without its place. -/
def key (t : Token) : TokenClass × String := (t.cls, t.value)

/-- The token without its place. -/
def unplaced (t : Token) : Token := { t with line := 0, column := 0 }

@[simp] theorem cls_unplaced (t : Token) : t.unplaced.cls = t.cls := rfl

@[simp] theorem value_unplaced (t : Token) : t.unplaced.value = t.value := rfl

end Token

/-- The cursor over tokens without places. -/
def Cursor.unplaced (c : Cursor) : Cursor := ⟨c.position, c.rest.map Token.unplaced⟩

@[simp] theorem Cursor.position_unplaced (c : Cursor) : c.unplaced.position = c.position := rfl

@[simp] theorem Cursor.rest_unplaced (c : Cursor) :
    c.unplaced.rest = c.rest.map Token.unplaced := rfl

/-- What was read, with the cursor behind it over tokens without places. -/
def Unplaced {β : Type} (r : β × Cursor) : β × Cursor := (r.1, r.2.unplaced)

/-- A reader that does not look at the places of tokens. -/
def IgnoresPlaces {β : Type} (read : Cursor → Except SyntaxFault (β × Cursor)) : Prop :=
  ∀ c, read c.unplaced = (read c).map Unplaced

/-- One reader after another ignores places if both do. The second one may do more than read. -/
theorem bind_unplaced {β γ : Type} {read blind : Except SyntaxFault (β × Cursor)}
    {next : β × Cursor → Except SyntaxFault γ} {f : γ → γ} (h : blind = read.map Unplaced)
    (hNext : ∀ r, read = .ok r → next (Unplaced r) = (next r).map f) :
    (blind >>= next) = (read >>= next).map f := by
  rw [h]
  cases hRead : read with
  | error fault => rfl
  | ok r => exact hNext r hRead

namespace Cursor

theorem expect_unplaced (c : Cursor) (wanted : Wanted) :
    c.unplaced.expect wanted = (c.expect wanted).map Unplaced := by
  obtain ⟨position, _ | ⟨t, rest⟩⟩ := c
  · rfl
  · simp only [expect, unplaced, List.map_cons, Token.cls_unplaced]
    split <;> rfl

theorem accept_unplaced (c : Cursor) (cls : TokenClass) :
    c.unplaced.accept cls = Unplaced (c.accept cls) := by
  obtain ⟨position, _ | ⟨t, rest⟩⟩ := c
  · rfl
  · simp only [accept, unplaced, List.map_cons, Token.cls_unplaced]
    split <;> rfl

theorem peek?_unplaced (c : Cursor) : c.unplaced.peek? = c.peek? := by
  obtain ⟨position, _ | ⟨t, rest⟩⟩ := c <;> rfl

end Cursor

namespace Interface.Parse

open Cursor (expect_unplaced accept_unplaced peek?_unplaced)

theorem furtherNames_unplaced (position : Nat) (rest : List Token) :
    furtherNames position (rest.map Token.unplaced) = Unplaced (furtherNames position rest) := by
  induction position, rest using furtherNames.induct with
  | case1 position dot name rest h names c _ ih =>
      simp only [List.map_cons, furtherNames, Token.cls_unplaced, Token.value_unplaced, if_pos h,
        ih]
      rfl
  | case2 position dot name rest h =>
      simp only [List.map_cons, furtherNames, Token.cls_unplaced, h, if_false]
      rfl
  | case3 position rest h =>
      rcases rest with _ | ⟨t, _ | ⟨u, rest⟩⟩
      · rfl
      · rfl
      · exact absurd rfl (h t u rest)

theorem ignoresPlaces_qualifiedName : IgnoresPlaces qualifiedName := by
  intro c
  unfold qualifiedName
  refine bind_unplaced (expect_unplaced c .identifier) fun r _ => ?_
  simp only [Unplaced, Cursor.position_unplaced, Cursor.rest_unplaced, furtherNames_unplaced]
  rfl

theorem bracketPairs_unplaced (position : Nat) (rest : List Token) :
    bracketPairs position (rest.map Token.unplaced) =
      (bracketPairs position rest).map Unplaced := by
  induction position, rest using bracketPairs.induct with
  | case1 position => rfl
  | case2 position t h | case3 position t h =>
      simp only [List.map_cons, List.map_nil, bracketPairs, Token.cls_unplaced, h]
      rfl
  | case4 position t u rest ht hu ih =>
      simp only [List.map_cons, bracketPairs, Token.cls_unplaced, if_pos ht, if_pos hu, ih]
      cases bracketPairs (position + 2) rest <;> rfl
  | case5 position t u rest ht hu =>
      simp only [List.map_cons, bracketPairs, Token.cls_unplaced, ht, hu, if_true, if_false]
      rfl
  | case6 position t u rest ht =>
      simp only [List.map_cons, bracketPairs, Token.cls_unplaced, ht, if_false]
      rfl

theorem ignoresPlaces_type : IgnoresPlaces type := by
  intro c
  unfold type
  refine bind_unplaced (ignoresPlaces_qualifiedName c) fun r _ => ?_
  simp only [Unplaced, accept_unplaced, Cursor.position_unplaced, Cursor.rest_unplaced,
    bracketPairs_unplaced]
  cases bracketPairs (r.2.accept .typeBlock).2.position (r.2.accept .typeBlock).2.rest <;> rfl

theorem modifiers_unplaced (known : List Modifier) (position : Nat) (rest : List Token) :
    modifiers known position (rest.map Token.unplaced) =
      Unplaced (modifiers known position rest) := by
  induction rest generalizing known position with
  | nil => rfl
  | cons t rest ih =>
      simp only [List.map_cons, modifiers, Token.cls_unplaced]
      split
      · exact ih _ _
      · rfl

theorem direction_unplaced (c : Cursor) : direction c.unplaced = Unplaced (direction c) := by
  obtain ⟨position, _ | ⟨t, rest⟩⟩ := c
  · rfl
  · simp only [direction, Cursor.unplaced, List.map_cons, Token.cls_unplaced]
    split <;> rfl

theorem ignoresPlaces_argument : IgnoresPlaces argument := by
  intro c
  simp only [argument, direction_unplaced, Unplaced]
  refine bind_unplaced (ignoresPlaces_type _) fun r _ => ?_
  exact bind_unplaced (expect_unplaced _ .argumentName) fun _ _ => rfl

theorem importKind_unplaced (c : Cursor) : importKind c.unplaced = Unplaced (importKind c) := by
  obtain ⟨position, _ | ⟨t, rest⟩⟩ := c
  · rfl
  · simp only [importKind, Cursor.unplaced, List.map_cons, Token.cls_unplaced]
    split <;> rfl

theorem ignoresPlaces_importEntry (package : String) : IgnoresPlaces (importEntry package) := by
  intro c
  unfold importEntry
  refine bind_unplaced (expect_unplaced c .importWord) fun r _ => ?_
  simp only [Unplaced, importKind_unplaced]
  refine bind_unplaced (ignoresPlaces_qualifiedName _) fun r _ => ?_
  exact bind_unplaced (expect_unplaced _ (.mark .semicolon)) fun _ _ => rfl

theorem ignoresPlaces_furtherArguments : IgnoresPlaces furtherArguments := by
  intro c
  induction hn : c.rest.length using Nat.strong_induction_on generalizing c with
  | _ n ih =>
      rw [furtherArguments_eq, furtherArguments_eq c, accept_unplaced]
      rcases hComma : c.accept (.mark .comma) with ⟨_ | value, d⟩
      · rfl
      · have hAccept := Cursor.accept_shorter c (.mark .comma)
        simp only [hComma] at hAccept
        refine bind_unplaced (ignoresPlaces_argument d) fun r hr => ?_
        have hShorter := argument_shorter hr
        exact bind_unplaced (ih _ (by omega) _ rfl) fun _ _ => rfl

theorem ignoresPlaces_arguments : IgnoresPlaces arguments := by
  intro c
  simp only [arguments, peek?_unplaced]
  split
  · rfl
  · refine bind_unplaced (ignoresPlaces_argument c) fun r _ => ?_
    exact bind_unplaced (ignoresPlaces_furtherArguments r.2) fun _ _ => rfl

theorem ignoresPlaces_method (inherited : List Modifier) : IgnoresPlaces (method inherited) := by
  intro c
  simp only [method, accept_unplaced, Unplaced, Cursor.position_unplaced, Cursor.rest_unplaced,
    modifiers_unplaced]
  refine bind_unplaced (ignoresPlaces_type _) fun type _ => ?_
  refine bind_unplaced (expect_unplaced _ .methodName) fun name _ => ?_
  refine bind_unplaced (expect_unplaced _ (.mark .openParen)) fun _ _ => ?_
  refine bind_unplaced (ignoresPlaces_arguments _) fun as _ => ?_
  refine bind_unplaced (expect_unplaced _ (.mark .closeParen)) fun _ _ => ?_
  refine bind_unplaced (expect_unplaced _ (.mark .semicolon)) fun _ _ => ?_
  simp only [Unplaced, Cursor.position_unplaced]
  cases check _ <;> rfl

theorem ignoresPlaces_imports (package : String) : IgnoresPlaces (imports package) := by
  intro c
  induction hn : c.rest.length using Nat.strong_induction_on generalizing c with
  | _ n ih =>
      rw [imports_eq, imports_eq package c, peek?_unplaced]
      split
      · refine bind_unplaced (ignoresPlaces_importEntry package c) fun r hr => ?_
        have hShorter := importEntry_shorter hr
        exact bind_unplaced (ih _ (by omega) _ rfl) fun _ _ => rfl
      · rfl

theorem ignoresPlaces_methods (inherited : List Modifier) : IgnoresPlaces (methods inherited) := by
  intro c
  induction hn : c.rest.length using Nat.strong_induction_on generalizing c with
  | _ n ih =>
      rw [methods_eq, methods_eq inherited c, peek?_unplaced]
      split
      · rfl
      · refine bind_unplaced (ignoresPlaces_method inherited c) fun r hr => ?_
        have hShorter := method_shorter hr
        exact bind_unplaced (ih _ (by omega) _ rfl) fun _ _ => rfl

/-- A whole file is read, or refused, without a look at the places of its tokens. -/
theorem file_unplaced (c : Cursor) : file c.unplaced = (file c).map id := by
  unfold file
  refine bind_unplaced (expect_unplaced c .package) fun _ _ => ?_
  refine bind_unplaced (ignoresPlaces_qualifiedName _) fun package _ => ?_
  refine bind_unplaced (expect_unplaced _ (.mark .semicolon)) fun _ _ => ?_
  refine bind_unplaced (ignoresPlaces_imports _ _) fun entries _ => ?_
  simp only [accept_unplaced, Unplaced, Cursor.position_unplaced, Cursor.rest_unplaced,
    modifiers_unplaced]
  refine bind_unplaced (expect_unplaced _ .interface) fun _ _ => ?_
  refine bind_unplaced (expect_unplaced _ .interfaceName) fun name _ => ?_
  simp only [accept_unplaced, Unplaced]
  cases typeParameters (name.2.accept .typeBlock).1 with
  | error fault => rfl
  | ok parameters =>
      refine bind_unplaced (expect_unplaced _ (.mark .openBrace)) fun _ _ => ?_
      refine bind_unplaced (ignoresPlaces_methods _ _) fun methods _ => ?_
      refine bind_unplaced (expect_unplaced _ (.mark .closeBrace)) fun last _ => ?_
      simp only [Unplaced, Cursor.position_unplaced, Cursor.rest_unplaced, List.isEmpty_map]
      cases last.2.rest.isEmpty <;> rfl

end Interface.Parse

theorem Token.map_unplaced_eq {ts us : List Token} (h : ts.map key = us.map key) :
    ts.map unplaced = us.map unplaced := by
  have hUnplaced : unplaced = (fun k : TokenClass × String => ⟨k.1, k.2, 0, 0⟩) ∘ key := rfl
  rw [hUnplaced, ← List.map_map, h, List.map_map]

/-- Tokens of the same classes and texts are one interface, or have one fault. -/
theorem Interface.ofTokens_congr {ts us : List Token} (h : ts.map Token.key = us.map Token.key) :
    Interface.ofTokens ts = Interface.ofTokens us := by
  have hFile : ∀ ts : List Token,
      Parse.file ⟨0, ts⟩ = Parse.file ⟨0, ts.map Token.unplaced⟩ := by
    intro ts
    have hSame := Parse.file_unplaced ⟨0, ts⟩
    rw [Except.map_id] at hSame
    exact hSame.symm
  have hSame : Parse.file ⟨0, ts⟩ = Parse.file ⟨0, us⟩ := by
    rw [hFile ts, hFile us, Token.map_unplaced_eq h]
  cases ts with
  | nil =>
      cases us with
      | nil => rfl
      | cons u us => cases h
  | cons t ts =>
      cases us with
      | nil => cases h
      | cons u us => simp only [Interface.ofTokens, hSame]

end BinderIdl
