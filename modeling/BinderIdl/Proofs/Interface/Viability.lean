import BinderIdl.Proofs.Interface.Recognition
import BinderIdl.Proofs.Token.Places

/-! Where the reading of tokens stops. Tokens are viable if more tokens make a definition of them.
A fault that wants another token stands where the tokens stop being viable: those before it are,
and with the next one they are not. The exception is a dot, since a name has to follow it before
it is taken. -/
namespace BinderIdl

/-- More tokens can make a word of the grammar of the tokens. -/
def Viable (ts : List Token) : Prop := ∃ more, letters (ts ++ more) ∈ Grammar.file

theorem viable_iff {ts : List Token} : Viable ts ↔ ∃ t : DefinitionTree, ts <+: t.tokens := by
  constructor
  · rintro ⟨more, hWord⟩
    obtain ⟨t, ht⟩ := (Derives.file _).mp hWord
    exact ⟨t, more, ht.symm⟩
  · rintro ⟨t, more, hTokens⟩
    exact ⟨more, (Derives.file _).mpr ⟨t, hTokens.symm⟩⟩

namespace Interface.Parse

theorem stop?_of_methods_tree (inherited : List Modifier) (ts : List MethodTree) {p : Nat}
    {rest : List Token} (hRest : opening? rest = some (.mark .closeBrace)) {fault : SyntaxFault}
    (h : methods inherited ⟨p, ts.flatMap MethodTree.tokens ++ rest⟩ = .error fault) :
    fault.stop? = none := by
  induction ts generalizing p with
  | nil =>
      have hEnd := methods_of_close p rest inherited hRest
      cases hEnd.symm.trans h
  | cons t ts ih =>
      rw [List.flatMap_cons, List.append_assoc, methods_cons_tree] at h
      rcases bind_eq_error.mp h with hCheck | ⟨⟨⟩, -, h⟩
      · exact stop?_of_check _ fault hCheck
      · rcases bind_eq_error.mp h with hMore | ⟨_, -, h⟩
        · exact ih hMore
        · cases h

/-- No other token is wanted anywhere in a derivation. -/
theorem stop?_of_file_tree (t : DefinitionTree) {fault : SyntaxFault}
    (h : file ⟨0, t.tokens⟩ = .error fault) : fault.stop? = none := by
  have hBrace : opening? t.closeBrace.tokens = some (.mark .closeBrace) :=
    congrArg some t.closeBrace.cls_eq
  rw [file_tree] at h
  rcases bind_eq_error.mp h with hParameters | ⟨parameters, -, h⟩
  · exact stop?_of_typeParameters _ fault hParameters
  · rcases bind_eq_error.mp h with hMethods | ⟨r, hMethods, h⟩
    · exact stop?_of_methods_tree _ _ hBrace hMethods
    · obtain ⟨-, rfl⟩ := (methods_tree _ _ _ _ hBrace r).mp hMethods
      have hClose : ∀ q, (⟨q, t.closeBrace.tokens⟩ : Cursor).expect (.mark .closeBrace) =
          .ok (t.closeBrace.text, ⟨q + 1, []⟩) :=
        fun q => if_pos t.closeBrace.cls_eq
      simp only [hClose] at h
      cases h

/-- Tokens are not viable if a file with them stops whatever follows. -/
theorem not_viable_of_file {ts : List Token} {fault : SyntaxFault} (hStop : fault.stop? ≠ none)
    (h : ∀ more, file ⟨0, ts ++ more⟩ = .error fault) : ¬Viable ts := by
  intro hViable
  obtain ⟨t, more, hTokens⟩ := viable_iff.mp hViable
  have hTree := h more
  rw [hTokens] at hTree
  exact hStop (stop?_of_file_tree t hTree)

end Interface.Parse

theorem Interface.ofTokens_eq_error_iff (tokens : List Token) (fault : SyntaxFault) :
    ofTokens tokens = .error fault ↔ tokens ≠ [] ∧ Parse.file ⟨0, tokens⟩ = .error fault := by
  cases tokens with
  | nil => simp [ofTokens]
  | cons t ts =>
      change some <$> Parse.file ⟨0, t :: ts⟩ = .error fault ↔ _
      cases Parse.file ⟨0, t :: ts⟩ <;> simp [Functor.map, Except.map]

theorem Interface.ofTokens_of_run {tokens : List Token} {fault : SyntaxFault}
    (h : (ofTokens tokens).map (fun _ => ()) = .error fault) : ofTokens tokens = .error fault := by
  cases hTokens : ofTokens tokens with
  | error fault' =>
      rw [hTokens] at h
      cases h
      rfl
  | ok i =>
      rw [hTokens] at h
      cases h

/-- The diagnostic for a fault is at the token where it stopped, or else at the last one. -/
theorem SyntaxFault.diagnostic_of_stop? {s : Source} {fault : SyntaxFault} {p : Nat} {t : Token}
    (hStop : fault.stop? = some p) (h : s.tokens[min p (s.tokens.length - 1)]? = some t) :
    fault.diagnostic s = s.diagnosticAt t .malformed fault.message := by
  have hPosition : fault.position = some (p : Int) := by
    cases fault <;> cases hStop <;> rfl
  rw [diagnostic, hPosition, Diagnostic.at?_of_getElem? h]
  rfl

/-- Where an error that wants another token stands, the tokens before are viable, and are a whole
definition if no more tokens were wanted. With the next token they are not viable unless it is a
dot, and in no case with the next two. The error is reported at the next token, or at the last one
as the end of the file. -/
theorem ofTokens_stops_at_viable_prefix {s : Source} {fault : SyntaxFault} {p : Nat}
    (h : Interface.ofTokens s.tokens = .error fault) (hStop : fault.stop? = some p) :
    p ≤ s.tokens.length ∧ Viable (s.tokens.take p) ∧
    (fault = .trailing p → p < s.tokens.length ∧ letters (s.tokens.take p) ∈ Grammar.file) ∧
    (∀ t, s.tokens[p]? = some t → t.cls ≠ .mark .dot → ¬Viable (s.tokens.take (p + 1))) ∧
    (p + 2 ≤ s.tokens.length → ¬Viable (s.tokens.take (p + 2))) ∧
    (∀ t, s.tokens[p]? = some t →
      Interface.ofSource s = .error (s.diagnosticAt t .malformed fault.message)) ∧
    (p = s.tokens.length → ∃ t wanted, s.tokens.getLast? = some t ∧
      Interface.ofSource s = .error (s.diagnosticAt t .malformed
        ("Expected " ++ Wanted.text wanted ++ ", found end of file"))) := by
  have hSource : Interface.ofSource s = .error (fault.diagnostic s) := by
    rw [Interface.ofSource, h]
  obtain ⟨hTokens, hFile⟩ := (Interface.ofTokens_eq_error_iff _ _).mp h
  have hSome : fault.stop? ≠ none := by simp [hStop]
  obtain ⟨taken, rest, hSplit, hTree, hFault, hAlike⟩ :=
    Interface.Parse.stops_of_file hFile hSome
  have hLength : p = taken.length := by
    rcases hFault with ⟨wanted, rfl⟩ | ⟨rfl, -⟩ <;> exact (Option.some.inj hStop).symm
  subst hLength
  -- Whatever follows tokens that look the same, the reading stops here, and a derivation has no stop.
  have hBeyond : ∀ seen, (∀ more, AlikeAhead rest (seen ++ more)) → ¬Viable (taken ++ seen) := by
    intro seen hSeen
    refine Interface.Parse.not_viable_of_file hSome fun more => ?_
    rw [List.append_assoc]
    exact hAlike _ (hSeen more)
  refine ⟨?inside, ?before, ?whole, ?next, ?two, ?place, ?last⟩
  case inside =>
    rw [hSplit, List.length_append]
    exact Nat.le_add_right _ _
  case before =>
    rw [hSplit, List.take_left]
    exact viable_iff.mpr hTree
  case whole =>
    rintro rfl
    rcases hFault with ⟨wanted, hWanted⟩ | ⟨-, hRest, hWhole⟩
    · cases hWanted
    · rw [hSplit, List.length_append, List.take_left]
      exact ⟨Nat.lt_add_of_pos_right (List.length_pos_iff.mpr hRest),
        (Derives.file _).mpr hWhole⟩
  case next =>
    intro t ht hDot
    rw [hSplit, List.getElem?_append_right (Nat.le_refl _), Nat.sub_self] at ht
    obtain ⟨rest, rfl⟩ := List.head?_eq_some_iff.mp (List.head?_eq_getElem? ▸ ht)
    rw [hSplit, List.take_length_add_append]
    exact hBeyond [t] fun more => .cons hDot rest more
  case two =>
    intro hTwo
    rw [hSplit, List.length_append, Nat.add_le_add_iff_left] at hTwo
    rcases rest with _ | ⟨t, _ | ⟨u, rest⟩⟩
    · cases hTwo
    · cases Nat.le_of_succ_le_succ hTwo
    · rw [hSplit, List.take_length_add_append]
      exact hBeyond [t, u] fun more => .cons_cons t u rest more
  case place =>
    intro t ht
    obtain ⟨hInside, -⟩ := List.getElem?_eq_some_iff.mp ht
    rw [hSource, SyntaxFault.diagnostic_of_stop? hStop]
    rwa [Nat.min_eq_left (Nat.le_sub_one_of_lt hInside)]
  case last =>
    intro hEnd
    have hRest : rest = [] := by
      rw [hSplit, List.length_append, Nat.left_eq_add] at hEnd
      exact List.length_eq_zero_iff.mp hEnd
    subst hRest
    rcases hFault with ⟨wanted, rfl⟩ | ⟨-, hRest, -⟩
    · refine ⟨s.tokens.getLast hTokens, wanted, List.getLast?_eq_some_getLast hTokens, ?_⟩
      rw [hSource, SyntaxFault.diagnostic_of_stop? hStop]
      · rfl
      · rw [Nat.min_eq_right (by omega), ← List.getLast?_eq_getElem?,
          List.getLast?_eq_some_getLast hTokens]
    · exact absurd rfl hRest

/-- A definition with an argument that has no name. -/
private def unnamed : Source where
  filename := some "IPing.aidl2"
  text := "package demo; interface IPing \x7b void ping(int); \x7d"
  tokens := [⟨.packageWord, "package", 1, 1⟩, ⟨.name, "demo", 1, 9⟩,
    ⟨.mark .semicolon, ";", 1, 13⟩, ⟨.interfaceWord, "interface", 1, 15⟩, ⟨.name, "IPing", 1, 25⟩,
    ⟨.mark .openBrace, "\x7b", 1, 31⟩, ⟨.name, "void", 1, 33⟩, ⟨.name, "ping", 1, 38⟩,
    ⟨.mark .openParen, "(", 1, 42⟩, ⟨.name, "int", 1, 43⟩, ⟨.mark .closeParen, ")", 1, 46⟩,
    ⟨.mark .semicolon, ";", 1, 47⟩, ⟨.mark .closeBrace, "\x7d", 1, 49⟩]

theorem ofTokens_stops_at_viable_prefix_unnamed :
    Viable (unnamed.tokens.take 10) ∧ ¬Viable (unnamed.tokens.take 11) ∧
    Interface.ofSource unnamed = .error (unnamed.diagnosticAt ⟨.mark .closeParen, ")", 1, 46⟩
      .malformed "Expected argument name, found ')'") := by
  have hRun : (Interface.ofTokens unnamed.tokens).map (fun _ => ()) =
      .error (.expected .argumentName 10 (some ")")) := by
    decide +kernel
  obtain ⟨-, hViable, -, hNext, -, hPlace, -⟩ :=
    ofTokens_stops_at_viable_prefix (Interface.ofTokens_of_run hRun) rfl
  exact ⟨hViable, hNext _ rfl (by decide), hPlace _ rfl⟩

end BinderIdl
