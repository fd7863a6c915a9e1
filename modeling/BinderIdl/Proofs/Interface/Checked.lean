import BinderIdl.Interface.Parse

/-! What holds of the methods of every interface that was read: a method has a
result unless it gives nothing back, and a oneway method neither has a result nor
arguments that come back. -/
namespace BinderIdl

/-- A method that follows the rules for results and for oneway methods. -/
structure Method.Checked (m : Method) : Prop where
  isSome_result : m.result.isSome = !m.isVoid
  direction_result : ∀ r ∈ m.result, r.direction = .result
  oneway_void : m.isOneway = true → m.isVoid = true
  oneway_into : m.isOneway = true → ∀ a ∈ m.arguments, a.direction = .into

namespace Interface.Parse

/-- What a reader read in steps was read step by step. -/
theorem bind_eq_ok {β γ : Type} {x : Except SyntaxFault β} {f : β → Except SyntaxFault γ} {c : γ} :
    (x >>= f) = .ok c ↔ ∃ b, x = .ok b ∧ f b = .ok c := by
  cases x with
  | error fault => simp [bind, Except.bind]
  | ok b => simp [bind, Except.bind]

theorem bind_eq_error {β γ : Type} {x : Except SyntaxFault β} {f : β → Except SyntaxFault γ}
    {fault : SyntaxFault} :
    (x >>= f) = .error fault ↔ x = .error fault ∨ ∃ b, x = .ok b ∧ f b = .error fault := by
  cases x with
  | error fault => simp [bind, Except.bind]
  | ok b => simp [bind, Except.bind]

theorem checked_of_check {m : Method} (h : check m = .ok ()) (hSome : m.result.isSome = !m.isVoid)
    (hResult : ∀ r ∈ m.result, r.direction = .result) : m.Checked := by
  have hOneway : m.isOneway = true → m.isVoid = true ∧ ∀ a ∈ m.arguments, a.direction = .into := by
    intro hOneway
    cases hDuplicate : duplicate? [] m.arguments with
    | some a =>
        simp [check, hDuplicate, bind, Except.bind, throw, throwThe, MonadExceptOf.throw] at h
    | none =>
        simp only [check, hDuplicate, if_pos hOneway] at h
        cases hVoid : m.isVoid with
        | false => simp [hVoid, bind, Except.bind, throw, throwThe, MonadExceptOf.throw] at h
        | true =>
            refine ⟨rfl, fun a ha => ?_⟩
            cases hFind : m.arguments.find? fun a => a.direction != .into with
            | some b => simp [hVoid, hFind, throw, throwThe, MonadExceptOf.throw] at h
            | none => simpa using List.find?_eq_none.mp hFind a ha
  exact ⟨hSome, hResult, fun h => (hOneway h).1, fun h => (hOneway h).2⟩

theorem checked_of_method {inherited : List Modifier} {c d : Cursor} {m : Method}
    (h : method inherited c = .ok (m, d)) : m.Checked := by
  unfold method at h
  obtain ⟨⟨returnType, c₁⟩, -, h⟩ := bind_eq_ok.mp h
  obtain ⟨⟨name, c₂⟩, -, h⟩ := bind_eq_ok.mp h
  obtain ⟨⟨_, c₃⟩, -, h⟩ := bind_eq_ok.mp h
  obtain ⟨⟨arguments, c₄⟩, -, h⟩ := bind_eq_ok.mp h
  obtain ⟨⟨_, c₅⟩, -, h⟩ := bind_eq_ok.mp h
  obtain ⟨⟨_, c₆⟩, -, h⟩ := bind_eq_ok.mp h
  obtain ⟨⟨⟩, hCheck, h⟩ := bind_eq_ok.mp h
  cases h
  refine checked_of_check hCheck ?_ ?_
  · by_cases hVoid : returnType = "void" <;> simp [Method.isVoid, hVoid]
  · by_cases hVoid : returnType = "void" <;> simp [hVoid]

theorem checked_of_methods {inherited : List Modifier} {c d : Cursor} {ms : List Method}
    (h : methods inherited c = .ok (ms, d)) : ∀ m ∈ ms, m.Checked := by
  fun_induction methods inherited c generalizing ms d with
  | case1 c hEnd =>
      cases h
      simp
  | case2 => cases h
  | case3 => cases h
  | case4 c hEnd m e hMethod shorter ms' f hRest ih =>
      cases h
      intro m' hMem
      obtain rfl | hMem := List.mem_cons.mp hMem
      · exact checked_of_method hMethod
      · exact ih hRest m' hMem

/-- The methods of a file are those that its body reads as. -/
theorem methods_of_file {c : Cursor} {i : Interface} (h : file c = .ok i) :
    ∃ d e, methods i.modifiers d = .ok (i.methods, e) := by
  unfold file at h
  obtain ⟨⟨_, _⟩, -, h⟩ := bind_eq_ok.mp h
  obtain ⟨⟨package, _⟩, -, h⟩ := bind_eq_ok.mp h
  obtain ⟨⟨_, _⟩, -, h⟩ := bind_eq_ok.mp h
  obtain ⟨⟨imports, _⟩, -, h⟩ := bind_eq_ok.mp h
  obtain ⟨⟨_, _⟩, -, h⟩ := bind_eq_ok.mp h
  obtain ⟨⟨name, _⟩, -, h⟩ := bind_eq_ok.mp h
  obtain ⟨parameters, -, h⟩ := bind_eq_ok.mp h
  obtain ⟨⟨_, d⟩, -, h⟩ := bind_eq_ok.mp h
  obtain ⟨⟨methods, e⟩, hMethods, h⟩ := bind_eq_ok.mp h
  obtain ⟨⟨_, f⟩, -, h⟩ := bind_eq_ok.mp h
  cases hRest : f.rest.isEmpty with
  | false => simp [hRest, bind, Except.bind, throw, throwThe, MonadExceptOf.throw] at h
  | true =>
      simp only [hRest] at h
      cases h
      exact ⟨d, e, hMethods⟩

end Interface.Parse

theorem Interface.checked_of_ofTokens {tokens : List Token} {i : Interface}
    (h : Interface.ofTokens tokens = .ok (some i)) : ∀ m ∈ i.methods, m.Checked := by
  cases tokens with
  | nil => cases h
  | cons t ts =>
      have hTokens : ofTokens (t :: ts) = some <$> Parse.file ⟨0, t :: ts⟩ := rfl
      rw [hTokens] at h
      cases hFile : Parse.file ⟨0, t :: ts⟩ with
      | error fault => simp [hFile, Functor.map, Except.map] at h
      | ok j =>
          obtain rfl : j = i := by simpa [hFile, Functor.map, Except.map] using h
          obtain ⟨_, _, hMethods⟩ := Parse.methods_of_file hFile
          exact Parse.checked_of_methods hMethods

/-- A run that shows a part of the interface shows that there is one. -/
theorem Interface.exists_of_run {β : Type} {tokens : List Token} {f : Interface → β} {b : β}
    (h : (ofTokens tokens).toOption.join.map f = some b) :
    ∃ i, ofTokens tokens = .ok (some i) ∧ f i = b := by
  obtain ⟨i, hRun, hPart⟩ := Option.map_eq_some_iff.mp h
  refine ⟨i, ?_, hPart⟩
  cases hTokens : ofTokens tokens with
  | error fault => simp [hTokens, Except.toOption] at hRun
  | ok result => simpa [hTokens, Except.toOption] using hRun

end BinderIdl
