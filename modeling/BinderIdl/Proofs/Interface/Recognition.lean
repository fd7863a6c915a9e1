import BinderIdl.Proofs.Interface.Reading

/-! How a reader ends. It takes the tokens of a tree, or it stops at a token behind the beginning
of one. Either way it has looked at the next token only, and at one more behind a dot: whatever
else follows, it ends in the same way. One such statement is proved for each reader, from those
of the readers that it calls. -/
namespace BinderIdl

/-- The token at which a reader stopped because it wanted another one. -/
def SyntaxFault.stop? : SyntaxFault → Option Nat
  | .expected _ p _ | .trailing p => some p
  | _ => none

/-- Other tokens in the place of some that no reader tells from them before it takes one: the
first is the same, and so is the second behind a dot. -/
structure AlikeAhead (ts us : List Token) : Prop where
  first : us.head? = ts.head?
  second : opening? ts = some (.mark .dot) → us.tail.head? = ts.tail.head?

namespace AlikeAhead

variable {ts us : List Token}

theorem refl (ts : List Token) : AlikeAhead ts ts := ⟨rfl, fun _ => rfl⟩

theorem opening?_eq (h : AlikeAhead ts us) : opening? us = opening? ts := by
  rw [opening?, opening?, h.first]

theorem cons_cons (t u : Token) (ts us : List Token) :
    AlikeAhead (t :: u :: ts) (t :: u :: us) := ⟨rfl, fun _ => rfl⟩

theorem append (h : AlikeAhead ts us) (taken : List Token) :
    AlikeAhead (taken ++ ts) (taken ++ us) := by
  rcases taken with _ | ⟨t, _ | ⟨u, taken⟩⟩
  · exact h
  · exact ⟨rfl, fun _ => h.first⟩
  · exact .cons_cons t u _ _

theorem nil_iff : AlikeAhead [] us ↔ us = [] := by
  constructor
  · intro h
    exact List.head?_eq_none_iff.mp h.first
  · rintro rfl
    exact ⟨rfl, fun _ => rfl⟩

theorem exists_cons {t : Token} (h : AlikeAhead (t :: ts) us) : ∃ us', us = t :: us' :=
  List.head?_eq_some_iff.mp h.first

/-- Behind a token that is no dot, all tokens are alike. -/
theorem cons {t : Token} (h : t.cls ≠ .mark .dot) (ts us : List Token) :
    AlikeAhead (t :: ts) (t :: us) :=
  ⟨rfl, fun hDot => absurd (Option.some.inj hDot) h⟩

end AlikeAhead

/-- What a reader that starts at an index does with tokens. It takes those of a tree, or it stops
where the tokens before are the beginning of a tree, and it does so with all tokens that are alike
ahead of where it ends. Faults of another kind are left open. -/
structure Traces {α β : Type} (f : α → List Token) (p : Nat)
    (read : List Token → Except SyntaxFault (β × Cursor)) (ts : List Token) : Prop where
  takes : ∀ b d, read ts = .ok (b, d) → ∃ t, ts = f t ++ d.rest ∧ d.position = p + (f t).length ∧
    ∀ us, AlikeAhead d.rest us → read (f t ++ us) = .ok (b, ⟨d.position, us⟩)
  stops : ∀ fault, read ts = .error fault → fault.stop? ≠ none →
    ∃ wanted taken rest, ts = taken ++ rest ∧
      fault = .expected wanted (p + taken.length) (rest.head?.map Token.value) ∧
      (∃ t, taken <+: f t) ∧ ∀ us, AlikeAhead rest us → read (taken ++ us) = .error fault

namespace Traces

variable {α β γ δ : Type} {f : α → List Token} {g : γ → List Token} {p : Nat} {ts : List Token}

/-- One token is taken. -/
theorem one {read : List Token → Except SyntaxFault (β × Cursor)} {t : Token} (a : α) (b : β)
    (ha : f a = [t]) (hRead : ∀ us, read (t :: us) = .ok (b, ⟨p + 1, us⟩)) :
    Traces f p read (t :: ts) where
  takes := by
    intro b' d h
    rw [hRead] at h
    cases h
    refine ⟨a, ?_, ?_, fun us _ => ?_⟩ <;> rw [ha]
    · rfl
    · rfl
    · exact hRead us
  stops := by
    intro fault h
    rw [hRead] at h
    cases h

/-- Nothing is taken. -/
theorem stay {read : List Token → Except SyntaxFault (β × Cursor)} (a : α) (b : β) (ha : f a = [])
    (hRead : ∀ us, AlikeAhead ts us → read us = .ok (b, ⟨p, us⟩)) : Traces f p read ts where
  takes := by
    intro b' d h
    rw [hRead ts (.refl ts)] at h
    cases h
    refine ⟨a, ?_, ?_, fun us hus => ?_⟩ <;> rw [ha]
    · rfl
    · rfl
    · exact hRead us hus
  stops := by
    intro fault h
    rw [hRead ts (.refl ts)] at h
    cases h

theorem done (b : β) : Traces (fun _ : Unit => []) p (fun rest => .ok (b, ⟨p, rest⟩)) ts :=
  stay () b rfl fun _ _ => rfl

/-- The first token is not the wanted one. -/
theorem refuse [Nonempty α] {read : List Token → Except SyntaxFault (β × Cursor)} (wanted : Wanted)
    (hRead : ∀ us, AlikeAhead ts us →
      read us = .error (.expected wanted p (us.head?.map Token.value))) : Traces f p read ts where
  takes := by
    intro b d h
    rw [hRead ts (.refl ts)] at h
    cases h
  stops := by
    intro fault h _
    rw [hRead ts (.refl ts)] at h
    cases h
    refine ⟨wanted, [], ts, rfl, rfl, ⟨Classical.arbitrary α, List.nil_prefix⟩, fun us hus => ?_⟩
    rw [List.nil_append, hRead us hus, hus.first]

/-- One reader after another. -/
theorem bind [Nonempty γ] {read : List Token → Except SyntaxFault (β × Cursor)}
    {next : β → Nat → List Token → Except SyntaxFault (δ × Cursor)} (h : Traces f p read ts)
    (hNext : ∀ b q rest, read ts = .ok (b, ⟨q, rest⟩) → Traces g q (next b q) rest) :
    Traces (pairTokens f g) p
      (fun rest => read rest >>= fun r => next r.1 r.2.position r.2.rest) ts where
  takes := by
    intro b d hRead
    obtain ⟨⟨b₁, d₁⟩, hFirst, hSecond⟩ := Interface.Parse.bind_eq_ok.mp hRead
    obtain ⟨t, hTokens, hPosition, hAlike⟩ := h.takes b₁ d₁ hFirst
    obtain ⟨u, hTokens', hPosition', hAlike'⟩ := (hNext b₁ _ _ hFirst).takes b d hSecond
    refine ⟨(t, u), ?_, ?_, fun us hus => ?_⟩
    · rw [hTokens, hTokens', pairTokens, List.append_assoc]
    · rw [hPosition', hPosition, pairTokens, List.length_append, Nat.add_assoc]
    · rw [pairTokens, List.append_assoc, hAlike _ (hTokens' ▸ hus.append (g u))]
      exact hAlike' us hus
  stops := by
    intro fault hRead hStop
    cases hFirst : read ts with
    | error fault' =>
        rw [hFirst] at hRead
        cases hRead
        obtain ⟨wanted, taken, rest, hTokens, hFault, ⟨t, ht⟩, hAlike⟩ := h.stops _ hFirst hStop
        obtain ⟨u⟩ := ‹Nonempty γ›
        refine ⟨wanted, taken, rest, hTokens, hFault, ⟨(t, u), ht.trans (List.prefix_append _ _)⟩,
          fun us hus => ?_⟩
        rw [hAlike us hus]
        rfl
    | ok r =>
        obtain ⟨b₁, d₁⟩ := r
        rw [hFirst] at hRead
        obtain ⟨t, hTokens, hPosition, hAlike⟩ := h.takes b₁ d₁ hFirst
        obtain ⟨wanted, taken, rest, hTokens', hFault, ⟨u, hu⟩, hAlike'⟩ :=
          (hNext b₁ d₁.position d₁.rest hFirst).stops fault hRead hStop
        refine ⟨wanted, f t ++ taken, rest, ?_, ?_, ⟨(t, u), ?_⟩, fun us hus => ?_⟩
        · rw [hTokens, hTokens', List.append_assoc]
        · rw [hFault, hPosition, List.length_append, Nat.add_assoc]
        · exact (List.prefix_append_right_inj _).mpr hu
        · rw [List.append_assoc, hAlike _ (hTokens' ▸ hus.append taken)]
          exact hAlike' us hus

theorem andThen [Nonempty γ] {read : List Token → Except SyntaxFault (β × Cursor)}
    {next : β → Nat → List Token → Except SyntaxFault (δ × Cursor)} (h : Traces f p read ts)
    (hNext : ∀ b q rest, Traces g q (next b q) rest) :
    Traces (pairTokens f g) p
      (fun rest => read rest >>= fun r => next r.1 r.2.position r.2.rest) ts :=
  h.bind fun b q rest _ => hNext b q rest

/-- The first tokens are taken whatever follows. -/
theorem after {read next : List Token → Except SyntaxFault (β × Cursor)} {first : List Token}
    (a : α) (ha : f a = first) (hRead : ∀ us, read (first ++ us) = next us)
    (h : Traces g (p + first.length) next ts) : Traces (pairTokens f g) p read (first ++ ts) where
  takes := by
    intro b d hTaken
    rw [hRead] at hTaken
    obtain ⟨t, hTokens, hPosition, hAlike⟩ := h.takes b d hTaken
    refine ⟨(a, t), ?_, ?_, fun us hus => ?_⟩ <;> rw [pairTokens, ha]
    · rw [List.append_assoc, ← hTokens]
    · rw [hPosition, List.length_append, Nat.add_assoc]
    · rw [List.append_assoc, hRead, hAlike us hus]
  stops := by
    intro fault hStopped hStop
    rw [hRead] at hStopped
    obtain ⟨wanted, taken, rest, hTokens, hFault, ⟨t, ht⟩, hAlike⟩ := h.stops fault hStopped hStop
    refine ⟨wanted, first ++ taken, rest, ?_, ?_, ⟨(a, t), ?_⟩, fun us hus => ?_⟩
    · rw [hTokens, List.append_assoc]
    · rw [hFault, List.length_append, Nat.add_assoc]
    · rw [pairTokens, ha]
      exact (List.prefix_append_right_inj _).mpr ht
    · rw [List.append_assoc, hRead, hAlike us hus]

/-- A check that looks at no tokens, and that finds nothing else wanted. -/
theorem guard {x : Except SyntaxFault δ} (hCheck : ∀ fault, x = .error fault → fault.stop? = none)
    {read : δ → List Token → Except SyntaxFault (β × Cursor)} (h : ∀ u, Traces f p (read u) ts) :
    Traces f p (fun rest => x >>= fun u => read u rest) ts := by
  cases x with
  | ok u => exact h u
  | error fault =>
      constructor
      · intro _ _ hRead
        cases hRead
      · intro fault' hRead hStop
        cases hRead
        exact absurd (hCheck fault rfl) hStop

/-- Trees of one kind are trees of another. -/
theorem map {read : List Token → Except SyntaxFault (β × Cursor)} (h : Traces f p read ts)
    (build : α → γ) (hBuild : ∀ a, g (build a) = f a) : Traces g p read ts where
  takes := by
    intro b d hRead
    obtain ⟨t, ht⟩ := h.takes b d hRead
    exact ⟨build t, by rwa [hBuild]⟩
  stops := by
    intro fault hRead hStop
    obtain ⟨wanted, taken, rest, hTokens, hFault, ⟨t, ht⟩, hAlike⟩ := h.stops fault hRead hStop
    exact ⟨wanted, taken, rest, hTokens, hFault, ⟨build t, by rwa [hBuild]⟩, hAlike⟩

/-- What is made of the tokens has no part in how they are read. -/
theorem result {read : List Token → Except SyntaxFault (β × Cursor)} (h : Traces f p read ts)
    (make : β → δ) : Traces f p (fun rest => read rest >>= fun r => .ok (make r.1, r.2)) ts :=
  (h.andThen fun b _ _ => done (make b)).map Prod.fst fun _ => (List.append_nil _).symm

theorem cons {read next : List Token → Except SyntaxFault (β × Cursor)} {first : List Token}
    (a : α) (ha : f a = first) (hRead : ∀ us, read (first ++ us) = next us)
    (h : Traces (List.flatMap f) (p + first.length) next ts) :
    Traces (List.flatMap f) p read (first ++ ts) :=
  (after a ha hRead h).map (fun (a, as) => a :: as) fun _ => rfl

/-- It is enough to know a reader where the first token is the same. -/
theorem of_head {read other : List Token → Except SyntaxFault (β × Cursor)}
    (h : Traces f p other ts) (hSame : ∀ us, opening? us = opening? ts → read us = other us) :
    Traces f p read ts where
  takes := by
    intro b d hRead
    rw [hSame ts rfl] at hRead
    obtain ⟨t, hTokens, hPosition, hAlike⟩ := h.takes b d hRead
    refine ⟨t, hTokens, hPosition, fun us hus => ?_⟩
    rw [hSame _ (hTokens ▸ (hus.append (f t)).opening?_eq), hAlike us hus]
  stops := by
    intro fault hRead hStop
    rw [hSame ts rfl] at hRead
    obtain ⟨wanted, taken, rest, hTokens, hFault, hTree, hAlike⟩ := h.stops fault hRead hStop
    refine ⟨wanted, taken, rest, hTokens, hFault, hTree, fun us hus => ?_⟩
    rw [hSame _ (hTokens ▸ (hus.append taken).opening?_eq), hAlike us hus]

/-- A reader that takes items as long as the next token says that there is another one. -/
theorem many (items : Cursor → Except SyntaxFault (List β × Cursor))
    (goes : Option TokenClass → Prop) {item : Nat → List Token → Except SyntaxFault (β × Cursor)}
    (hItem : ∀ p ts, Traces f p (item p) ts)
    (hShorter : ∀ p ts b d, item p ts = .ok (b, d) → d.rest.length < ts.length)
    (hMore : ∀ p ts, goes (opening? ts) → items ⟨p, ts⟩ = do
      let (b, d) ← item p ts
      let (bs, e) ← items d
      return (b :: bs, e))
    (hDone : ∀ p ts, ¬goes (opening? ts) → items ⟨p, ts⟩ = .ok ([], ⟨p, ts⟩)) (p : Nat)
    (ts : List Token) : Traces (List.flatMap f) p (fun rest => items ⟨p, rest⟩) ts := by
  induction hLength : ts.length using Nat.strong_induction_on generalizing p ts with
  | _ n ih =>
      subst hLength
      by_cases h : goes (opening? ts)
      · have hSteps := (hItem p ts).bind fun b q rest hRead =>
          (ih _ (hShorter p ts b _ hRead) q rest rfl).result fun bs => b :: bs
        refine .of_head (hSteps.map (fun (a, as) => a :: as) fun _ => rfl) fun us hus => ?_
        rw [← hus] at h
        exact hMore p us h
      · refine .stay [] [] rfl fun us hus => ?_
        rw [← hus.opening?_eq] at h
        exact hDone p us h

end Traces

section Trees

/-! There are trees of every kind, so every beginning of a part can be completed. -/

instance {α : Type} [Nonempty α] {cls : α → TokenClass} : Nonempty (Leaf cls) :=
  ⟨⟨Classical.arbitrary α, ⟨cls (Classical.arbitrary α), "", 0, 0⟩, rfl⟩⟩

instance : Nonempty NameTree := ⟨⟨Classical.arbitrary _, []⟩⟩

instance : Nonempty TypeTree := ⟨⟨Classical.arbitrary _, none, []⟩⟩

instance : Nonempty ArgumentTree := ⟨⟨none, Classical.arbitrary _, Classical.arbitrary _⟩⟩

instance : Nonempty EntryTree :=
  ⟨⟨Classical.arbitrary _, none, Classical.arbitrary _, Classical.arbitrary _⟩⟩

instance : Nonempty MethodTree :=
  ⟨⟨none, [], Classical.arbitrary _, Classical.arbitrary _, Classical.arbitrary _, none,
    Classical.arbitrary _, Classical.arbitrary _⟩⟩

end Trees

namespace Interface.Parse

variable (p : Nat) (ts : List Token)

theorem exists_cons_of_opening {ts : List Token} {cls : TokenClass}
    (h : opening? ts = some cls) : ∃ t rest, t.cls = cls ∧ ts = t :: rest := by
  obtain ⟨t, hHead, hClass⟩ := Option.map_eq_some_iff.mp h
  obtain ⟨rest, rfl⟩ := List.head?_eq_some_iff.mp hHead
  exact ⟨t, rest, hClass, rfl⟩

theorem traces_expect (wanted : Wanted) (cls : TokenClass) (hWanted : wanted.cls = cls) :
    Traces (Leaf.tokens : Terminal cls → List Token) p
      (fun rest => Cursor.expect ⟨p, rest⟩ wanted) ts := by
  subst hWanted
  cases ts with
  | nil =>
      refine .refuse wanted fun us hus => ?_
      rw [AlikeAhead.nil_iff.mp hus]
      rfl
  | cons t ts =>
      by_cases hClass : t.cls = wanted.cls
      · exact .one ⟨(), t, hClass⟩ _ rfl fun us => if_pos hClass
      · refine .refuse wanted fun us hus => ?_
        obtain ⟨us, rfl⟩ := hus.exists_cons
        exact if_neg hClass

theorem traces_accept (cls : TokenClass) :
    Traces (optional Leaf.tokens : Option (Terminal cls) → List Token) p
      (fun rest => .ok (Cursor.accept ⟨p, rest⟩ cls)) ts := by
  by_cases h : opening? ts = some cls
  · obtain ⟨t, ts, hClass, rfl⟩ := exists_cons_of_opening h
    exact .one (some ⟨(), t, hClass⟩) _ rfl fun us => congrArg _ (if_pos hClass)
  · exact .stay none none rfl fun us hus =>
      congrArg _ (accept_optional p us none (hus.opening?_eq ▸ h))

/-- The tokens of the names behind the first one. -/
abbrev furtherTokens : List (Terminal (.mark .dot) × Terminal .name) → List Token :=
  List.flatMap (pairTokens Leaf.tokens Leaf.tokens)

/-- No dot and name come next. -/
def NoFurther (ts : List Token) : Prop :=
  ∀ dot name rest, ts = dot :: name :: rest → ¬(dot.cls = .mark .dot ∧ name.cls = .name)

theorem NoFurther.congr {ts us : List Token} (h : NoFurther ts) (hus : AlikeAhead ts us) :
    NoFurther us := by
  rintro dot name rest rfl ⟨hDot, hName⟩
  obtain ⟨ts, rfl⟩ := List.head?_eq_some_iff.mp hus.first.symm
  obtain ⟨ts, rfl⟩ := List.head?_eq_some_iff.mp (hus.second (congrArg some hDot)).symm
  exact h dot name ts rfl ⟨hDot, hName⟩

theorem furtherNames_of_noFurther {ts : List Token} (h : NoFurther ts) :
    furtherNames p ts = ([], ⟨p, ts⟩) := by
  rcases ts with _ | ⟨dot, _ | ⟨name, rest⟩⟩
  · rfl
  · rfl
  · exact if_neg (h dot name rest rfl)

theorem traces_furtherNames :
    Traces furtherTokens p (fun rest => .ok (furtherNames p rest)) ts := by
  have hStay : ∀ {p ts}, NoFurther ts →
      Traces furtherTokens p (fun rest => .ok (furtherNames p rest)) ts := fun h =>
    .stay [] [] rfl fun us hus => congrArg _ (furtherNames_of_noFurther _ (h.congr hus))
  induction p, ts using furtherNames.induct with
  | case1 p dot name rest hClass names c hNames ih =>
      refine .cons (⟨(), dot, hClass.1⟩, ⟨(), name, hClass.2⟩) rfl ?_
        (ih.result fun names => name.value :: names)
      exact fun us => congrArg _ (if_pos hClass)
  | case2 p dot name rest hClass =>
      refine hStay ?_
      rintro _ _ _ ⟨⟩
      exact hClass
  | case3 p rest hShort =>
      exact hStay fun dot name rest hRest => absurd hRest (hShort dot name rest)

theorem traces_qualifiedName :
    Traces NameTree.tokens p (fun rest => qualifiedName ⟨p, rest⟩) ts := by
  have hSteps := (traces_expect p ts .identifier .name rfl).andThen fun first q rest =>
    (traces_furtherNames q rest).result fun names => Text.join "." (first :: names)
  exact hSteps.map (fun (a, b) => ⟨a, b⟩) fun _ => rfl

abbrev bracketTokens :
    List (Terminal (.mark .openBracket) × Terminal (.mark .closeBracket)) → List Token :=
  List.flatMap (pairTokens Leaf.tokens Leaf.tokens)

/-- Behind an opening bracket the closing one is wanted. -/
theorem bracketPairs_of_open {p : Nat} {t : Token} (ht : t.cls = .mark .openBracket)
    {ts : List Token} (h : opening? ts ≠ some (.mark .closeBracket)) :
    bracketPairs p (t :: ts) =
      .error (.expected (.mark .closeBracket) (p + 1) (ts.head?.map Token.value)) := by
  rcases ts with _ | ⟨u, rest⟩
  · exact if_pos ht
  · exact (if_pos ht).trans (if_neg fun hu => h (congrArg some hu))

/-- An opening bracket that nothing closes. -/
theorem traces_bracketPairs_of_open {t : Token} (ht : t.cls = .mark .openBracket)
    (h : opening? ts ≠ some (.mark .closeBracket)) :
    Traces bracketTokens p (bracketPairs p) (t :: ts) where
  takes := by
    intro b d hRead
    rw [bracketPairs_of_open ht h] at hRead
    cases hRead
  stops := by
    intro fault hRead _
    rw [bracketPairs_of_open ht h] at hRead
    cases hRead
    refine ⟨.mark .closeBracket, [t], ts, rfl, rfl,
      ⟨[(⟨(), t, ht⟩, Classical.arbitrary _)], List.prefix_append _ _⟩, fun us hus => ?_⟩
    rw [List.singleton_append, bracketPairs_of_open ht (hus.opening?_eq ▸ h), hus.first]

theorem traces_bracketPairs : Traces bracketTokens p (bracketPairs p) ts := by
  have hStay : ∀ {p ts}, opening? ts ≠ some (.mark .openBracket) →
      Traces bracketTokens p (bracketPairs p) ts := fun h =>
    .stay [] 0 rfl fun us hus => bracketPairs_tree _ us [] (hus.opening?_eq ▸ h)
  induction p, ts using bracketPairs.induct with
  | case1 p => exact hStay (by simp [opening?])
  | case2 p t ht => exact traces_bracketPairs_of_open p [] ht (by simp [opening?])
  | case3 p t ht => exact hStay (by simpa using ht)
  | case4 p t u rest ht hu ih =>
      refine .cons (⟨(), t, ht⟩, ⟨(), u, hu⟩) rfl ?_ (ih.result fun n => n + 1)
      exact fun us => (if_pos ht).trans (if_pos hu)
  | case5 p t u rest ht hu => exact traces_bracketPairs_of_open p (u :: rest) ht (by simpa using hu)
  | case6 p t u rest ht => exact hStay (by simpa using ht)

theorem traces_type : Traces TypeTree.tokens p (fun rest => type ⟨p, rest⟩) ts := by
  have hSteps := (traces_qualifiedName p ts).andThen fun name q rest =>
    (traces_accept q rest .typeBlock).andThen fun block q rest =>
    (traces_bracketPairs q rest).result fun pairs =>
      name ++ block.getD "" ++ String.join (List.replicate pairs "[]")
  exact hSteps.map (fun (a, b, c) => ⟨a, b, c⟩) fun _ => List.append_assoc _ _ _

abbrev modifierTokens : List (Leaf TokenClass.modifier) → List Token := List.flatMap Leaf.tokens

theorem traces_modifiers (known : List Modifier) :
    Traces modifierTokens p (fun rest => .ok (modifiers known p rest)) ts := by
  have hStay : ∀ {known p ts}, (∀ m, opening? ts ≠ some (.modifier m)) →
      Traces modifierTokens p (fun rest => .ok (modifiers known p rest)) ts := fun h =>
    .stay [] _ rfl fun us hus =>
      congrArg _ (modifiers_of_opening _ us _ fun m => hus.opening?_eq ▸ h m)
  induction known, p, ts using modifiers.induct with
  | case1 known p => exact hStay (by simp [opening?])
  | case2 known p t rest m hClass ih =>
      refine .cons ⟨m, t, hClass⟩ rfl (fun us => ?_) ih
      simp only [Leaf.tokens, List.singleton_append, modifiers, hClass]
  | case3 known p t rest hClass =>
      exact hStay fun m hOpening => hClass m (Option.some.inj hOpening)

theorem traces_direction :
    Traces (optional Leaf.tokens : Option (Leaf TokenClass.direction) → List Token) p
      (fun rest => .ok (direction ⟨p, rest⟩)) ts := by
  by_cases h : ∃ d, opening? ts = some (.direction d)
  · obtain ⟨d, h⟩ := h
    obtain ⟨t, ts, hClass, rfl⟩ := exists_cons_of_opening h
    refine .one (some ⟨d, t, hClass⟩) d rfl fun us => ?_
    simp only [direction, hClass]
  · rw [not_exists] at h
    exact .stay none .into rfl fun us hus =>
      congrArg _ (direction_of_opening p us fun d => hus.opening?_eq ▸ h d)

theorem traces_importKind :
    Traces (optional (Sum.elim Leaf.tokens Leaf.tokens) :
      Option (Terminal .interfaceWord ⊕ Leaf TokenClass.importKind) → List Token) p
      (fun rest => .ok (importKind ⟨p, rest⟩)) ts := by
  by_cases hWord : opening? ts = some .interfaceWord
  · obtain ⟨t, ts, hClass, rfl⟩ := exists_cons_of_opening hWord
    refine .one (some (.inl ⟨(), t, hClass⟩)) .interface rfl fun us => ?_
    simp only [importKind, hClass]
  · by_cases hKind : ∃ k, opening? ts = some (.importKind k)
    · obtain ⟨k, hKind⟩ := hKind
      obtain ⟨t, ts, hClass, rfl⟩ := exists_cons_of_opening hKind
      refine .one (some (.inr ⟨k, t, hClass⟩)) k rfl fun us => ?_
      simp only [importKind, hClass]
    · rw [not_exists] at hKind
      exact .stay none .plain rfl fun us hus => congrArg _
        (importKind_of_opening p us (hus.opening?_eq ▸ hWord) fun k => hus.opening?_eq ▸ hKind k)

theorem traces_argument : Traces ArgumentTree.tokens p (fun rest => argument ⟨p, rest⟩) ts := by
  have hSteps := (traces_direction p ts).andThen fun direction q rest =>
    (traces_type q rest).andThen fun type r rest =>
    (traces_expect r rest .argumentName .name rfl).result fun name =>
      (⟨direction, type, name, some q⟩ : Argument)
  exact hSteps.map (fun (a, b, c) => ⟨a, b, c⟩) fun _ => List.append_assoc _ _ _

theorem traces_furtherArguments :
    Traces (List.flatMap (pairTokens Leaf.tokens ArgumentTree.tokens) :
      List (Terminal (.mark .comma) × ArgumentTree) → List Token) p
      (fun rest => furtherArguments ⟨p, rest⟩) ts := by
  have hItem := fun p ts => (traces_expect p ts (.mark .comma) _ rfl).andThen fun _ q rest =>
    traces_argument q rest
  refine .many furtherArguments (· = some (.mark .comma)) hItem ?shorter ?more ?done p ts
  case shorter =>
    intro p ts a d h
    obtain ⟨⟨_, c⟩, hComma, hArgument⟩ := bind_eq_ok.mp h
    exact (argument_shorter hArgument).trans (Cursor.expect_shorter hComma)
  case more =>
    intro p ts h
    obtain ⟨t, ts, hClass, rfl⟩ := exists_cons_of_opening h
    have hAccept : Cursor.accept ⟨p, t :: ts⟩ (.mark .comma) = _ := if_pos hClass
    have hExpect : Cursor.expect ⟨p, t :: ts⟩ (.mark .comma) = _ := if_pos hClass
    rw [furtherArguments_eq, hAccept, hExpect]
    rfl
  case done =>
    intro p ts h
    have hAccept : Cursor.accept ⟨p, ts⟩ (.mark .comma) = _ := accept_optional p ts none h
    rw [furtherArguments_eq, hAccept]
    rfl

theorem traces_arguments :
    Traces (optional ArgumentsTree.tokens) p (fun rest => arguments ⟨p, rest⟩) ts := by
  by_cases h : opening? ts = some (.mark .closeParen)
  · exact .stay none [] rfl fun us hus => if_pos (hus.opening?_eq.trans h)
  · have hSteps := (traces_argument p ts).andThen fun a q rest =>
      (traces_furtherArguments q rest).result fun as => a :: as
    refine .of_head (hSteps.map (fun (a, b) => some ⟨a, b⟩) fun _ => rfl) fun us hus => ?_
    rw [← hus] at h
    exact if_neg h

/-- The rules for methods want no other token. -/
theorem stop?_of_check (m : Method) (fault : SyntaxFault) (h : check m = .error fault) :
    fault.stop? = none := by
  simp only [check] at h
  split at h
  · cases h
    rfl
  · split at h
    · split at h
      · cases h
        rfl
      · split at h
        · cases h
          rfl
        · cases h
    · cases h

theorem traces_check (m : Method) : Traces (fun _ : Unit => []) p
    (fun rest => check m >>= fun _ => .ok (m, ⟨p, rest⟩)) ts :=
  .guard (stop?_of_check m) fun _ => .done m

theorem traces_method (inherited : List Modifier) :
    Traces MethodTree.tokens p (fun rest => method inherited ⟨p, rest⟩) ts := by
  have hSteps := (traces_accept p ts .javadoc).andThen fun javadoc q rest =>
    (traces_modifiers q rest inherited).andThen fun modifiers q rest =>
    (traces_type q rest).andThen fun returnType r rest =>
    (traces_expect r rest .methodName .name rfl).andThen fun name s rest =>
    (traces_expect s rest (.mark .openParen) _ rfl).andThen fun _ s rest =>
    (traces_arguments s rest).andThen fun arguments s rest =>
    (traces_expect s rest (.mark .closeParen) _ rfl).andThen fun _ s rest =>
    (traces_expect s rest (.mark .semicolon) _ rfl).andThen fun _ s rest =>
    traces_check s rest {
      name, returnType, arguments, modifiers, javadoc
      position := r
      result :=
        if returnType = "void" then none
        else some ⟨.result, returnType, Argument.resultName, some q⟩ }
  refine hSteps.map (fun (a, b, c, d, e, f, g, h, _) => ⟨a, b, c, d, e, f, g, h⟩) fun _ => ?_
  simp only [MethodTree.tokens, pairTokens, List.append_assoc, List.append_nil]
  rfl

theorem traces_methods (inherited : List Modifier) :
    Traces (List.flatMap MethodTree.tokens) p (fun rest => methods inherited ⟨p, rest⟩) ts :=
  .many (methods inherited) (fun next => ¬(next = some (.mark .closeBrace) ∨ next = none))
    (traces_method · · inherited) (fun _ _ _ _ h => method_shorter h)
    (fun _ _ h => (methods_eq inherited _).trans (if_neg h))
    (fun _ _ h => (methods_eq inherited _).trans (if_pos (not_not.mp h))) p ts

theorem traces_importEntry (package : String) :
    Traces EntryTree.tokens p (fun rest => importEntry package ⟨p, rest⟩) ts := by
  have hSteps := (traces_expect p ts .importWord .importWord rfl).andThen fun _ q rest =>
    (traces_importKind q rest).andThen fun kind q rest =>
    (traces_qualifiedName q rest).andThen fun name q rest =>
    (traces_expect q rest (.mark .semicolon) _ rfl).result fun _ =>
      (⟨kind, if name.toList.contains '.' then name else qualify package name⟩ : Import)
  refine hSteps.map (fun (a, b, c, d) => ⟨a, b, c, d⟩) fun _ => ?_
  simp only [EntryTree.tokens, pairTokens, List.append_assoc]
  rfl

theorem traces_imports (package : String) :
    Traces (List.flatMap EntryTree.tokens) p (fun rest => imports package ⟨p, rest⟩) ts :=
  .many (imports package) (· = some .importWord) (traces_importEntry · · package)
    (fun _ _ _ _ h => importEntry_shorter h)
    (fun _ _ h => (imports_eq package _).trans (if_pos h))
    (fun _ _ h => (imports_eq package _).trans (if_neg h)) p ts

theorem stop?_of_typeParameters (block : Option String) (fault : SyntaxFault)
    (h : typeParameters block = .error fault) : fault.stop? = none := by
  cases block with
  | none => cases h
  | some block =>
      rw [typeParameters] at h
      split at h
      · cases h
      · cases h
        rfl

/-- A definition up to its closing brace, with what follows it. -/
def definition (c : Cursor) : Except SyntaxFault (Interface × Cursor) := do
  let (_, c) ← c.expect .package
  let (package, c) ← qualifiedName c
  let (_, c) ← c.expect (.mark .semicolon)
  let (imports, c) ← imports package c
  let (javadoc, c) := c.accept .javadoc
  let (modifiers, c) := modifiers [] c.position c.rest
  let (_, c) ← c.expect .interface
  let (name, c) ← c.expect .interfaceName
  let (typeBlock, c) := c.accept .typeBlock
  let typeParameters ← typeParameters typeBlock
  let (_, c) ← c.expect (.mark .openBrace)
  let (methods, c) ← methods modifiers c
  let (_, c) ← c.expect (.mark .closeBrace)
  return ({ package, imports, javadoc, modifiers, name, typeBlock, typeParameters, methods }, c)

theorem file_eq (c : Cursor) : file c = (do
    let (i, d) ← definition c
    if !d.rest.isEmpty then throw (.trailing d.position)
    return i) := by
  simp only [file, definition, bind_assoc, pure_bind]

theorem file_of_error {c : Cursor} {fault : SyntaxFault} (h : definition c = .error fault) :
    file c = .error fault := by
  rw [file_eq, h]
  rfl

theorem file_of_nil {c : Cursor} {i : Interface} {p : Nat} (h : definition c = .ok (i, ⟨p, []⟩)) :
    file c = .ok i := by
  rw [file_eq, h]
  rfl

theorem file_of_cons {c : Cursor} {i : Interface} {p : Nat} {t : Token} {ts : List Token}
    (h : definition c = .ok (i, ⟨p, t :: ts⟩)) : file c = .error (.trailing p) := by
  rw [file_eq, h]
  rfl

theorem traces_definition :
    Traces DefinitionTree.tokens p (fun rest => definition ⟨p, rest⟩) ts := by
  have hSteps := (traces_expect p ts .package .packageWord rfl).andThen fun _ q rest =>
    (traces_qualifiedName q rest).andThen fun package q rest =>
    (traces_expect q rest (.mark .semicolon) _ rfl).andThen fun _ q rest =>
    (traces_imports q rest package).andThen fun imports q rest =>
    (traces_accept q rest .javadoc).andThen fun javadoc q rest =>
    (traces_modifiers q rest []).andThen fun modifiers q rest =>
    (traces_expect q rest .interface .interfaceWord rfl).andThen fun _ q rest =>
    (traces_expect q rest .interfaceName .name rfl).andThen fun name q rest =>
    (traces_accept q rest .typeBlock).andThen fun typeBlock q rest =>
    .guard (stop?_of_typeParameters typeBlock) fun typeParameters =>
    (traces_expect q rest (.mark .openBrace) _ rfl).andThen fun _ q rest =>
    (traces_methods q rest modifiers).andThen fun methods q rest =>
    (traces_expect q rest (.mark .closeBrace) _ rfl).result fun _ =>
      ({ package, imports, javadoc, modifiers, name, typeBlock, typeParameters, methods } :
        Interface)
  refine hSteps.map (fun (a, b, c, d, e, f, g, h, i, j, k, l) =>
    ⟨a, b, c, d, e, f, g, h, i, j, k, l⟩) fun _ => ?_
  simp only [DefinitionTree.tokens, pairTokens, List.append_assoc]
  rfl

variable {ts}

/-- The tokens of a file that was read have a derivation. -/
theorem exists_tree_of_file {c : Cursor} {i : Interface} (h : file c = .ok i) :
    ∃ t : DefinitionTree, t.tokens = c.rest := by
  obtain ⟨p, ts⟩ := c
  cases hRead : definition ⟨p, ts⟩ with
  | error fault =>
      rw [file_of_error hRead] at h
      cases h
  | ok r =>
      obtain ⟨i', q, rest⟩ := r
      obtain ⟨t, hTokens, -, -⟩ := (traces_definition p ts).takes _ _ hRead
      cases rest with
      | nil => exact ⟨t, by rw [hTokens, List.append_nil]⟩
      | cons u rest =>
          rw [file_of_cons hRead] at h
          cases h

/-- A file stops behind the beginning of a definition at another token than the wanted one, or
behind a whole definition at any token. It stops there in the same way if other tokens follow. -/
theorem stops_of_file {fault : SyntaxFault} (h : file ⟨0, ts⟩ = .error fault)
    (hStop : fault.stop? ≠ none) :
    ∃ taken rest, ts = taken ++ rest ∧ (∃ t : DefinitionTree, taken <+: t.tokens) ∧
      ((∃ wanted, fault = .expected wanted taken.length (rest.head?.map Token.value)) ∨
        fault = .trailing taken.length ∧ rest ≠ [] ∧ ∃ t : DefinitionTree, t.tokens = taken) ∧
      ∀ us, AlikeAhead rest us → file ⟨0, taken ++ us⟩ = .error fault := by
  cases hRead : definition ⟨0, ts⟩ with
  | error fault' =>
      rw [file_of_error hRead] at h
      cases h
      obtain ⟨wanted, taken, rest, hTokens, hFault, hTree, hAlike⟩ :=
        (traces_definition 0 ts).stops fault hRead hStop
      rw [Nat.zero_add] at hFault
      exact ⟨taken, rest, hTokens, hTree, .inl ⟨wanted, hFault⟩, fun us hus =>
        file_of_error (hAlike us hus)⟩
  | ok r =>
      obtain ⟨i, q, rest⟩ := r
      obtain ⟨t, hTokens, hPosition, hAlike⟩ := (traces_definition 0 ts).takes _ _ hRead
      rw [Nat.zero_add] at hPosition
      cases rest with
      | nil =>
          rw [file_of_nil hRead] at h
          cases h
      | cons u rest =>
          rw [file_of_cons hRead] at h
          cases h
          refine ⟨t.tokens, u :: rest, hTokens, ⟨t, List.prefix_refl _⟩,
            .inr ⟨congrArg _ hPosition, List.cons_ne_nil _ _, t, rfl⟩, fun us hus => ?_⟩
          obtain ⟨us, rfl⟩ := hus.exists_cons
          exact file_of_cons (hAlike _ hus)

end Interface.Parse

end BinderIdl
