import BinderIdl.Java.Stmt
import BinderIdl.Proofs.Java.Bare

/-! Nested braces. A text leads from a depth of braces to another one, and texts are put
together where the depths meet. Code is followed line by line; setting it in behind some
columns moves its lines but neither adds nor removes a brace. -/
namespace BinderIdl.Java

variable {cs cs' : List Char} {d e f : Nat}

/-- The braces of a text, in order. -/
def braces (cs : List Char) : List Char := cs.filter fun c => c == '\x7b' || c == '\x7d'

@[simp] theorem braces_append (cs cs' : List Char) : braces (cs ++ cs') = braces cs ++ braces cs' :=
  List.filter_append ..

theorem braces_cons (c : Char) (cs : List Char) : braces (c :: cs) = braces [c] ++ braces cs :=
  braces_append [c] cs

theorem braces_flatMap {α : Type} (f : α → List Char) (xs : List α) :
    braces (xs.flatMap f) = xs.flatMap fun x => braces (f x) :=
  List.filter_flatMap ..

/-- The depth behind a character. No brace closes what none has opened. -/
def nest (d : Nat) (c : Char) : Option Nat :=
  if c = '\x7b' then some (d + 1)
  else if c = '\x7d' then if d = 0 then none else some (d - 1)
  else some d

/-- The depth behind a text. -/
def depth? (d : Nat) (cs : List Char) : Option Nat := cs.foldlM nest d

@[simp] theorem depth?_nil (d : Nat) : depth? d [] = some d := rfl

theorem depth?_cons (d : Nat) (c : Char) (cs : List Char) :
    depth? d (c :: cs) = (nest d c).bind fun e => depth? e cs := by
  rw [depth?, List.foldlM_cons]
  rfl

theorem depth?_append (d : Nat) (cs cs' : List Char) :
    depth? d (cs ++ cs') = (depth? d cs).bind fun e => depth? e cs' :=
  List.foldlM_append

/-- Only braces change the depth. -/
theorem depth?_braces (d : Nat) (cs : List Char) : depth? d (braces cs) = depth? d cs := by
  induction cs generalizing d with
  | nil => rfl
  | cons c cs ih =>
      rw [braces, List.filter_cons, depth?_cons]
      split
      · rw [depth?_cons]
        exact congrArg _ (funext ih)
      · rename_i hOther
        have hNest : nest d c = some d := by
          simp only [Bool.or_eq_true, beq_iff_eq, not_or] at hOther
          rw [nest, if_neg hOther.1, if_neg hOther.2]
        rw [hNest]
        exact ih d

/-- The depth counts the braces. -/
theorem count_of_depth? (h : depth? d cs = some e) :
    d + cs.count '\x7b' = e + cs.count '\x7d' := by
  induction cs generalizing d with
  | nil =>
      cases h
      rfl
  | cons c cs ih =>
      rw [depth?_cons] at h
      obtain ⟨d', hStep, hRest⟩ := Option.bind_eq_some_iff.mp h
      have hCount := ih hRest
      rw [nest] at hStep
      split at hStep
      · subst c
        cases hStep
        simp only [List.count_cons_self, List.count_cons_of_ne (by decide : '\x7b' ≠ '\x7d')]
        omega
      split at hStep
      · subst c
        split at hStep
        · cases hStep
        · cases hStep
          simp only [List.count_cons_self, List.count_cons_of_ne (by decide : '\x7d' ≠ '\x7b')]
          omega
      · rename_i hOpen hClose
        cases hStep
        rw [List.count_cons_of_ne hOpen, List.count_cons_of_ne hClose]
        exact hCount

/-- A text that ends at the depth where it starts, without closing anything else, has as
many opening as closing braces, and no beginning of it has fewer. -/
theorem nested_of_depth? (h : depth? 0 cs = some 0) :
    cs.count '\x7b' = cs.count '\x7d' ∧ ∀ p, p <+: cs → p.count '\x7d' ≤ p.count '\x7b' := by
  constructor
  · have := count_of_depth? h
    omega
  · rintro p ⟨rest, rfl⟩
    rw [depth?_append] at h
    obtain ⟨e, hPrefix, -⟩ := Option.bind_eq_some_iff.mp h
    have := count_of_depth? hPrefix
    omega

/-- A text that leads from a depth to another one, wherever it stands. -/
def Nests (s : String) (d e : Nat) : Prop :=
  ∃ bare, Leaves s.toList bare ∧ depth? d bare = some e

namespace Nests

variable {s t : String}

theorem append (hs : Nests s d e) (ht : Nests t e f) : Nests (s ++ t) d f := by
  obtain ⟨bare, hLeaves, hDepth⟩ := hs
  obtain ⟨bare', hLeaves', hDepth'⟩ := ht
  refine ⟨bare ++ bare', ?_, ?_⟩
  · rw [String.toList_append]
    exact hLeaves.append hLeaves'
  · rw [depth?_append, hDepth]
    exact hDepth'

theorem of_calm (hCalm : Calm s.toList) (hDepth : depth? d (braces s.toList) = some e) :
    Nests s d e :=
  ⟨s.toList, .of_calm hCalm, by rw [← depth?_braces, hDepth]⟩

theorem comment (h : IsComment s.toList) : Nests s d d := ⟨[], .comment h, rfl⟩

theorem literal (hQuote : '\x22' ∉ s.toList) (hBackslash : '\x5c' ∉ s.toList)
    (hSlash : '/' ∉ s.toList) : Nests ("\"" ++ s ++ "\"") d d := by
  refine ⟨['\x22', '\x22'], ?_, rfl⟩
  have hText : ("\"" ++ s ++ "\"").toList = '\x22' :: (s.toList ++ ['\x22']) := by simp
  rw [hText]
  exact .literal hQuote hBackslash hSlash

end Nests

/-- Lines of a text that lead from a depth to another one. -/
def Spans (lines : List String) (d e : Nat) : Prop :=
  Nests (String.join (lines.map fun line => line ++ "\n")) d e

namespace Spans

variable {l : String} {ls ls' : List String}

theorem nil : Spans [] d d := ⟨[], .nil, rfl⟩

theorem append (h : Spans ls d e) (h' : Spans ls' e f) : Spans (ls ++ ls') d f := by
  rw [Spans, List.map_append, String.join_append]
  exact Nests.append h h'

theorem singleton (h : Nests l d e) : Spans [l] d e := by
  have hFeed : Nests "\n" e e := .of_calm (.of_not_mem (by decide) (by decide)) rfl
  have hJoin : String.join (([l] : List String).map fun line => line ++ "\n") = l ++ "\n" := by
    simp [String.join]
  rw [Spans, hJoin]
  exact h.append hFeed

theorem cons (h : Nests l d e) (h' : Spans ls e f) : Spans (l :: ls) d f :=
  (singleton h).append h'

theorem flatMap {α : Type} {lines : α → List String} {xs : List α}
    (h : ∀ x ∈ xs, Spans (lines x) d d) : Spans (xs.flatMap lines) d d := by
  induction xs with
  | nil => exact nil
  | cons x xs ih =>
      rw [List.forall_mem_cons] at h
      exact h.1.append (ih h.2)

end Spans

/-- Lines of code, without comments and literals, that lead from a depth to another one. -/
structure Steps (lines : List String) (d e : Nat) : Prop where
  calm : ∀ l ∈ lines, Calm l.toList
  depth : depth? d (lines.flatMap fun l => braces l.toList) = some e

namespace Steps

variable {l : String} {ls ls' : List String}

theorem nil : Steps [] d d := ⟨by simp, rfl⟩

theorem append (h : Steps ls d e) (h' : Steps ls' e f) : Steps (ls ++ ls') d f := by
  refine ⟨fun l hl => ?_, ?_⟩
  · obtain hl | hl := List.mem_append.mp hl
    · exact h.calm l hl
    · exact h'.calm l hl
  · rw [List.flatMap_append, depth?_append, h.depth]
    exact h'.depth

theorem singleton (hCalm : Calm l.toList) (hDepth : depth? d (braces l.toList) = some e) :
    Steps [l] d e := by
  refine ⟨?_, ?_⟩
  · rwa [List.forall_mem_singleton]
  · rwa [List.flatMap_singleton]

end Steps

theorem calm_spaces (width : Nat) : Calm (Text.spaces width) := by
  apply Calm.of_not_mem <;> simp [Text.spaces, List.mem_replicate]

@[simp] theorem braces_spaces (width : Nat) : braces (Text.spaces width) = [] := by
  rw [braces, List.filter_eq_nil_iff]
  intro c hc
  rw [Text.spaces, List.mem_replicate] at hc
  simp [hc.2]

/-- A character that breaks no line is put in front of the first line. -/
theorem lines_cons {c : Char} (hBreak : Text.isLineBreak c = false) (cs : List Char) :
    Text.lines (c :: cs) =
      ((c :: (Text.lines cs).headD []) :: (Text.lines cs).tail) := by
  have hReturn : c ≠ '\r' := by
    rintro rfl
    cases hBreak
  rw [Text.lines, if_neg (by rw [hBreak]; decide)]
  · cases Text.lines cs <;> rfl
  · exact fun _ h => absurd h hReturn

theorem lines_break {c : Char} (hBreak : Text.isLineBreak c = true)
    (hReturn : ¬(c = '\r' ∧ cs.head? = some '\n')) : Text.lines (c :: cs) = [] :: Text.lines cs := by
  rw [Text.lines, if_pos hBreak]
  rintro rest rfl rfl
  exact hReturn ⟨rfl, rfl⟩

/-- A line break leaves calm code on both sides. -/
theorem Calm.lines (h : Calm cs) : ∀ l ∈ Text.lines cs, Calm l := by
  have hHead : ∀ {ls : List (List Char)}, (∀ l ∈ ls, Calm l) → Calm (ls.headD []) := by
    intro ls hAll
    cases ls with
    | nil => exact .nil
    | cons l ls => exact hAll l List.mem_cons_self
  induction h with
  | nil => simp [Text.lines]
  | @slash cs hRest ih =>
      rw [lines_cons (by decide), lines_cons (by decide), List.forall_mem_cons]
      exact ⟨.slash (hHead ih), fun l hl => ih l (List.mem_of_mem_tail hl)⟩
  | @cons c cs hSlash hQuote hRest ih =>
      cases hBreak : Text.isLineBreak c with
      | false =>
          rw [lines_cons hBreak, List.forall_mem_cons]
          exact ⟨.cons hSlash hQuote (hHead ih), fun l hl => ih l (List.mem_of_mem_tail hl)⟩
      | true =>
          by_cases hReturn : c = '\r' ∧ cs.head? = some '\n'
          · obtain ⟨rfl, hFeed⟩ := hReturn
            obtain ⟨rest, rfl⟩ := List.head?_eq_some_iff.mp hFeed
            rw [lines_break rfl fun h => absurd h.1 (by decide)] at ih
            rw [Text.lines]
            exact ih
          · rw [lines_break hBreak hReturn, List.forall_mem_cons]
            exact ⟨.nil, ih⟩

/-- The lines of a text have its braces. -/
theorem braces_lines (cs : List Char) : (Text.lines cs).flatMap braces = braces cs := by
  fun_induction Text.lines cs with
  | case1 => rfl
  | case2 cs ih => exact ih
  | case3 c cs _ hBreak ih =>
      rw [List.flatMap_cons, ih, braces, List.filter_nil, List.nil_append, braces, braces,
        List.filter_cons_of_neg]
      rintro hBrace
      simp only [Bool.or_eq_true, beq_iff_eq] at hBrace
      rcases hBrace with rfl | rfl <;> cases hBreak
  | case4 c cs _ hBreak hNil ih =>
      rw [hNil, List.flatMap_nil] at ih
      rw [List.flatMap_singleton, braces_cons c cs, ← ih, List.append_nil]
  | case5 c cs _ hBreak l ls hCons ih =>
      rw [hCons, List.flatMap_cons] at ih
      rw [List.flatMap_cons, braces_cons c l, braces_cons c cs, List.append_assoc, ih]

/-- Code that is set in behind some columns is the same code. -/
theorem calm_hang {s : String} (h : Calm s.toList) (width : Nat) :
    Calm (Text.hang width s).toList := by
  have hFeed : Calm ['\n'] := .of_not_mem (by decide) (by decide)
  have hAll := (h.append hFeed).lines
  rw [Text.hang]
  split
  · exact .nil
  · rename_i first later hLines
    rw [hLines, List.forall_mem_cons] at hAll
    rw [String.toList_ofList]
    refine hAll.1.append (.flatMap fun l hl => ?_)
    have hLater : Calm (if l.isEmpty then [] else Text.spaces width ++ l) := by
      split
      · exact .nil
      · exact (calm_spaces width).append (hAll.2 l hl)
    exact .cons (by decide) (by decide) hLater

theorem braces_hang (width : Nat) (s : String) :
    braces (Text.hang width s).toList = braces s.toList := by
  have hBraces := braces_lines (s.toList ++ ['\n'])
  rw [braces_append, show braces ['\n'] = [] from rfl, List.append_nil] at hBraces
  rw [Text.hang, ← hBraces]
  split
  · rename_i hLines
    rw [hLines]
    rfl
  · rename_i first later hLines
    have hMoved : ∀ l : List Char,
        braces ('\n' :: if l.isEmpty then [] else Text.spaces width ++ l) = braces l := by
      intro l
      cases l with
      | nil => rfl
      | cons c cs =>
          rw [braces_cons]
          simp [show braces ['\n'] = [] from rfl]
    rw [hLines, String.toList_ofList, List.flatMap_cons, braces_append, braces_flatMap]
    exact congrArg _ (congrArg later.flatMap (funext hMoved))

end BinderIdl.Java
