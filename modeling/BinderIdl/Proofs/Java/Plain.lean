import BinderIdl.Proofs.Java.Nesting
import BinderIdl.Proofs.Marshal.Temporary

/-! Code of plain words. Names, types and the words of the templates have none of the
characters that structure a file. A tree with plain words only has a text in which every
brace is one of the tree's own, so the text ends at the depth where it starts. -/
namespace BinderIdl.Java

/-- The characters that open or close a part of a file, or hide a part of it. -/
def isStructural (c : Char) : Bool :=
  c == '\x7b' || c == '\x7d' || c == '\x22' || c == '/' || c == '\x5c'

/-- A text without characters that structure a file. -/
def Plain (s : String) : Prop := ∀ c ∈ s.toList, isStructural c = false

instance (s : String) : Decidable (Plain s) :=
  List.decidableBAll (fun c => isStructural c = false) s.toList

variable {s t : String} {cs : List Char}

@[simp] theorem plain_append : Plain (s ++ t) ↔ Plain s ∧ Plain t := by
  simp only [Plain, String.toList_append, List.forall_mem_append]

theorem plain_ofList : Plain (String.ofList cs) ↔ ∀ c ∈ cs, isStructural c = false := by
  rw [Plain, String.toList_ofList]

/-- Fixed characters are looked at one by one. -/
theorem forall_plain_of_all (h : (cs.all fun c => !isStructural c) = true) :
    ∀ c ∈ cs, isStructural c = false := by
  simpa using h

/-- A fixed text is plain if all its characters are. -/
theorem plain_literal (h : (cs.all fun c => !isStructural c) = true) : Plain (String.ofList cs) :=
  plain_ofList.mpr (forall_plain_of_all h)

theorem Plain.not_mem (h : Plain s) {c : Char} (hc : isStructural c = true) : c ∉ s.toList := by
  intro hMem
  rw [h c hMem] at hc
  cases hc

/-- What holds of the characters of all parts and of the separator holds of a joined text. -/
theorem forall_mem_join {P : Char → Prop} {separator : String} {parts : List String}
    (hSeparator : ∀ c ∈ separator.toList, P c) (h : ∀ part ∈ parts, ∀ c ∈ part.toList, P c) :
    ∀ c ∈ (Text.join separator parts).toList, P c := by
  fun_induction Text.join separator parts with
  | case1 => nofun
  | case2 part => exact h part List.mem_cons_self
  | case3 part parts _ ih =>
      rw [List.forall_mem_cons] at h
      simp only [String.toList_append, List.forall_mem_append]
      exact ⟨⟨h.1, hSeparator⟩, ih h.2⟩

theorem plain_join {separator : String} {parts : List String} (hSeparator : Plain separator)
    (h : ∀ part ∈ parts, Plain part) : Plain (Text.join separator parts) :=
  forall_mem_join hSeparator h

/-- Numbers are plain. -/
theorem plain_toString (n : Nat) : Plain (toString n) := by
  intro c hc
  have hDigit := isDigit_of_mem_toString hc
  rw [Bool.eq_false_iff]
  intro hStructural
  simp only [isStructural, Bool.or_eq_true, beq_iff_eq] at hStructural
  rcases hStructural with (((rfl | rfl) | rfl) | rfl) | rfl <;> cases hDigit

theorem plain_toString_int (n : Int) : Plain (toString n) := by
  rw [Int.toString_eq_repr, Int.repr_eq_if]
  split
  · exact plain_toString n.toNat
  · rw [plain_append]
    exact ⟨by decide, plain_toString (-n).toNat⟩

theorem plain_pad (depth : Nat) : Plain (Stmt.pad depth) := by
  rw [Stmt.pad, plain_ofList]
  intro c hc
  rw [Text.spaces, List.mem_replicate] at hc
  rw [hc.2]
  rfl

/-- Code without comments and literals, and its braces. -/
structure Code (s : String) (bs : List Char) : Prop where
  calm : Calm s.toList
  braces_eq : braces s.toList = bs

namespace Code

variable {bs bs' : List Char}

theorem append (h : Code s bs) (h' : Code t bs') : Code (s ++ t) (bs ++ bs') := by
  constructor
  · rw [String.toList_append]
    exact h.calm.append h'.calm
  · rw [String.toList_append, braces_append, h.braces_eq, h'.braces_eq]

/-- A fixed text. -/
theorem text (hSlash : '/' ∉ s.toList := by decide) (hQuote : '\x22' ∉ s.toList := by decide) :
    Code s (braces s.toList) :=
  ⟨.of_not_mem hSlash hQuote, rfl⟩

theorem word (h : Plain s) : Code s [] := by
  refine ⟨.of_not_mem (h.not_mem rfl) (h.not_mem rfl), ?_⟩
  rw [braces, List.filter_eq_nil_iff]
  intro c hc hBrace
  have hOther := h c hc
  rw [isStructural, hBrace] at hOther
  cases hOther

theorem of_eq (h : Code s bs) (hBraces : bs = bs' := by decide) : Code s bs' := hBraces ▸ h

theorem hang (h : Code s bs) (width : Nat) : Code (Text.hang width s) bs :=
  ⟨calm_hang h.calm width, by rw [braces_hang, h.braces_eq]⟩

theorem nests {d e : Nat} (h : Code s bs) (hDepth : depth? d bs = some e) : Nests s d e :=
  .of_calm h.calm (by rw [h.braces_eq, hDepth])

theorem steps {d e : Nat} (h : Code s bs) (hDepth : depth? d bs = some e) : Steps [s] d e :=
  .singleton h.calm (by rw [h.braces_eq, hDepth])

theorem even {d : Nat} (h : Code s []) : Steps [s] d d := h.steps rfl

theorem opens {d : Nat} (h : Code s ['\x7b']) : Steps [s] d (d + 1) := h.steps rfl

theorem closes {d : Nat} (h : Code s ['\x7d']) : Steps [s] (d + 1) d := h.steps rfl

end Code

theorem code_pad (depth : Nat) : Code (Stmt.pad depth) [] := .word (plain_pad depth)

theorem code_join {separator : String} {parts : List String} (hSeparator : Code separator [])
    (h : ∀ part ∈ parts, Code part []) : Code (Text.join separator parts) [] := by
  fun_induction Text.join separator parts with
  | case1 => exact .of_eq .text
  | case2 part => exact h part List.mem_cons_self
  | case3 part parts _ ih =>
      rw [List.forall_mem_cons] at h
      exact ((h.1.append hSeparator).append (ih h.2)).of_eq

/-- The text of lines of code has their braces. -/
theorem code_lines {ls : List String} {d e : Nat} (h : Steps ls d e) :
    Code (Text.join "\n" ls) (ls.flatMap fun l => braces l.toList) := by
  have hCalm := h.calm
  clear h
  fun_induction Text.join "\n" ls with
  | case1 => exact .of_eq .text
  | case2 l =>
      rw [List.flatMap_singleton]
      exact ⟨hCalm l List.mem_cons_self, rfl⟩
  | case3 l ls _ ih =>
      rw [List.forall_mem_cons] at hCalm
      have hFirst : Code l (braces l.toList) := ⟨hCalm.1, rfl⟩
      have hFeed : Code "\n" [] := .of_eq .text
      rw [List.flatMap_cons, ← List.append_nil (braces l.toList)]
      exact (hFirst.append hFeed).append (ih hCalm.2)

namespace Expr

mutual

/-- All words of an expression are plain. -/
@[simp] def Plain : Expr → Prop
  | null | int _ => True
  | name text => Java.Plain text
  | field target member => target.Plain ∧ Java.Plain member
  | index target position => target.Plain ∧ position.Plain
  | call target method arguments => target.Plain ∧ Java.Plain method ∧ AllPlain arguments
  | callSelf method arguments => Java.Plain method ∧ AllPlain arguments
  | new type arguments => Java.Plain type ∧ AllPlain arguments
  | newArray element size => Java.Plain element ∧ size.Plain
  | cast type operand => Java.Plain type ∧ operand.Plain
  | binary _ left right => left.Plain ∧ right.Plain
  | conditional condition yes no => condition.Plain ∧ yes.Plain ∧ no.Plain
  | preIncrement target | postIncrement target => target.Plain
  | paren inner => inner.Plain

/-- All words of some expressions are plain. -/
@[simp] def AllPlain : List Expr → Prop
  | [] => True
  | e :: es => e.Plain ∧ AllPlain es

end

/-- The sign of an operator stands between blanks, so that a slash divides. -/
theorem code_sign (operator : Operator) : Code (" " ++ operator.sign ++ " ") [] := by
  cases operator with
  | divide => exact ⟨.cons (by decide) (by decide) (.slash .nil), rfl⟩
  | equal | notEqual | less | greater | greaterEqual | and | times => exact .of_eq .text

mutual

/-- An expression of plain words has no braces. -/
theorem code_text : ∀ e : Expr, e.Plain → Code e.text []
  | null, _ => .of_eq .text
  | int value, _ => .word (plain_toString_int value)
  | name _, h => .word h
  | field target _, h => ((code_text target h.1).append .text).append (.word h.2) |>.of_eq
  | index target position, h =>
      ((code_text target h.1).append .text).append (code_text position h.2) |>.append .text |>.of_eq
  | call target _ arguments, h =>
      ((code_text target h.1).append .text).append (.word h.2.1) |>.append .text |>.append
        (code_texts arguments h.2.2) |>.append .text |>.of_eq
  | callSelf _ arguments, h =>
      ((Code.word h.1).append .text).append (code_texts arguments h.2) |>.append .text |>.of_eq
  | new _ arguments, h =>
      (Code.append .text (.word h.1)).append .text |>.append (code_texts arguments h.2) |>.append
        .text |>.of_eq
  | newArray _ size, h =>
      (Code.append .text (.word h.1)).append .text |>.append (code_text size h.2) |>.append .text
        |>.of_eq
  | cast _ operand, h =>
      (Code.append .text (.word h.1)).append .text |>.append (code_text operand h.2) |>.of_eq
  | binary operator left right, h => by
      have hText : (binary operator left right).text =
          left.text ++ (" " ++ operator.sign ++ " ") ++ right.text := by
        simp only [text, String.append_assoc]
      rw [hText]
      exact ((code_text left h.1).append (code_sign operator)).append (code_text right h.2)
  | conditional condition yes no, h =>
      ((code_text condition h.1).append .text).append (code_text yes h.2.1) |>.append .text
        |>.append (code_text no h.2.2) |>.of_eq
  | preIncrement target, h => Code.append .text (code_text target h) |>.of_eq
  | postIncrement target, h => (code_text target h).append .text |>.of_eq
  | paren inner, h => (Code.append .text (code_text inner h)).append .text |>.of_eq

theorem code_texts : ∀ es : List Expr, AllPlain es → Code (texts es) []
  | [], _ => .of_eq .text
  | [e], h => code_text e h.1
  | e :: e' :: es, h =>
      ((code_text e h.1).append .text).append (code_texts (e' :: es) h.2) |>.of_eq

end

end Expr

namespace Stmt

mutual

/-- All words of a statement are plain. -/
@[simp] def Plain : Stmt → Prop
  | declare _ type name none => Java.Plain type ∧ Java.Plain name
  | declare _ type name (some value) => Java.Plain type ∧ Java.Plain name ∧ value.Plain
  | assign target value => target.Plain ∧ value.Plain
  | run expression => expression.Plain
  | branch condition yes no => condition.Plain ∧ AllPlain yes ∧ AllPlain no
  | count start condition step body =>
      (∀ p ∈ start, Java.Plain p.1 ∧ p.2.Plain) ∧ condition.Plain ∧ step.Plain ∧ AllPlain body
  | each _ type name elements body =>
      Java.Plain type ∧ Java.Plain name ∧ elements.Plain ∧ AllPlain body
  | loop body condition => AllPlain body ∧ condition.Plain
  | inset body => AllPlain body

/-- All words of a block are plain. -/
@[simp] def AllPlain : List Stmt → Prop
  | [] => True
  | s :: ss => s.Plain ∧ AllPlain ss

end

theorem plain_finality (final : Bool) : Java.Plain (finality final) := by
  cases final <;> decide

theorem code_startText {start : List (String × Expr)}
    (h : ∀ p ∈ start, Java.Plain p.1 ∧ p.2.Plain) : Code (startText start) [] := by
  apply code_join
  · exact .of_eq .text
  · intro part hPart
    obtain ⟨p, hp, rfl⟩ := List.mem_map.mp hPart
    exact (Code.append (.word (h p hp).1) .text).append (p.2.code_text (h p hp).2) |>.of_eq

variable {ls : List String} {head tail : String}

/-- Lines between a line that opens a block and one that closes it. -/
theorem steps_block {d : Nat} (hHead : Code head ['\x7b']) (hBody : Steps ls (d + 1) (d + 1))
    (hTail : Code tail ['\x7d']) : Steps ([head] ++ ls ++ [tail]) d d :=
  (hHead.opens.append hBody).append hTail.closes

mutual

/-- A statement of plain words ends at the depth where it starts. -/
theorem steps_lines : ∀ (s : Stmt) (depth d : Nat), s.Plain → Steps (s.lines depth) d d
  | declare final _ _ none, depth, d, h => by
      rw [lines]
      exact Code.even <| .of_eq <| (code_pad depth).append (.word (plain_finality final))
        |>.append (.word h.1) |>.append .text |>.append (.word h.2) |>.append .text
  | declare final _ _ (some value), depth, d, h => by
      rw [lines]
      exact Code.even <| .of_eq <| (code_pad depth).append (.word (plain_finality final))
        |>.append (.word h.1) |>.append .text |>.append (.word h.2.1) |>.append .text
        |>.append (value.code_text h.2.2) |>.append .text
  | assign target value, depth, d, h => by
      rw [lines]
      exact Code.even <| .of_eq <| (code_pad depth).append (target.code_text h.1) |>.append .text
        |>.append (value.code_text h.2) |>.append .text
  | run e, depth, d, h => by
      rw [lines]
      exact Code.even <| .of_eq <| (code_pad depth).append (e.code_text h) |>.append .text
  | branch condition yes no, depth, d, h => by
      have hHead : Code (pad depth ++ "if (" ++ condition.text ++ ") \x7b") ['\x7b'] :=
        .of_eq <| (code_pad depth).append .text |>.append (condition.code_text h.1) |>.append .text
      have hClose : Code (pad depth ++ "\x7d") ['\x7d'] := .of_eq ((code_pad depth).append .text)
      have hYes := steps_allLines yes (depth + 1) (d + 1) h.2.1
      rw [lines]
      by_cases hNo : no.isEmpty = true
      · rw [if_pos hNo, List.append_nil]
        exact steps_block hHead hYes hClose
      · have hElse : Code (pad depth ++ "\x7d else \x7b") ['\x7d', '\x7b'] :=
          .of_eq ((code_pad depth).append .text)
        rw [if_neg hNo]
        exact (hHead.opens.append hYes).append
          ((hElse.steps rfl).append (steps_allLines no (depth + 1) (d + 1) h.2.2))
          |>.append hClose.closes
  | count start condition step body, depth, d, h => by
      rw [lines]
      refine steps_block ?_ (steps_allLines body (depth + 1) (d + 1) h.2.2.2)
        (.of_eq ((code_pad depth).append .text))
      exact .of_eq <| (code_pad depth).append .text |>.append (code_startText h.1) |>.append .text
        |>.append (condition.code_text h.2.1) |>.append .text |>.append (step.code_text h.2.2.1)
        |>.append .text
  | each final _ _ elements body, depth, d, h => by
      rw [lines]
      refine steps_block ?_ (steps_allLines body (depth + 1) (d + 1) h.2.2.2)
        (.of_eq ((code_pad depth).append .text))
      exact .of_eq <| (code_pad depth).append .text |>.append (.word (plain_finality final))
        |>.append (.word h.1) |>.append .text |>.append (.word h.2.1) |>.append .text
        |>.append (elements.code_text h.2.2.1) |>.append .text
  | loop body condition, depth, d, h => by
      rw [lines]
      refine steps_block (.of_eq ((code_pad depth).append .text))
        (steps_allLines body (depth + 1) (d + 1) h.1) ?_
      exact .of_eq <| (code_pad depth).append .text |>.append (condition.code_text h.2)
        |>.append .text
  | inset body, depth, d, h => by
      -- The finished text is set in as a whole, and has the braces of the block.
      have hBlock : ∀ d, Steps (block 0 body) d d := fun d => steps_allLines body 0 d h
      have hText := (code_pad depth).append ((code_lines (hBlock 0)).hang (4 * depth))
      rw [lines]
      exact hText.steps (hBlock d).depth

theorem steps_allLines : ∀ (body : List Stmt) (depth d : Nat), AllPlain body →
    Steps (block depth body) d d
  | [], _, _, _ => by
      rw [block]
      exact .nil
  | s :: ss, depth, d, h => by
      rw [block]
      exact (steps_lines s depth d h.1).append (steps_allLines ss depth d h.2)

end

end Stmt

namespace Fragment

/-- All words of a piece of code are plain. -/
def Plain : Fragment → Prop
  | nothing => True
  | initializer value => value.Plain
  | deferred body | statements body => Stmt.AllPlain body

@[simp] theorem plain_nothing : nothing.Plain := trivial

@[simp] theorem plain_initializer (e : Expr) : (initializer e).Plain ↔ e.Plain := Iff.rfl

@[simp] theorem plain_deferred (body : List Stmt) :
    (deferred body).Plain ↔ Stmt.AllPlain body := Iff.rfl

@[simp] theorem plain_statements (body : List Stmt) :
    (statements body).Plain ↔ Stmt.AllPlain body := Iff.rfl

@[simp] theorem plain_run (e : Expr) : (run e).Plain ↔ e.Plain := by
  simp [run]

/-- A piece of code of plain words ends at the depth where it starts. -/
theorem code_text {f : Fragment} (h : f.Plain) :
    ∃ bs, Code f.text bs ∧ ∀ d, depth? d bs = some d := by
  cases f with
  | nothing => exact ⟨[], .of_eq .text, fun _ => rfl⟩
  | initializer value =>
      exact ⟨[], .of_eq ((Code.append .text (value.code_text h)).append .text), fun _ => rfl⟩
  | deferred body =>
      have hBlock := fun d => Stmt.steps_allLines body 0 d h
      exact ⟨_, Code.append .text (code_lines (hBlock 0)), fun d => (hBlock d).depth⟩
  | statements body =>
      have hBlock := fun d => Stmt.steps_allLines body 0 d h
      exact ⟨_, code_lines (hBlock 0), fun d => (hBlock d).depth⟩

end Fragment

end BinderIdl.Java
