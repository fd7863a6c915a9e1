import BinderIdl.Proofs.Interface.Unplaced
import BinderIdl.Proofs.Token.Segmentation
import BinderIdl.Proofs.TypeName.Respacing

/-! The layout of a text. The tokens of a text, written in order with blanks between them,
are read into the same tokens again, whatever stood between them before: comments and blanks
carry no meaning. -/
namespace BinderIdl

open Text (AllBlank)

/-- The class and the text of the token that a lexeme is, if it is one. -/
def Lexeme.key? (l : Lexeme) : Option (TokenClass × String) :=
  match l.cls with
  | .token cls => some (cls, String.ofList l.text)
  | _ => none

theorem Lexeme.key?_token {l : Lexeme} {cls : TokenClass} (h : l.cls = .token cls) :
    l.key? = some (cls, String.ofList l.text) := by
  rw [key?, h]

theorem Lexeme.key?_skip {l : Lexeme}
    (h : l.cls = .blank ∨ l.cls = .lineComment ∨ l.cls = .blockComment) : l.key? = none := by
  rcases h with h | h | h <;> rw [key?, h]

/-- The tokens of lexemes have the classes and texts of those that are tokens, wherever they
stand. -/
theorem TokensOf.map_key {before : List Char} {ls : List Lexeme} {ts : List Token}
    (h : TokensOf before ls ts) : ts.map Token.key = ls.filterMap Lexeme.key? := by
  induction h with
  | nil => rfl
  | skip hCls _ ih => rw [List.filterMap_cons_none (Lexeme.key?_skip hCls), ih]
  | token hCls _ ih =>
      rw [List.filterMap_cons_some (Lexeme.key?_token hCls), List.map_cons, ih]
      rfl

theorem Scan.continuesIdentifier_of_isBlank {c : Char} (h : Text.isBlank c = true) :
    continuesIdentifier c = false := by
  rw [continuesIdentifier, Text.isWord_of_isBlank h, Bool.false_or, beq_eq_false_iff_ne]
  rintro rfl
  cases h

namespace Lexeme.Stands

variable {l : Lexeme} {cls : TokenClass} {rest : List Char}

/-- What is a token in one place is a token before every blank, and at the end of a text. -/
theorem before_blank (h : l.Stands rest) (hCls : l.cls = .token cls) {rest' : List Char}
    (hBlank : ∀ c ∈ rest'.head?, Text.isBlank c = true) : l.Stands rest' := by
  cases h with
  | blank | lineComment | blockComment => cases hCls
  | javadoc hBody hMore => exact .javadoc hBody hMore
  | typeBlock hBlock => exact .typeBlock hBlock
  | mark m => exact .mark m
  | word hStart hWord =>
      exact .word hStart hWord fun d hd => Scan.continuesIdentifier_of_isBlank (hBlank d hd)

/-- No token starts with a blank. -/
theorem head_token (h : l.Stands rest) (hCls : l.cls = .token cls) :
    ∃ c cs, l.text = c :: cs ∧ Text.isBlank c = false := by
  cases h with
  | blank | lineComment | blockComment => cases hCls
  | javadoc | typeBlock => exact ⟨_, _, rfl, by decide⟩
  | mark m => exact ⟨_, _, rfl, by cases m <;> decide⟩
  | word hStart => exact ⟨_, _, rfl, (Scan.of_startsIdentifier hStart).1⟩

end Lexeme.Stands

/-- A class and a text that are those of a token somewhere. -/
def IsToken (key : TokenClass × String) : Prop :=
  ∃ rest, (⟨.token key.1, key.2.toList⟩ : Lexeme).Stands rest

theorem Segmented.isToken {cs : List Char} {ls : List Lexeme} (h : Segmented cs ls) :
    ∀ key ∈ ls.filterMap Lexeme.key?, IsToken key := by
  induction h with
  | nil => simp
  | @cons l ls rest hLexeme _ ih =>
      cases hKey : l.key? with
      | none => rwa [List.filterMap_cons_none hKey]
      | some key =>
          rw [List.filterMap_cons_some hKey, List.forall_mem_cons]
          refine ⟨⟨rest, ?_⟩, ih⟩
          obtain ⟨lexemeClass, text⟩ := l
          cases lexemeClass with
          | token cls =>
              cases hKey
              rwa [String.toList_ofList]
          | blank | lineComment | blockComment => cases hKey

/-- Values in order with blanks behind each of them, and at least one blank between two. -/
inductive LaidOut : List String → List Char → Prop
  | nil : LaidOut [] []
  | cons {value : String} {values : List String} {gap rest : List Char} (hGap : AllBlank gap)
      (hApart : values ≠ [] → gap ≠ []) (hRest : LaidOut values rest) :
      LaidOut (value :: values) (value.toList ++ (gap ++ rest))

/-- The same blanks may stand behind all values. -/
theorem LaidOut.flatMap (gap : List Char) (hGap : AllBlank gap) (hNil : gap ≠ [])
    (values : List String) : LaidOut values (values.flatMap fun value => value.toList ++ gap) := by
  induction values with
  | nil => exact .nil
  | cons value values ih =>
      rw [List.flatMap_cons, List.append_assoc]
      exact .cons hGap (fun _ => hNil) ih

/-- A value is followed by a blank, or by nothing. -/
theorem LaidOut.isBlank_after {values : List String} {gap rest : List Char}
    (h : LaidOut values rest) (hGap : AllBlank gap) (hApart : values ≠ [] → gap ≠ []) :
    ∀ c ∈ (gap ++ rest).head?, Text.isBlank c = true := by
  intro c hc
  cases gap with
  | cons b gap =>
      rw [List.cons_append, List.head?_cons, Option.mem_some_iff] at hc
      exact hGap c (hc ▸ List.mem_cons_self)
  | nil =>
      cases h with
      | nil => cases hc
      | cons => exact absurd rfl (hApart (List.cons_ne_nil _ _))

/-- Blanks before a text are one more lexeme, or none if there are none. -/
theorem Segmented.exists_blank {gap rest : List Char} {ls : List Lexeme} (h : Segmented rest ls)
    (hGap : AllBlank gap) (hRest : ∀ c ∈ rest.head?, Text.isBlank c = false) :
    ∃ ls', Segmented (gap ++ rest) ls' ∧ ls'.filterMap Lexeme.key? = ls.filterMap Lexeme.key? := by
  by_cases hNil : gap = []
  · exact ⟨ls, by rwa [hNil], rfl⟩
  · exact ⟨_, .cons (.blank hNil hGap hRest) h, rfl⟩

/-- Tokens that are laid out are cut into the same tokens again. -/
theorem LaidOut.segmented {keys : List (TokenClass × String)} {cs : List Char}
    (h : LaidOut (keys.map Prod.snd) cs) (hKeys : ∀ key ∈ keys, IsToken key) :
    (∃ ls, Segmented cs ls ∧ ls.filterMap Lexeme.key? = keys) ∧
      ∀ c ∈ cs.head?, Text.isBlank c = false := by
  induction keys generalizing cs with
  | nil =>
      cases h
      exact ⟨⟨[], .nil, rfl⟩, by simp⟩
  | cons key keys ih =>
      rw [List.forall_mem_cons] at hKeys
      cases h with
      | @cons _ _ gap rest hGap hApart hRest =>
        obtain ⟨⟨ls, hLexemes, hSame⟩, hStart⟩ := ih hRest hKeys.2
        obtain ⟨ls', hLexemes', hSame'⟩ := hLexemes.exists_blank hGap hStart
        obtain ⟨after, hStands⟩ := hKeys.1
        have hFollow := hRest.isBlank_after hGap hApart
        refine ⟨⟨_, .cons (hStands.before_blank rfl hFollow) hLexemes', ?_⟩, ?_⟩
        · rw [List.filterMap_cons_some (Lexeme.key?_token rfl), hSame', hSame, String.ofList_toList]
        · obtain ⟨c, text, hText, hBlank⟩ := hStands.head_token rfl
          intro d hd
          simp only at hText
          rw [hText] at hd
          cases hd
          exact hBlank

/-- The values of the tokens of a text, in order, with blanks around them and at least one
between two, are a text with the same tokens, and the same interface or the same fault. -/
theorem read_of_laidOut {filename : Option String} {text : String} {s : Source}
    (hRead : Source.read filename text = .ok s) (filename' : Option String)
    {lead body : List Char} (hLead : AllBlank lead)
    (hBody : LaidOut (s.tokens.map Token.value) body) :
    ∃ s', Source.read filename' (String.ofList (lead ++ body)) = .ok s' ∧
      s'.tokens.map Token.key = s.tokens.map Token.key ∧
      Interface.ofTokens s'.tokens = Interface.ofTokens s.tokens := by
  obtain ⟨-, -, ls, hSegments, hTokens⟩ := Source.segmented_of_read hRead
  have hKeys : s.tokens.map Token.key = ls.filterMap Lexeme.key? := hTokens.map_key
  have hValues : s.tokens.map Token.value = (s.tokens.map Token.key).map Prod.snd := by
    rw [List.map_map]
    rfl
  rw [hValues, hKeys] at hBody
  obtain ⟨⟨ls', hSegments', hSame⟩, hStart⟩ := hBody.segmented hSegments.isToken
  obtain ⟨ls'', hSegments'', hSame'⟩ := hSegments'.exists_blank hLead hStart
  rw [← String.toList_ofList (l := lead ++ body)] at hSegments''
  have hTokens' : TokensOf [] ls'' (Scan.place .start ls'').1 := Scan.place_eq_iff.mp rfl
  have hKeys' : (Scan.place .start ls'').1.map Token.key = s.tokens.map Token.key := by
    rw [hTokens'.map_key, hSame', hSame, hKeys]
  exact ⟨_, Source.read_of_segmented hSegments'' hTokens' filename', hKeys',
    Interface.ofTokens_congr hKeys'⟩

/-- A definition with comments between its tokens, and with marks of comments inside of them. -/
private def annotated : String := "package a;/**/interface I\x7b/***/List<//>f/*;*/();//\n\x7d"

private def annotatedValues : List String :=
  ["package", "a", ";", "interface", "I", "\x7b", "/***/", "List", "<//>", "f", "(", ")", ";",
    "\x7d"]

theorem read_of_laidOut_annotated : ∃ s s',
    Source.read none annotated = .ok s ∧ s.tokens.map Token.value = annotatedValues ∧
    Source.read none (String.ofList
      (['\t'] ++ annotatedValues.flatMap fun value => value.toList ++ [' ', '\n'])) = .ok s' ∧
    s'.tokens.map Token.key = s.tokens.map Token.key ∧
    Interface.ofTokens s'.tokens = Interface.ofTokens s.tokens := by
  have hValues : (Source.read none annotated).toOption.map (·.tokens.map Token.value) =
      some annotatedValues := by
    decide +kernel
  cases hRead : Source.read none annotated with
  | error fault =>
      rw [hRead] at hValues
      cases hValues
  | ok s =>
      rw [hRead] at hValues
      have hSame : s.tokens.map Token.value = annotatedValues := Option.some.inj hValues
      have hBody := LaidOut.flatMap [' ', '\n'] (by decide) (by decide) annotatedValues
      rw [← hSame] at hBody
      obtain ⟨s', h⟩ := read_of_laidOut hRead none (show AllBlank ['\t'] by decide) hBody
      rw [hSame] at h
      exact ⟨s, s', rfl, hSame, h⟩

end BinderIdl
