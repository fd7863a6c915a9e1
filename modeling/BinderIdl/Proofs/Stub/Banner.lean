import BinderIdl.Proofs.Java.Nesting
import BinderIdl.Proofs.Stub.SharedInterface

/-! The banner of a generated file is a comment as long as what it quotes ends no comment.
Then it leaves a line feed in front of the code, and the code is that of the file without a
banner. -/
namespace BinderIdl

open Java

namespace Banner

/-- Nothing that the banner quotes ends a comment. -/
structure Harmless (b : Banner) : Prop where
  sourceName : ∀ name ∈ b.sourceName, ¬['*', '/'] <:+: name.toList
  commandLine : ∀ line ∈ b.commandLine, ¬['*', '/'] <:+: line.toList

/-- An entry stands inside a comment if its value does. -/
theorem inside_entry {label : String} {value : Option String} (hSlash : '/' ∉ label.toList)
    (h : ∀ text ∈ value, ¬['*', '/'] <:+: text.toList) :
    ∀ line ∈ entry label value, Inside (line ++ "\n").toList := by
  cases value with
  | none => simp [entry]
  | some text =>
      have hLabel : Inside (" * " ++ label ++ ": ").toList := by
        apply Inside.of_not_mem
        · simpa using hSlash
        · rw [String.toList_append, List.getLast?_append]
          simp
      intro line hLine
      rw [entry] at hLine
      split at hLine
      · cases hLine
      · rw [List.mem_singleton.mp hLine, String.toList_append, String.toList_append,
          List.append_assoc]
        exact hLabel.append (.line (h text rfl))

/-- What stands between the start and the end of the comment. -/
def remark (b : Banner) : List Char :=
  '\n' :: (" * This file is auto-generated. DO NOT MODIFY.".toList ++ ['\n']) ++
    (entry "Original file" b.sourceName ++ entry "Generated by" b.commandLine).flatMap
      (fun line => (line ++ "\n").toList) ++ [' ']

/-- The lines of a comment as text, whatever stands in it. -/
theorem toList_comment (notice : String) (entries : List String) :
    (String.join ((["/*", notice] ++ entries ++ [" */"]).map fun line => line ++ "\n")).toList =
      '/' :: '*' :: ('\n' :: (notice.toList ++ ['\n']) ++
        entries.flatMap (fun line => (line ++ "\n").toList) ++ [' '] ++ ['*', '/']) ++ ['\n'] := by
  simp [String.toList_join, List.flatMap_map]

theorem toList_text {b : Banner} (hShown : b.shown = true) :
    b.text.toList = '/' :: '*' :: (b.remark ++ ['*', '/']) ++ ['\n'] := by
  rw [text, lines, if_pos hShown, List.append_assoc [_, _], toList_comment, remark]

/-- A banner is a comment and a line feed. -/
theorem leaves_text {b : Banner} (hShown : b.shown = true) (h : b.Harmless) :
    Leaves b.text.toList ['\n'] := by
  have hNotice : Inside ('\n' :: (" * This file is auto-generated. DO NOT MODIFY.".toList ++ ['\n'])) :=
    .of_not_mem (by decide) (by simp)
  have hSource : ∀ line ∈ entry "Original file" b.sourceName, Inside (line ++ "\n").toList :=
    inside_entry (by decide) h.sourceName
  have hCommand : ∀ line ∈ entry "Generated by" b.commandLine, Inside (line ++ "\n").toList :=
    inside_entry (by decide) h.commandLine
  have hEntries := Inside.flatMap (List.forall_mem_append.mpr ⟨hSource, hCommand⟩)
  have hRemark : Inside b.remark :=
    (hNotice.append hEntries).append (.of_not_mem (by decide) (by decide))
  rw [toList_text hShown]
  exact (Leaves.comment hRemark.isComment).append (.char (by decide) (by decide))

/-- A command line can end the comment and start another one. What stands between the two
is code. -/
theorem leaves_escape (before leak : String) (hBefore : Inside before.toList)
    (hLeak : Calm leak.toList) :
    Leaves (text { commandLine := some (before ++ "*/" ++ leak ++ "/*") }).toList
      (leak.toList ++ ['\n']) := by
  have hNotice : Inside ('\n' :: (" * This file is auto-generated. DO NOT MODIFY.".toList ++ ['\n'])) :=
    .of_not_mem (by decide) (by simp)
  have hLabel : Inside " * Generated by: ".toList := .of_not_mem (by decide) (by decide)
  have hFirst := ((hNotice.append hLabel).append hBefore).isComment
  have hSecond : IsComment ['/', '*', '\n', ' ', '*', '/'] := .of_afterComment? rfl
  have hValue : before ++ "*/" ++ leak ++ "/*" ≠ "" := by simp
  have hText : (text { commandLine := some (before ++ "*/" ++ leak ++ "/*") }).toList =
      ('/' :: '*' :: ('\n' :: (" * This file is auto-generated. DO NOT MODIFY.".toList ++ ['\n']) ++
        " * Generated by: ".toList ++ before.toList ++ ['*', '/'])) ++
      (leak.toList ++ (['/', '*', '\n', ' ', '*', '/'] ++ ['\n'])) := by
    rw [toList_text rfl, remark, entry, entry, if_neg hValue]
    simp
  rw [hText]
  exact (Leaves.comment hFirst).append
    ((Leaves.of_calm hLeak).append ((Leaves.comment hSecond).append (.char (by decide) (by decide))))

theorem text_hidden {b : Banner} (hHidden : b.shown = false) : b.text = "" := by
  rw [text, lines, hHidden]
  rfl

end Banner

/-- With and without a banner the same work is done, and the files differ by what the
banner leaves. -/
theorem Writer.bareCode_of_leaves {w : Writer} {i : Interface} {shown : Banner} (hidden : Banner)
    {d e : Desk} {text : String} {bare : List Char} (hLeaves : Leaves shown.text.toList bare)
    (hHidden : hidden.shown = false) (h : w.encodeInterface i shown d = .ok text e) :
    ∃ code, w.encodeInterface i hidden d = .ok code e ∧
      bareCode text.toList = bare ++ bareCode code.toList := by
  obtain ⟨ms, hMethods, rfl⟩ := encodeMethods_of_encodeInterface h
  refine ⟨i.fileText hidden ms, ?_, ?_⟩
  · rw [encodeInterface, Encoding.bind_of_ok hMethods]
    rfl
  · rw [i.fileText_eq, i.fileText_eq, Banner.text_hidden hHidden, String.empty_append,
      String.toList_append]
    exact hLeaves _

/-- A banner that quotes nothing that ends a comment does not reach the code: with and
without it the same work is done, and what counts in the file is the same behind a line
feed. -/
theorem bareCode_of_banner (w : Writer) (i : Interface) (shown hidden : Banner) {d e : Desk}
    {text : String} (hShown : shown.shown = true) (hHidden : hidden.shown = false)
    (hHarmless : shown.Harmless) (h : w.encodeInterface i shown d = .ok text e) :
    ∃ code, w.encodeInterface i hidden d = .ok code e ∧
      bareCode text.toList = '\n' :: bareCode code.toList :=
  Writer.bareCode_of_leaves hidden (Banner.leaves_text hShown hHarmless) hHidden h

/-- A fixed text does not end a comment if its characters do not. -/
theorem not_infix_literal {cs : List Char} (h : ¬['*', '/'] <:+: cs) :
    ¬['*', '/'] <:+: (String.ofList cs).toList := by
  rwa [String.toList_ofList]

private def messenger : Interface where
  package := "demo"
  imports := []
  javadoc := some "/** Sends \x7b anything. */"
  modifiers := []
  name := "IMessenger"
  typeBlock := none
  typeParameters := []
  methods := [{
    name := "send", returnType := "void", arguments := [⟨.inout, "UUID[]", "ids", none⟩]
    modifiers := [], javadoc := none, position := 0, result := none }]

private def quoting : Banner where
  sourceName := some "I \x7b // Messenger.aidl2"
  commandLine := some "idl /* \"--gen=*\" // \x7d"

/-- The starts of comments, quotes and braces in a command line stay in the comment. -/
theorem bareCode_of_banner_messenger :
    quoting.shown = true ∧ quoting.Harmless ∧ ∃ text code e,
      (⟨0, {}⟩ : Writer).encodeInterface messenger quoting {} = .ok text e ∧
      (⟨0, {}⟩ : Writer).encodeInterface messenger { shown := false } {} = .ok code e ∧
      bareCode text.toList = '\n' :: bareCode code.toList := by
  have hHarmless : quoting.Harmless := by
    constructor
    · rintro _ ⟨⟩
      exact not_infix_literal (by decide)
    · rintro _ ⟨⟩
      exact not_infix_literal (by decide)
  obtain ⟨text, e, hText⟩ := Encoding.exists_of_answer
    (show (((⟨0, {}⟩ : Writer).encodeInterface messenger quoting).answer {}).toBool = true by
      decide +kernel)
  obtain ⟨code, hCode, hBare⟩ :=
    bareCode_of_banner ⟨0, {}⟩ messenger quoting { shown := false } rfl rfl hHarmless hText
  exact ⟨rfl, hHarmless, text, code, e, hText, hCode, hBare⟩

private def escaping : Banner where
  commandLine := some "idl */ \x7d /*"

/-- A command line that ends the comment brings a brace into the code. -/
theorem banner_reaches_code :
    ∃ text code e, (⟨0, {}⟩ : Writer).encodeInterface messenger escaping {} = .ok text e ∧
      (⟨0, {}⟩ : Writer).encodeInterface messenger { shown := false } {} = .ok code e ∧
      bareCode text.toList = " \x7d \n".toList ++ bareCode code.toList := by
  have hLeaves : Leaves escaping.text.toList " \x7d \n".toList :=
    Banner.leaves_escape "idl " " \x7d " (.of_not_mem (by decide) (by decide))
      (.of_not_mem (by decide) (by decide))
  obtain ⟨text, e, hText⟩ := Encoding.exists_of_answer
    (show (((⟨0, {}⟩ : Writer).encodeInterface messenger escaping).answer {}).toBool = true by
      decide +kernel)
  obtain ⟨code, hCode, hBare⟩ :=
    Writer.bareCode_of_leaves { shown := false } hLeaves rfl hText
  exact ⟨text, code, e, hText, hCode, hBare⟩

end BinderIdl
