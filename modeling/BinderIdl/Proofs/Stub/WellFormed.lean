import BinderIdl.Proofs.Stub.Banner
import BinderIdl.Proofs.Stub.Lines

/-! The structure of generated files: their braces match, and they declare a type. -/
namespace BinderIdl

open Java

namespace Java

/-- A type is declared where a declaration follows what is not part of a word. -/
theorem declaresTypeFrom_append {code : List Char} (hCode : startsType code = true) {c : Char}
    (hc : Text.isWord c = false) (before : List Char) (free : Bool) :
    declaresTypeFrom free (before ++ c :: code) = true := by
  induction before generalizing free with
  | nil =>
      cases code with
      | nil => cases hCode
      | cons c' code => simp [declaresTypeFrom, hc, hCode]
  | cons b before ih => rw [List.cons_append, declaresTypeFrom, ih, Bool.or_true]

theorem startsType_stub (rest : List Char) :
    startsType ('c' :: 'l' :: 'a' :: 's' :: 's' :: ' ' :: 'S' :: 't' :: 'u' :: 'b' :: rest) = true := by
  rfl

end Java

namespace Banner

theorem nests_text {b : Banner} (h : b.Harmless) : Nests b.text 0 0 := by
  cases hShown : b.shown with
  | true => exact ⟨_, leaves_text hShown h, rfl⟩
  | false =>
      rw [text_hidden hShown]
      exact .fixed rfl rfl

end Banner

namespace Interface

variable {i : Interface} {ms : List MethodCode}

/-- The lines of a file up to the one that declares the stub. -/
def opening (i : Interface) : List String :=
  i.headerLines ++ docLines 0 i.javadoc ++
    ["public interface " ++ i.name ++ i.typeBlockText ++ " extends android.os.IInterface \x7b"] ++
    [lineAt 1 "/** Local-side IPC implementation stub class. */"]

/-- The lines of a file behind the one that declares the stub. -/
def remainder (i : Interface) (ms : List MethodCode) : List String :=
  (i.stubHead.drop 2 ++ i.asInterfaceHead ++ i.asInterfaceBody ++ dispatcherHead ++
    ms.flatMap MethodCode.caseLines ++ dispatcherTail ++
    (if i.methods.any Method.isMainthread then mainThreadLines else []) ++ [""] ++
    i.proxyHead ++ ms.flatMap MethodCode.proxyLines ++ [lineAt 2 "\x7d"] ++
    ms.flatMap constantLines ++ [lineAt 1 "\x7d"]) ++ ms.flatMap declarationLines ++ ["\x7d"]

theorem codeLines_eq (i : Interface) (ms : List MethodCode) :
    i.codeLines ms = i.opening ++ [lineAt 1 ("public static abstract class Stub" ++ i.typeBlockText ++
      " extends android.os.Binder implements " ++ i.appliedName ++ " \x7b")] ++ i.remainder ms := by
  simp only [codeLines, stubLines, opening, remainder, stubHead, List.append_assoc, List.cons_append,
    List.nil_append, List.drop_succ_cons, List.drop_zero]

theorem Plain.spans_opening (h : i.Plain) : Spans i.opening 0 1 := by
  have hName : Nests ("public interface " ++ i.name ++ i.typeBlockText ++
      " extends android.os.IInterface \x7b") 0 1 :=
    (((Nests.fixed rfl rfl).append (.word h.name)).append (.word h.typeBlockText)).append
      (.fixed rfl rfl)
  exact ((h.spans_headerLines.append (spans_docLines h.javadoc 0 0)).append (.singleton hName)).append
    (.one (.fixedComment rfl))

theorem Plain.spans_remainder (h : i.Plain) (hMethods : ∀ m ∈ ms, m.Plain) :
    Spans (i.remainder ms) 2 0 := by
  have hCases : Spans (ms.flatMap MethodCode.caseLines) 4 4 :=
    .flatMap fun m hm => (hMethods m hm).spans_caseLines 4
  have hTask : Spans (if i.methods.any Method.isMainthread then mainThreadLines else []) 2 2 := by
    cases i.methods.any Method.isMainthread with
    | true => exact spans_mainThreadLines
    | false => exact .nil
  have hProxy : Spans (ms.flatMap MethodCode.proxyLines) 3 3 :=
    .flatMap fun m hm => (hMethods m hm).spans_proxyLines 3
  have hConstants : Spans (ms.flatMap constantLines) 2 2 :=
    .flatMap fun m hm => (hMethods m hm).spans_constantLines 2
  have hDeclarations : Spans (ms.flatMap declarationLines) 1 1 :=
    .flatMap fun m hm => (hMethods m hm).spans_declarationLines 1
  have hClose : Spans [lineAt 2 "\x7d"] 3 2 := .one (.fixed rfl rfl)
  have hStubClose : Spans [lineAt 1 "\x7d"] 2 1 := .one (.fixed rfl rfl)
  have hStub := (h.spans_stubHead.append h.spans_asInterfaceHead).append h.spans_asInterfaceBody
  have hDispatcher := ((hStub.append spans_dispatcherHead).append hCases).append spans_dispatcherTail
  have hHelpers := (hDispatcher.append hTask).append (.blank .nil)
  have hInner := ((hHelpers.append h.spans_proxyHead).append hProxy).append hClose
  have hOuter := (hInner.append hConstants).append hStubClose
  exact (hOuter.append hDeclarations).append (.singleton (.fixed rfl rfl))

/-- The code of a file is at depth one where it declares its stub, and at depth zero in the
end. -/
theorem Plain.nests_fileText (h : i.Plain) (hMethods : ∀ m ∈ ms, m.Plain) {b : Banner}
    (hBanner : b.Harmless) :
    ∃ before after, i.fileText b ms = before ++ (" class Stub" ++ after) ∧ Nests before 0 1 ∧
      Nests after 1 0 := by
  have hOpening : Nests (String.join (i.opening.map fun line => line ++ "\n")) 0 1 := h.spans_opening
  have hRemainder : Nests (String.join ((i.remainder ms).map fun line => line ++ "\n")) 2 0 :=
    h.spans_remainder hMethods
  have hModifiers : Nests "public static abstract" 1 1 := .fixed rfl rfl
  have hHead : Nests (i.typeBlockText ++ " extends android.os.Binder implements " ++ i.appliedName ++
      " \x7b") 1 2 :=
    (((Nests.word h.typeBlockText).append (.fixed rfl rfl)).append (.word h.appliedName)).append
      (.fixed rfl rfl)
  have hFeed : Nests "\n" 2 2 := .fixed rfl rfl
  refine ⟨_, _, ?_, (Banner.nests_text hBanner).append (hOpening.append (hModifiers.line 1)),
    hHead.append (hFeed.append hRemainder)⟩
  have hClass : "public static abstract class Stub" = "public static abstract" ++ " class Stub" := rfl
  rw [fileText_eq, codeText, codeLines_eq, hClass]
  simp only [List.map_append, String.join_append, List.map_cons, List.map_nil, String.join_cons,
    String.join_nil, lineAt, String.append_assoc, String.append_empty]

end Interface

/-- The file of a definition whose blocks are plain, under a banner that stays a comment:
its braces match, and it declares a type. Its comments may hold anything. The desk may have
been used before for the interface, in whatever contexts with its type parameters. -/
theorem wellFormed_of_encodeInterface {filename : Option String} {definition : String} {s : Source}
    {i : Interface} {w : Writer} {banner : Banner} {d e : Desk} {text : String}
    (hRead : Source.read filename definition = .ok s) (hParse : Interface.ofSource s = .ok (some i))
    (hBlocks : ∀ t ∈ s.tokens, t.cls = .typeBlock → Java.Plain t.value)
    (hBanner : banner.Harmless) (hContext : w.context.typeParameters = i.typeParameters)
    (hDesk : d.Serves i) (hFile : w.encodeInterface i banner d = .ok text e) :
    (bareCode text.toList).count '\x7b' = (bareCode text.toList).count '\x7d' ∧
      (∀ p, p <+: bareCode text.toList → p.count '\x7d' ≤ p.count '\x7b') ∧
      declaresType (bareCode text.toList) = true := by
  have hPlain : i.Plain := Interface.plain_of_ofSource hRead hParse hBlocks
  obtain ⟨ms, hMethods, rfl⟩ := Writer.encodeMethods_of_encodeInterface hFile
  have hCodes : ∀ m ∈ ms, m.Plain := Writer.plain_of_encodeMethods hPlain hContext hDesk hMethods
  obtain ⟨before, after, hText, ⟨bare, hBefore, hDepth⟩, ⟨bare', hAfter, hDepth'⟩⟩ :=
    hPlain.nests_fileText hCodes hBanner
  have hClass : Calm " class Stub".toList := .of_not_mem (by decide) (by decide)
  have hCode : bareCode (i.fileText banner ms).toList = bare ++ (" class Stub".toList ++ bare') := by
    rw [hText, String.toList_append, String.toList_append]
    exact (hBefore.append ((Leaves.of_calm hClass).append hAfter)).eq
  have hNested : depth? 0 (bareCode (i.fileText banner ms).toList) = some 0 := by
    rw [hCode, depth?_append, hDepth]
    exact hDepth'
  obtain ⟨hCount, hPrefixes⟩ := nested_of_depth? hNested
  refine ⟨hCount, hPrefixes, ?_⟩
  rw [hCode]
  exact declaresTypeFrom_append (startsType_stub bare') rfl bare true

/-- A definition whose comments hold braces, quotes and the starts of comments. -/
private def archive : String := "
  package demo; import java.util.UUID; /** Keeps \x7b \" // 'words' /* */
  mainthread interface IArchive<T extends android.os.Bundle & Comparable<T>> \x7b
    /** \x7d \x7d \"\\ */ localthrow List<UUID> find(in T key, inout UUID[] ids, out int[] places);
    oneway void drop(in List<UUID> ids);
  \x7d"

set_option maxRecDepth 2000 in
private def archiveChars : { cs : List Char // archive = String.ofList cs } := ⟨_, rfl⟩

private def archiveTokens : List Token := (Scan.place .start (Scan.lexemes archiveChars.1).1).1

private def archiveBanner : Banner where
  sourceName := some "IArchive.aidl2"
  commandLine := some "idl --gen \x7b/* // \""

theorem wellFormed_of_encodeInterface_archive : ∃ s i text e,
    Source.read none archive = .ok s ∧ Interface.ofSource s = .ok (some i) ∧
    (∀ t ∈ s.tokens, t.cls = .typeBlock → Java.Plain t.value) ∧ archiveBanner.Harmless ∧
    Writer.encodeInterface ⟨0, { typeParameters := i.typeParameters }⟩ i archiveBanner {} =
      .ok text e ∧
    (bareCode text.toList).count '\x7b' = (bareCode text.toList).count '\x7d' ∧
    (∀ p, p <+: bareCode text.toList → p.count '\x7d' ≤ p.count '\x7b') ∧
    declaresType (bareCode text.toList) = true := by
  have hLexed : (Scan.lexemes archiveChars.1).2 = none := by decide +kernel
  have hRun : (Interface.ofTokens archiveTokens).toOption.join.map (fun i =>
      ((Writer.encodeInterface ⟨0, { typeParameters := i.typeParameters }⟩ i
        archiveBanner).answer {}).toBool) = some true := by
    decide +kernel
  have hBlocks : ∀ t ∈ archiveTokens, t.cls = .typeBlock → Java.Plain t.value := by decide +kernel
  have hBanner : archiveBanner.Harmless := by
    constructor
    · intro name hName
      cases hName
      exact not_infix_literal (by decide)
    · intro line hLine
      cases hLine
      exact not_infix_literal (by decide)
  have hRead := Source.read_of_lexemes archiveChars.2 hLexed none
  obtain ⟨i, hTokens, hAnswer⟩ := Interface.exists_of_run hRun
  obtain ⟨text, e, hFile⟩ := Encoding.exists_of_answer hAnswer
  have hParse : Interface.ofSource ⟨none, archive, archiveTokens⟩ = .ok (some i) :=
    Interface.ofSource_of_ofTokens hTokens
  exact ⟨_, i, text, e, hRead, hParse, hBlocks, hBanner, hFile,
    wellFormed_of_encodeInterface hRead hParse hBlocks hBanner rfl (Desk.serves_empty i) hFile⟩

end BinderIdl
