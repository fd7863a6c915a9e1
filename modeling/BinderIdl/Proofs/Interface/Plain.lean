import BinderIdl.Proofs.Marshal.Plain
import BinderIdl.Proofs.Token.Identifier

/-! Where the words of an interface come from. Its names are identifiers, its types are
identifiers and blocks, and what stands before a declaration is a comment as it was read.
So an interface whose blocks are plain has plain words, and comments that end where they
seem to. -/
namespace BinderIdl

open Java

/-- No character of an identifier structures a file. -/
theorem isStructural_of_continues {c : Char} (h : Scan.continuesIdentifier c = true) :
    isStructural c = false := by
  rw [Bool.eq_false_iff]
  intro hStructural
  simp only [isStructural, Bool.or_eq_true, beq_iff_eq] at hStructural
  rcases hStructural with (((rfl | rfl) | rfl) | rfl) | rfl <;> cases h

theorem IsIdentifier.plain {s : String} (h : IsIdentifier s) : Java.Plain s :=
  fun c hc => isStructural_of_continues (h.2 c hc)

/-- No word starts a comment. -/
theorem TokenClass.ofWord_ne_javadoc (word : String) : TokenClass.ofWord word ≠ .javadoc := by
  unfold TokenClass.ofWord
  repeat refine iteInduction (motive := (· ≠ TokenClass.javadoc)) (fun _ => nofun) fun _ => ?_
  nofun

namespace Scan

/-- What is read through the end of a comment ends there, whatever follows. -/
theorem afterComment?_throughCommentEnd {cs text rest : List Char}
    (h : throughCommentEnd cs = some (text, rest)) :
    cs = text ++ rest ∧ afterComment? text = some [] := by
  fun_induction throughCommentEnd cs generalizing text with
  | case1 => cases h
  | case2 cs =>
      cases h
      exact ⟨rfl, rfl⟩
  | case3 c cs hStart ih =>
      obtain ⟨⟨inner, rest'⟩, hInner, hText⟩ := Option.map_eq_some_iff.mp h
      cases hText
      obtain ⟨hSplit, hEnd⟩ := ih hInner
      refine ⟨congrArg (c :: ·) hSplit, ?_⟩
      rw [afterComment?]
      · exact hEnd
      · rintro more rfl rfl
        exact hStart (more ++ rest) rfl hSplit

/-- What stands before a declaration is a comment. -/
theorem isComment_of_javadoc {c : Char} {cs rest : List Char} {l : Lexeme}
    (h : lexeme c cs = .ok (l, rest)) (hCls : l.cls = .token .javadoc) : IsComment l.text := by
  have ofComment : ∀ {cls fault}, comment cls fault (c :: cs) = .ok (l, rest) →
      IsComment l.text := by
    intro cls fault hComment
    rw [comment] at hComment
    split at hComment
    · rename_i text _ hThrough
      cases hComment
      exact .of_afterComment? (afterComment?_throughCommentEnd hThrough).2
    · cases hComment
  rw [lexeme] at h
  split at h
  · cases h
    cases hCls
  split at h
  · cases h
    cases hCls
  split at h
  · exact ofComment h
  split at h
  · exact ofComment h
  split at h
  · split at h
    · cases h
      cases hCls
    · cases h
  split at h
  · cases h
    cases hCls
  split at h
  · cases h
    exact absurd (LexemeClass.token.inj hCls) (TokenClass.ofWord_ne_javadoc _)
  · cases h

end Scan

/-- A token that brings nothing into a file but plain words and comments. -/
structure Token.Clean (t : Token) : Prop where
  name : t.cls = .name → Java.Plain t.value
  typeBlock : t.cls = .typeBlock → Java.Plain t.value
  javadoc : t.cls = .javadoc → IsComment t.value.toList

theorem Source.clean_of_read {filename : Option String} {text : String} {s : Source}
    (h : Source.read filename text = .ok s)
    (hBlocks : ∀ t ∈ s.tokens, t.cls = .typeBlock → Java.Plain t.value) :
    ∀ t ∈ s.tokens, t.Clean := by
  intro t ht
  refine ⟨fun hName => (Source.identifier_of_read h ht hName).plain, hBlocks t ht, fun hDoc => ?_⟩
  obtain ⟨c, cs, l, rest, hRead, hCls, hValue⟩ := Source.exists_lexeme_of_read h ht
  rw [hValue, String.toList_ofList]
  exact Scan.isComment_of_javadoc hRead (by rw [hCls, hDoc])

structure TypeParameter.Plain (p : TypeParameter) : Prop where
  name : Java.Plain p.name
  bounds : ∀ bound ∈ p.bounds, Java.Plain bound

structure Argument.Plain (a : Argument) : Prop where
  type : Java.Plain a.type
  name : Java.Plain a.name

/-- A method whose words are plain and whose comment is one. -/
structure Method.Plain (m : Method) : Prop where
  name : Java.Plain m.name
  returnType : Java.Plain m.returnType
  arguments : ∀ a ∈ m.arguments, a.Plain
  result : ∀ a ∈ m.result, a.Plain
  javadoc : ∀ doc ∈ m.javadoc, IsComment doc.toList

/-- An interface whose words are plain and whose comments are comments. -/
structure Interface.Plain (i : Interface) : Prop where
  package : Java.Plain i.package
  imports : ∀ e ∈ i.imports, Java.Plain e.name
  javadoc : ∀ doc ∈ i.javadoc, IsComment doc.toList
  name : Java.Plain i.name
  typeBlock : ∀ block ∈ i.typeBlock, Java.Plain block
  typeParameters : ∀ p ∈ i.typeParameters, p.Plain
  methods : ∀ m ∈ i.methods, m.Plain

theorem plain_qualify {package name : String} (hPackage : Java.Plain package)
    (hName : Java.Plain name) : Java.Plain (qualify package name) := by
  rw [qualify]
  split
  · exact hName
  · exact plain_append.mpr ⟨plain_append.mpr ⟨hPackage, plain_literal rfl⟩, hName⟩

namespace TypeParameter

theorem plain_of_read {block : String} {part : List Char} {p : TypeParameter}
    (h : read block part = .ok p) (hPart : ∀ c ∈ part, isStructural c = false) : p.Plain := by
  have hName : Java.Plain (String.ofList (Text.cutWord part).1) :=
    plain_ofList.mpr fun c hc => hPart c (Text.cutWord_fst_subset part hc)
  rw [read] at h
  dsimp only at h
  split at h
  · cases h
  split at h
  · cases h
    exact ⟨hName, by simp⟩
  split at h
  · cases h
  split at h
  · cases h
  · cases h
    refine ⟨hName, fun bound hBound => ?_⟩
    simp only [List.map_map, List.mem_map, Function.comp_apply] at hBound
    obtain ⟨piece, hPiece, rfl⟩ := hBound
    refine plain_ofList.mpr fun c hc => hPart c ?_
    exact Text.cutWord_snd_subset _ (Text.cutWord_snd_subset _
      (Brackets.subset_of_mem_splitAtDepth hPiece (Text.strip_subset _ hc)))

theorem plain_of_readBlock {block : String} {ps : List TypeParameter}
    (h : readBlock block = .ok ps) (hBlock : Java.Plain block) : ∀ p ∈ ps, p.Plain := by
  rw [readBlock] at h
  split at h
  · rename_i rest hStrip
    split at h
    · intro p hp
      obtain ⟨part, hPart, hRead⟩ := exists_of_mapM h p hp
      refine plain_of_read hRead fun c hc => hBlock c (Text.strip_subset _ ?_)
      rw [hStrip]
      apply List.mem_cons_of_mem
      exact List.dropLast_subset rest (Brackets.subset_of_mem_splitAtDepth hPart hc)
    · cases h
  · cases h

end TypeParameter

theorem Interface.Parse.plain_typeParameters {block : Option String}
    (h : ∀ b ∈ block, Java.Plain b) :
    ∀ p ∈ (typeParameters block).toOption.getD [], p.Plain := by
  cases block with
  | none => simp [typeParameters, Except.toOption]
  | some b =>
      rw [typeParameters]
      cases hRead : TypeParameter.readBlock b with
      | error fault => simp [Except.toOption]
      | ok ps => exact TypeParameter.plain_of_readBlock hRead (h b rfl)

theorem plain_javadoc {doc : Option (Terminal .javadoc)}
    (h : ∀ t ∈ optional Leaf.tokens doc, t.Clean) :
    ∀ text ∈ doc.map Leaf.text, IsComment text.toList := by
  cases doc with
  | none => simp
  | some leaf =>
      intro text hText
      cases hText
      exact (h leaf.token List.mem_cons_self).javadoc leaf.cls_eq

theorem plain_block {block : Option (Terminal .typeBlock)}
    (h : ∀ t ∈ optional Leaf.tokens block, t.Clean) :
    ∀ text ∈ block.map Leaf.text, Java.Plain text := by
  cases block with
  | none => simp
  | some leaf =>
      intro text hText
      cases hText
      exact (h leaf.token List.mem_cons_self).typeBlock leaf.cls_eq

theorem plain_name {leaf : Terminal .name} (h : ∀ t ∈ leaf.tokens, t.Clean) :
    Java.Plain leaf.text :=
  (h leaf.token List.mem_cons_self).name leaf.cls_eq

theorem NameTree.plain_text (t : NameTree) (h : ∀ token ∈ t.tokens, token.Clean) :
    Java.Plain t.text := by
  rw [tokens, List.forall_mem_append, List.forall_mem_flatMap] at h
  refine plain_join (plain_literal rfl) ?_
  rw [List.forall_mem_cons, List.forall_mem_map]
  refine ⟨plain_name h.1, fun p hp => plain_name ?_⟩
  exact (List.forall_mem_append.mp (h.2 p hp)).2

theorem TypeTree.plain_text (t : TypeTree) (h : ∀ token ∈ t.tokens, token.Clean) :
    Java.Plain t.text := by
  rw [tokens, List.forall_mem_append, List.forall_mem_append] at h
  obtain ⟨⟨hName, hBlock⟩, -⟩ := h
  refine plain_append.mpr ⟨plain_append.mpr ⟨t.name.plain_text hName, ?_⟩, ?_⟩
  · have hText := plain_block hBlock
    cases hTree : t.block with
    | none => exact plain_literal rfl
    | some leaf => exact hText leaf.text (by rw [hTree]; rfl)
  · intro c hc
    rw [String.toList_join, List.mem_flatMap] at hc
    obtain ⟨suffix, hSuffix, hc⟩ := hc
    rw [List.eq_of_mem_replicate hSuffix] at hc
    exact (plain_literal rfl : Java.Plain "[]") c hc

theorem ArgumentTree.plain_argument (t : ArgumentTree) (start : Nat)
    (h : ∀ token ∈ t.tokens, token.Clean) : (t.argument start).Plain := by
  rw [tokens, List.forall_mem_append, List.forall_mem_append] at h
  exact ⟨t.type.plain_text h.1.2, plain_name h.2⟩

theorem plain_argumentsFrom (start : Nat) (ts : List (Terminal (.mark .comma) × ArgumentTree))
    (h : ∀ token ∈ ts.flatMap (pairTokens Leaf.tokens ArgumentTree.tokens), token.Clean) :
    ∀ a ∈ argumentsFrom start ts, a.Plain := by
  induction ts generalizing start with
  | nil => simp [argumentsFrom]
  | cons t ts ih =>
      rw [List.flatMap_cons, List.forall_mem_append] at h
      rw [argumentsFrom, List.forall_mem_cons]
      exact ⟨t.2.plain_argument _ (List.forall_mem_append.mp h.1).2, ih _ h.2⟩

theorem MethodTree.plain_method (t : MethodTree) (inherited : List Modifier) (start : Nat)
    (h : ∀ token ∈ t.tokens, token.Clean) : (t.method inherited start).Plain := by
  simp only [tokens, List.forall_mem_append] at h
  obtain ⟨⟨⟨⟨⟨⟨⟨hDoc, -⟩, hType⟩, hName⟩, -⟩, hArguments⟩, -⟩, -⟩ := h
  have hReturn := t.type.plain_text hType
  refine ⟨plain_name hName, hReturn, ?_, ?_, plain_javadoc hDoc⟩
  · rw [method]
    cases hTree : t.arguments with
    | none => simp
    | some ts =>
        rw [hTree] at hArguments
        simp only [optional, Option.elim_some, ArgumentsTree.tokens, List.forall_mem_append]
          at hArguments
        simp only [Option.map_some, Option.getD_some, ArgumentsTree.arguments]
        rw [List.forall_mem_cons]
        exact ⟨ts.first.plain_argument _ hArguments.1, plain_argumentsFrom _ _ hArguments.2⟩
  · intro a ha
    rw [method] at ha
    dsimp only at ha
    split at ha
    · cases ha
    · cases ha
      exact ⟨hReturn, plain_literal rfl⟩

theorem plain_methodsFrom (inherited : List Modifier) (start : Nat) (ts : List MethodTree)
    (h : ∀ token ∈ ts.flatMap MethodTree.tokens, token.Clean) :
    ∀ m ∈ methodsFrom inherited start ts, m.Plain := by
  induction ts generalizing start with
  | nil => simp [methodsFrom]
  | cons t ts ih =>
      rw [List.flatMap_cons, List.forall_mem_append] at h
      rw [methodsFrom, List.forall_mem_cons]
      exact ⟨t.plain_method _ _ h.1, ih _ h.2⟩

theorem EntryTree.plain_entry (t : EntryTree) {package : String} (hPackage : Java.Plain package)
    (h : ∀ token ∈ t.tokens, token.Clean) : Java.Plain (t.entry package).name := by
  simp only [tokens, List.forall_mem_append] at h
  have hName := t.name.plain_text h.1.2
  rw [entry]
  dsimp only
  split
  · exact hName
  · exact plain_qualify hPackage hName

theorem DefinitionTree.plain_interface (t : DefinitionTree)
    (h : ∀ token ∈ t.tokens, token.Clean) : t.interface.Plain := by
  simp only [tokens, List.forall_mem_append] at h
  obtain ⟨⟨⟨⟨⟨⟨⟨⟨⟨⟨⟨-, hPackage⟩, -⟩, hEntries⟩, hDoc⟩, -⟩, -⟩, hName⟩, hBlock⟩, -⟩, hMethods⟩, -⟩ := h
  have hPackage := t.package.plain_text hPackage
  have hBlock := plain_block hBlock
  refine ⟨hPackage, ?_, plain_javadoc hDoc, plain_name hName, hBlock,
    Interface.Parse.plain_typeParameters hBlock, plain_methodsFrom _ _ _ hMethods⟩
  rw [List.forall_mem_flatMap] at hEntries
  rw [interface, List.forall_mem_map]
  exact fun e he => e.plain_entry hPackage (hEntries e he)

/-- What is read from a text whose blocks are plain is plain. -/
theorem Interface.plain_of_ofSource {filename : Option String} {text : String} {s : Source}
    {i : Interface} (hRead : Source.read filename text = .ok s)
    (h : Interface.ofSource s = .ok (some i))
    (hBlocks : ∀ t ∈ s.tokens, t.cls = .typeBlock → Java.Plain t.value) : i.Plain := by
  obtain ⟨t, ht, rfl⟩ := Interface.exists_tree_of_ofSource h
  apply t.plain_interface
  rw [ht]
  exact Source.clean_of_read hRead hBlocks

/-- A text whose characters can be read is a source. -/
theorem Source.read_of_lexemes {text : String} {cs : List Char} (hText : text = String.ofList cs)
    (h : (Scan.lexemes cs).2 = none) (filename : Option String) :
    Source.read filename text =
      .ok ⟨filename, text, (Scan.place .start (Scan.lexemes cs).1).1⟩ := by
  have hChars : text.toList = cs := by rw [hText, String.toList_ofList]
  simp only [Source.read, hChars, h]

theorem Interface.ofSource_of_ofTokens {s : Source} {i : Interface}
    (h : Interface.ofTokens s.tokens = .ok (some i)) : Interface.ofSource s = .ok (some i) := by
  rw [Interface.ofSource, h]

end BinderIdl
