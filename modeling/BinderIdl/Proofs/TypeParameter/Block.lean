import BinderIdl.Proofs.Brackets.Balance
import BinderIdl.Proofs.Interface.Derivation
import BinderIdl.Proofs.Text.Blanks

/-! Written parameter blocks. Proper parameters may be written with any blanks around their
names, bounds and separators; the block is read as these parameters, and an interface that
declares it passes on their names. -/
namespace BinderIdl

open Brackets Text

/-- A name of a parameter: one word in which nothing is a bracket or a comma. -/
structure TypeParameter.IsName (cs : List Char) : Prop where
  ne_nil : cs ≠ []
  word : ∀ c ∈ cs, isBlank c = false
  plain : ∀ c ∈ cs, c ≠ ',' ∧ c ≠ '<' ∧ c ≠ '>'

/-- A bound of a parameter: no blanks at its ends, matched brackets, and what divides
parameters or bounds only inside of these. -/
structure TypeParameter.IsBound (cs : List Char) : Prop where
  ne_nil : cs ≠ []
  first : ∀ c ∈ cs.head?, isBlank c = false
  last : ∀ c ∈ cs.getLast?, isBlank c = false
  matched : Matched cs
  comma : Encloses cs ','
  ampersand : Encloses cs '&'

instance : DecidablePred TypeParameter.IsName := fun cs =>
  haveI := List.decidableBAll (fun c => isBlank c = false) cs
  haveI := List.decidableBAll (fun c => c ≠ ',' ∧ c ≠ '<' ∧ c ≠ '>') cs
  decidable_of_iff (cs ≠ [] ∧ (∀ c ∈ cs, isBlank c = false) ∧
      ∀ c ∈ cs, c ≠ ',' ∧ c ≠ '<' ∧ c ≠ '>')
    ⟨fun h => ⟨h.1, h.2.1, h.2.2⟩, fun h => ⟨h.ne_nil, h.word, h.plain⟩⟩

instance : DecidablePred TypeParameter.IsBound := fun cs =>
  haveI := Option.decidableForallMem (p := fun c => isBlank c = false) (o := cs.head?)
  haveI := Option.decidableForallMem (p := fun c => isBlank c = false) (o := cs.getLast?)
  decidable_of_iff (cs ≠ [] ∧ (∀ c ∈ cs.head?, isBlank c = false) ∧
      (∀ c ∈ cs.getLast?, isBlank c = false) ∧ Matched cs ∧ Encloses cs ',' ∧ Encloses cs '&')
    ⟨fun h => ⟨h.1, h.2.1, h.2.2.1, h.2.2.2.1, h.2.2.2.2.1, h.2.2.2.2.2⟩,
      fun h => ⟨h.ne_nil, h.first, h.last, h.matched, h.comma, h.ampersand⟩⟩

/-- A parameter that can be written. -/
structure TypeParameter.Proper (p : TypeParameter) : Prop where
  name : IsName p.name.toList
  bounds : ∀ bound ∈ p.bounds, IsBound bound.toList

namespace TypeParameter

/-- The ways to write a parameter: its name, or its name, the word `extends` and its bounds
with ampersands between them. -/
inductive Written : TypeParameter → List Char → Prop
  | name {name : String} {text : List Char} (hText : Spaced name.toList text) :
      Written ⟨name, []⟩ text
  | bounds {name : String} {bounds : List String} {before gap gap' : List Char}
      {texts : List (List Char)} (hBounds : bounds ≠ []) (hBefore : AllBlank before)
      (hGap : AllBlank gap ∧ gap ≠ []) (hGap' : AllBlank gap' ∧ gap' ≠ [])
      (hTexts : List.Forall₂ (fun bound text => Spaced bound.toList text) bounds texts) :
      Written ⟨name, bounds⟩ (before ++ (name.toList ++ (gap ++ ("extends".toList ++
        (gap' ++ List.intercalate ['&'] texts)))))

/-- The ways to write a block: parameters in angle brackets with commas between them. -/
def WrittenBlock (ps : List TypeParameter) (block : String) : Prop :=
  ∃ parts, List.Forall₂ Written ps parts ∧
    Spaced ('<' :: (List.intercalate [','] parts ++ ['>'])) block.toList

/-- What follows from the partners holds of all. -/
theorem forall_mem_of_forall₂ {α β : Type} {R : α → β → Prop} {P : α → Prop} {Q : β → Prop}
    {xs : List α} {ys : List β} (h : List.Forall₂ R xs ys) (hxs : ∀ x ∈ xs, P x)
    (hStep : ∀ x y, P x → R x y → Q y) : ∀ y ∈ ys, Q y := by
  induction h with
  | nil => exact fun _ hy => absurd hy List.not_mem_nil
  | cons hHead _ ih =>
      rw [List.forall_mem_cons] at hxs ⊢
      exact ⟨hStep _ _ hxs.1 hHead, ih hxs.2⟩

theorem even_of_allBlank {separator : Char} {cs : List Char}
    (hSeparator : isBlank separator = false) (h : AllBlank cs) : Even separator cs := by
  refine .of_forall fun c hc => ?_
  have hBlank := h c hc
  refine ⟨?_, ?_, ?_⟩
  · rintro rfl
    rw [hSeparator] at hBlank
    cases hBlank
  · rintro rfl
    exact absurd hBlank (by decide)
  · rintro rfl
    exact absurd hBlank (by decide)

theorem even_of_spaced {separator : Char} {cs text : List Char}
    (hSeparator : isBlank separator = false) (h : Even separator cs) (hText : Spaced cs text) :
    Even separator text := by
  obtain ⟨before, behind, hBefore, hBehind, rfl⟩ := hText
  exact ((even_of_allBlank hSeparator hBefore).append h).append
    (even_of_allBlank hSeparator hBehind)

theorem head?_of_allBlank_append {gap : List Char} (hGap : AllBlank gap) (hNil : gap ≠ [])
    (rest : List Char) :
    ∀ c ∈ (gap ++ rest).head?, isBlank c = true := by
  obtain ⟨d, more, rfl⟩ := List.exists_cons_of_ne_nil hNil
  intro c hc
  obtain rfl : d = c := Option.some.inj hc
  exact hGap d List.mem_cons_self

/-- What the first part starts with, the whole starts with. -/
theorem intercalate_append_cons (separator cs ds : List Char) (parts : List (List Char)) :
    List.intercalate separator ((cs ++ ds) :: parts) =
      cs ++ List.intercalate separator (ds :: parts) := by
  cases parts with
  | nil => simp only [List.intercalate_singleton]
  | cons next parts => simp only [List.intercalate_cons_cons, List.append_assoc]

theorem isBlank_of_mem_extends : ∀ c ∈ "extends".toList, isBlank c = false := by
  have hAll : ("extends".toList.all fun c => !isBlank c) = true := rfl
  intro c hc
  simpa using List.all_eq_true.mp hAll c hc

/-- Neither commas nor ampersands divide a bound. -/
theorem IsBound.even {cs : List Char} (h : IsBound cs) : Even ',' cs ∧ Even '&' cs :=
  ⟨h.matched.even_of_encloses h.comma (by decide),
    h.matched.even_of_encloses h.ampersand (by decide)⟩

theorem IsBound.strip_eq {cs text : List Char} (h : IsBound cs) (hText : Spaced cs text) :
    strip text = cs :=
  hText.strip_eq (strip_eq_self h.first h.last) h.ne_nil

section Bounds

variable {bounds : List String} {texts : List (List Char)}
  (hTexts : List.Forall₂ (fun bound text => Spaced bound.toList text) bounds texts)
  (hProper : ∀ bound ∈ bounds, IsBound bound.toList)

include hTexts hProper

theorem map_strip_of_spaced : texts.map strip = bounds.map String.toList := by
  induction hTexts with
  | nil => rfl
  | cons hText _ ih =>
      rw [List.forall_mem_cons] at hProper
      rw [List.map_cons, List.map_cons, hProper.1.strip_eq hText, ih hProper.2]

omit hProper in
theorem even_of_mem_texts {separator : Char} (hBlank : isBlank separator = false)
    (hEven : ∀ bound ∈ bounds, Even separator bound.toList) :
    ∀ text ∈ texts, Even separator text :=
  forall_mem_of_forall₂ hTexts hEven fun _ _ hBound hText => even_of_spaced hBlank hBound hText

/-- The bounds are what stands between the ampersands, without the blanks around it. -/
theorem map_strip_split (hNil : bounds ≠ []) :
    (split '&' (List.intercalate ['&'] texts)).map strip = bounds.map String.toList := by
  have hTextsNil : texts ≠ [] := by
    rintro rfl
    cases hTexts
    exact hNil rfl
  have hEach := even_of_mem_texts hTexts (by decide) fun bound hBound => (hProper bound hBound).even.2
  rw [split_intercalate (by decide) hTextsNil hEach, map_strip_of_spaced hTexts hProper]

/-- The blanks in front of the first bound are not part of it. -/
theorem exists_stripLeft_intercalate (hNil : bounds ≠ []) :
    ∃ texts', List.Forall₂ (fun bound text => Spaced bound.toList text) bounds texts' ∧
      stripLeft (List.intercalate ['&'] texts) = List.intercalate ['&'] texts' ∧
        List.intercalate ['&'] texts' ≠ [] := by
  cases hTexts with
  | nil => exact absurd rfl hNil
  | @cons bound text bounds texts hText hMore =>
      obtain ⟨before, behind, hBefore, hBehind, rfl⟩ := hText
      have hBound := (List.forall_mem_cons.mp hProper).1
      refine ⟨(bound.toList ++ behind) :: texts, .cons ?_ hMore, ?_, ?_⟩
      · exact ⟨[], behind, .nil, hBehind, rfl⟩
      · rw [List.append_assoc, intercalate_append_cons, stripLeft_blank_append hBefore,
          intercalate_append_cons]
        exact Spaced.stripLeft_append (strip_eq_self hBound.first hBound.last) hBound.ne_nil _
      · rw [intercalate_append_cons]
        exact List.append_ne_nil_of_left_ne_nil hBound.ne_nil _

end Bounds

section Parameter

variable {p : TypeParameter} {part : List Char} (hProper : p.Proper) (hPart : Written p part)

include hProper hPart

/-- No comma divides a written parameter. -/
theorem even_of_written : Even ',' part := by
  have hName : Even ',' p.name.toList := .of_forall hProper.name.plain
  cases hPart with
  | name hText => exact even_of_spaced (by decide) hName hText
  | bounds _ hBefore hGap hGap' hTexts =>
      have hEach := even_of_mem_texts hTexts (by decide) fun bound hBound =>
        (hProper.bounds bound hBound).even.1
      have hBounds := Even.intercalate (by rfl : Even ',' ['&']) hEach
      have hBlank : ∀ {cs : List Char}, AllBlank cs → Even ',' cs := even_of_allBlank (by decide)
      exact (hBlank hBefore).append (hName.append ((hBlank hGap.1).append
        (Even.append (by rfl) ((hBlank hGap'.1).append hBounds))))

/-- A written parameter is read as what it is. -/
theorem read_of_written (block : String) : read block part = .ok p := by
  cases hPart with
  | name hText =>
      obtain ⟨before, behind, hBefore, hBehind, rfl⟩ := hText
      have hNone : stripLeft behind = [] := by
        have hDrop := stripLeft_blank_append hBehind []
        rwa [List.append_nil] at hDrop
      have hRest : ∀ c ∈ behind.head?, isBlank c = true :=
        fun c hc => hBehind c (List.mem_of_mem_head? hc)
      have hCut := cutWord_append hBefore hProper.name.word hProper.name.ne_nil hRest
      have hName := hProper.name.ne_nil
      rw [List.append_assoc, read, hCut, hNone]
      simp [hName]
  | @bounds name bounds before gap gap' texts hNil hBefore hGap hGap' hTexts =>
      obtain ⟨texts', hTexts', hStart, hSome⟩ :=
        exists_stripLeft_intercalate hTexts hProper.bounds hNil
      have hCut := cutWord_append hBefore hProper.name.word hProper.name.ne_nil
        (head?_of_allBlank_append hGap.1 hGap.2 ("extends".toList ++
          (gap' ++ List.intercalate ['&'] texts)))
      have hWord := cutWord_append .nil isBlank_of_mem_extends (by decide)
        (head?_of_allBlank_append hGap'.1 hGap'.2 (List.intercalate ['&'] texts))
      have hKeyword : stripLeft (gap ++ ("extends".toList ++
          (gap' ++ List.intercalate ['&'] texts))) =
          "extends".toList ++ (gap' ++ List.intercalate ['&'] texts) := by
        rw [stripLeft_blank_append hGap.1]
        rfl
      have hBounds := map_strip_split hTexts' hProper.bounds hNil
      have hAny : (bounds.map String.toList).any List.isEmpty = false := by
        rw [List.any_eq_false]
        intro cs hcs
        obtain ⟨bound, hBound, rfl⟩ := List.mem_map.mp hcs
        simpa using (hProper.bounds bound hBound).ne_nil
      have hName : name.toList.isEmpty = false := List.isEmpty_eq_false_iff.mpr hProper.name.ne_nil
      rw [stripLeft_blank_append hGap'.1, hStart] at hWord
      rw [read, hCut, hKeyword]
      simp only [List.nil_append] at hWord
      simp only [hWord, hName, hBounds, hAny, List.isEmpty_eq_false_iff.mpr hSome]
      simp

end Parameter

section Block

variable {ps : List TypeParameter}

/-- A written block is read as its parameters. -/
theorem readBlock_of_writtenBlock {block : String} (hNil : ps ≠ [])
    (hProper : ∀ p ∈ ps, p.Proper) (hBlock : WrittenBlock ps block) :
    readBlock block = .ok ps := by
  obtain ⟨parts, hParts, hText⟩ := hBlock
  have hEnds : strip ('<' :: (List.intercalate [','] parts ++ ['>'])) =
      '<' :: (List.intercalate [','] parts ++ ['>']) := by
    refine strip_eq_self (fun c hc => ?_) fun c hc => ?_
    · obtain rfl : '<' = c := Option.some.inj hc
      decide
    · rw [← List.cons_append, List.getLast?_concat] at hc
      obtain rfl : '>' = c := Option.some.inj hc
      decide
  have hEach : ∀ part ∈ parts, Even ',' part :=
    forall_mem_of_forall₂ hParts hProper fun _ _ hp hPart => even_of_written hp hPart
  have hPartsNil : parts ≠ [] := by
    rintro rfl
    cases hParts
    exact hNil rfl
  have hReads : parts.mapM (read block) = .ok ps := by
    have hBoth := (List.forall₂_and_left ps parts).mpr ⟨hProper, hParts⟩
    refine mapM_eq_ok_iff.mpr (hBoth.imp fun p part h => ?_).flip
    exact read_of_written h.1 h.2 block
  rw [readBlock, hText.strip_eq hEnds (by simp)]
  simp only [List.getLast?_concat, List.dropLast_concat,
    split_intercalate (by decide : weight ',' = 0) hPartsNil hEach, hReads]

theorem toList_join (separator : String) (parts : List String) :
    (Text.join separator parts).toList =
      List.intercalate separator.toList (parts.map String.toList) := by
  induction parts with
  | nil => rfl
  | cons part parts ih =>
      cases parts with
      | nil => rw [Text.join, List.map_singleton, List.intercalate_singleton]
      | cons next parts =>
          simp only [Text.join, String.toList_append, ih, List.map_cons,
            List.intercalate_cons_cons]

/-- The argument list is the names in their order, in angle brackets. -/
theorem toList_arguments (hNil : ps ≠ []) :
    (arguments ps).toList =
      '<' :: (List.intercalate [',', ' '] (ps.map fun p => p.name.toList) ++ ['>']) := by
  cases ps with
  | nil => exact absurd rfl hNil
  | cons p ps =>
      rw [arguments, String.toList_append, String.toList_append, toList_join, List.map_map]
      · rfl
      · simp

/-- Behind a comma, a blank belongs to the part that follows. -/
theorem intercalate_comma_blank (part : List Char) (parts : List (List Char)) :
    List.intercalate [',', ' '] (part :: parts) =
      List.intercalate [','] (part :: parts.map (' ' :: ·)) := by
  induction parts generalizing part with
  | nil => simp only [List.map_nil, List.intercalate_singleton]
  | cons next parts ih =>
      have hNext := intercalate_append_cons [','] [' '] next (parts.map (' ' :: ·))
      rw [List.map_cons, List.intercalate_cons_cons, List.intercalate_cons_cons, ih]
      simp only [List.singleton_append] at hNext
      simp [hNext]

/-- The argument list is a way to write the parameters without their bounds. -/
theorem writtenBlock_arguments (hNil : ps ≠ []) :
    WrittenBlock (ps.map fun p => ⟨p.name, []⟩) (arguments ps) := by
  cases ps with
  | nil => exact absurd rfl hNil
  | cons p ps =>
      refine ⟨p.name.toList :: ps.map fun q => ' ' :: q.name.toList, ?_, ?_⟩
      · refine .cons (.name (.refl _)) (List.forall₂_map_left_iff.mpr
          (List.forall₂_map_right_iff.mpr (List.forall₂_same.mpr fun q _ => ?_)))
        exact .name ⟨[' '], [], by decide, .nil, (List.append_nil _).symm⟩
      · rw [toList_arguments hNil, List.map_cons, intercalate_comma_blank, List.map_map]
        exact .refl _

end Block

end TypeParameter

/-- An interface has the parameters that its block declares. -/
theorem Interface.readBlock_of_typeBlock {tokens : List Token} {i : Interface} {block : String}
    (h : Interface.ofTokens tokens = .ok (some i)) (hBlock : i.typeBlock = some block) :
    TypeParameter.readBlock block = .ok i.typeParameters := by
  rw [Interface.ofTokens_eq_ok_some_iff] at h
  obtain ⟨t, rfl⟩ : ∃ t : DefinitionTree, t.tokens = tokens := Interface.Parse.exists_tree_of_file h
  obtain ⟨hLawful, rfl⟩ := (Interface.Parse.file_eq_ok_iff t i).mp h
  obtain ⟨b, hb, rfl⟩ := Option.map_eq_some_iff.mp hBlock
  obtain ⟨parameters, hRead⟩ := hLawful.block b hb
  simp only [DefinitionTree.interface, hb, Option.map_some, Interface.Parse.typeParameters, hRead]
  rfl

/-- A written block is read as exactly its parameters, an interface that declares it has these,
and the argument list of such an interface is their names in order, which can be read back. -/
theorem TypeParameter.readBlock_roundtrip {ps : List TypeParameter} {block : String}
    (hNil : ps ≠ []) (hProper : ∀ p ∈ ps, p.Proper) (hBlock : WrittenBlock ps block) :
    readBlock block = .ok ps ∧
      (∀ tokens i, Interface.ofTokens tokens = .ok (some i) → i.typeBlock = some block →
        i.typeParameters = ps) ∧
      ∀ i : Interface, i.typeParameters = ps →
        i.typeArguments.toList =
            '<' :: (List.intercalate [',', ' '] (ps.map fun p => p.name.toList) ++ ['>']) ∧
          readBlock i.typeArguments = .ok (ps.map fun p => ⟨p.name, []⟩) := by
  have hRead := readBlock_of_writtenBlock hNil hProper hBlock
  refine ⟨hRead, fun tokens i hTokens hDeclared => ?_, ?_⟩
  · have hSame := Interface.readBlock_of_typeBlock hTokens hDeclared
    exact (Except.ok.inj (hRead.symm.trans hSame)).symm
  · rintro i rfl
    refine ⟨toList_arguments hNil, readBlock_of_writtenBlock (by simpa using hNil) ?_
      (writtenBlock_arguments hNil)⟩
    intro q hq
    obtain ⟨p, hp, rfl⟩ := List.mem_map.mp hq
    exact ⟨(hProper p hp).name, fun _ hBound => absurd hBound List.not_mem_nil⟩

/-- Parameters whose bounds contain commas, ampersands and blanks. -/
private def bounded : List TypeParameter :=
  [⟨"K", []⟩, ⟨"V", ["Map<A , B & C>", "Set < ? super V >"]⟩, ⟨"extends", ["extends"]⟩,
    ⟨"U&", []⟩]

private def boundedBlock : String :=
  "< K ,V  extends \tMap<A , B & C>&  Set < ? super V >\n,extends extends extends, U&\t>"

private def boundedTokens : List Token :=
  [⟨.packageWord, "package", 1, 1⟩, ⟨.name, "demo", 1, 9⟩, ⟨.mark .semicolon, ";", 1, 13⟩,
    ⟨.interfaceWord, "interface", 1, 15⟩, ⟨.name, "IBound", 1, 25⟩,
    ⟨.typeBlock, boundedBlock, 1, 31⟩, ⟨.mark .openBrace, "\x7b", 2, 43⟩,
    ⟨.mark .closeBrace, "\x7d", 2, 44⟩]

private theorem proper_bounded : ∀ p ∈ bounded, p.Proper := by
  simp only [bounded, List.forall_mem_cons]
  refine ⟨⟨by decide, by simp⟩, ⟨by decide, ?_⟩, ⟨by decide, ?_⟩, ⟨by decide, by simp⟩, by simp⟩
  · simp only [List.forall_mem_cons]
    exact ⟨by decide +kernel, by decide +kernel, by simp⟩
  · simp only [List.forall_mem_cons]
    exact ⟨by decide +kernel, by simp⟩

private theorem writtenBlock_bounded : TypeParameter.WrittenBlock bounded boundedBlock := by
  have hBounded : "V  extends \tMap<A , B & C>&  Set < ? super V >\n".toList =
      [] ++ ("V".toList ++ ([' ', ' '] ++ ("extends".toList ++ ([' ', '\t'] ++
        List.intercalate ['&'] ["Map<A , B & C>".toList, "  Set < ? super V >\n".toList])))) := by
    decide +kernel
  have hKeyword : "extends extends extends".toList = [] ++ ("extends".toList ++ ([' '] ++
      ("extends".toList ++ ([' '] ++ List.intercalate ['&'] ["extends".toList])))) := by
    decide +kernel
  refine ⟨[" K ".toList, "V  extends \tMap<A , B & C>&  Set < ? super V >\n".toList,
    "extends extends extends".toList, " U&\t".toList],
    .cons (.name ?_) (.cons ?_ (.cons ?_ (.cons (.name ?_) .nil))),
    [], [], .nil, .nil, by decide +kernel⟩
  · exact ⟨[' '], [' '], by decide, by decide, by decide +kernel⟩
  · rw [hBounded]
    refine .bounds (by simp) (by decide) (by decide) (by decide) (.cons (.refl _) (.cons ?_ .nil))
    exact ⟨[' ', ' '], ['\n'], by decide, by decide, by decide +kernel⟩
  · rw [hKeyword]
    exact .bounds (by simp) (by decide) (by decide) (by decide) (.cons (.refl _) .nil)
  · exact ⟨[' '], ['\t'], by decide, by decide, by decide +kernel⟩

theorem TypeParameter.readBlock_roundtrip_bounded :
    (bounded ≠ [] ∧ (∀ p ∈ bounded, p.Proper) ∧ WrittenBlock bounded boundedBlock) ∧
      readBlock boundedBlock = .ok bounded ∧
      ∃ i, Interface.ofTokens boundedTokens = .ok (some i) ∧ i.typeParameters = bounded ∧
        i.typeArguments.toList = "<K, V, extends, U&>".toList := by
  have hRun : (Interface.ofTokens boundedTokens).toOption.join.map Interface.typeBlock =
      some (some boundedBlock) := by
    decide +kernel
  obtain ⟨hRead, hDeclares, hArguments⟩ :=
    readBlock_roundtrip (by decide) proper_bounded writtenBlock_bounded
  obtain ⟨i, hTokens, hBlock⟩ := Interface.exists_of_run hRun
  have hParameters := hDeclares boundedTokens i hTokens hBlock
  exact ⟨⟨by decide, proper_bounded, writtenBlock_bounded⟩, hRead, i, hTokens, hParameters,
    (hArguments i hParameters).1⟩

end BinderIdl
