import BinderIdl.Proofs.Stub.Banner
import BinderIdl.Proofs.Stub.Lines

/-! The package of a generated file. The check of a file knows words with dots between them,
while the names of a definition may also have dollar signs: the clause that a file starts
with is a package to the check exactly if there is none in it. -/
namespace BinderIdl

open Java

/-- A character of a qualified name. -/
def isNameChar (c : Char) : Bool := Scan.continuesIdentifier c || c == '.'

theorem isBlank_of_isNameChar {c : Char} (h : isNameChar c = true) : Text.isBlank c = false := by
  rw [Bool.eq_false_iff]
  intro hBlank
  have hWord := Text.isWord_of_isBlank hBlank
  simp only [isNameChar, Scan.continuesIdentifier, hWord, Bool.false_or, Bool.or_eq_true,
    beq_iff_eq] at h
  rcases h with rfl | rfl <;> cases hBlank

/-- Of the characters of a name only the dollar sign is none of a package. -/
theorem isPackageChar_of_isNameChar {c : Char} (h : isNameChar c = true) :
    isPackageChar c = true ↔ c ≠ '$' := by
  constructor
  · rintro hPackage rfl
    revert hPackage
    decide
  · intro hDollar
    simpa [isNameChar, Scan.continuesIdentifier, hDollar, isPackageChar] using h

theorem IsQualified.isNameChar {s : String} (h : IsQualified s) :
    ∀ c ∈ s.toList, isNameChar c = true := by
  obtain ⟨names, -, hNames, rfl⟩ := h
  refine forall_mem_join ?_ fun name hName c hc => ?_
  · exact List.forall_mem_singleton.mpr rfl
  · rw [BinderIdl.isNameChar, (hNames name hName).2 c hc, Bool.true_or]

theorem IsQualified.plain {s : String} (h : IsQualified s) : Java.Plain s := by
  intro c hc
  have hName := h.isNameChar c hc
  rw [BinderIdl.isNameChar, Bool.or_eq_true, beq_iff_eq] at hName
  rcases hName with hName | rfl
  · exact isStructural_of_continues hName
  · rfl

namespace Java

/-- A clause ends at the first character that is none of a package. -/
theorem startsPackage_stops {name rest : List Char} {c : Char}
    (hName : ∀ x ∈ name, isPackageChar x = true) (hBlank : ∀ x ∈ name, Text.isBlank x = false)
    (hc : isPackageChar c = false) (hEnd : Text.isBlank c = false) :
    startsPackage ("package ".toList ++ (name ++ c :: rest)) = (!name.isEmpty && c == ';') := by
  have hStrip : Text.stripLeft (name ++ c :: rest) = name ++ c :: rest := by
    cases name with
    | nil => rw [List.nil_append, Text.stripLeft, List.dropWhile_cons_of_neg (by rw [hEnd]; decide)]
    | cons x xs =>
        have hx := hBlank x List.mem_cons_self
        rw [List.cons_append, Text.stripLeft, List.dropWhile_cons_of_neg (by rw [hx]; decide)]
  have hWord : (afterWord? "package" (Text.stripLeft ("package ".toList ++ (name ++ c :: rest)))).bind
      afterBlanks? = some (Text.stripLeft (name ++ c :: rest)) := rfl
  have hTake : (name ++ c :: rest).takeWhile isPackageChar = name := by
    rw [List.takeWhile_append_of_pos hName, List.takeWhile_cons_of_neg (by rw [hc]; decide),
      List.append_nil]
  have hDrop : (name ++ c :: rest).dropWhile isPackageChar = c :: rest := by
    rw [List.dropWhile_append_of_pos hName, List.dropWhile_cons_of_neg (by rw [hc]; decide)]
  have hRest : Text.stripLeft (c :: rest) = c :: rest := by
    rw [Text.stripLeft, List.dropWhile_cons_of_neg (by rw [hEnd]; decide)]
  rw [startsPackage, hWord, hStrip]
  dsimp only
  rw [List.span_eq_takeWhile_dropWhile, hTake, hDrop]
  cases name with
  | nil => rfl
  | cons x xs =>
      dsimp only
      rw [hRest]
      simp

/-- The clause with a name is a package exactly if the name has no dollar sign. -/
theorem startsPackage_clause {name : List Char} (hNil : name ≠ [])
    (hName : ∀ c ∈ name, isNameChar c = true) (rest : List Char) :
    startsPackage ("package ".toList ++ (name ++ ';' :: rest)) = true ↔ '$' ∉ name := by
  by_cases hDollar : '$' ∈ name
  · obtain ⟨before, after, rfl, hBefore⟩ := List.eq_append_cons_of_mem hDollar
    have hChars : ∀ x ∈ before, isNameChar x = true := fun x hx =>
      hName x (List.mem_append_left _ hx)
    rw [List.append_assoc, List.cons_append, startsPackage_stops _ _ rfl rfl]
    · simp [hDollar]
    · intro x hx
      refine (isPackageChar_of_isNameChar (hChars x hx)).mpr ?_
      rintro rfl
      exact hBefore hx
    · exact fun x hx => isBlank_of_isNameChar (hChars x hx)
  · rw [startsPackage_stops _ _ rfl rfl]
    · simp [hNil, hDollar]
    · intro x hx
      refine (isPackageChar_of_isNameChar (hName x hx)).mpr ?_
      rintro rfl
      exact hDollar hx
    · exact fun x hx => isBlank_of_isNameChar (hName x hx)

theorem startsPackage_feed (cs : List Char) : startsPackage ('\n' :: cs) = startsPackage cs := rfl

theorem declaresPackage_of_startsPackage {cs : List Char} (h : startsPackage cs = true) :
    declaresPackage cs = true := by
  cases cs with
  | nil => cases h
  | cons c cs => rw [declaresPackage, declaresPackageFrom, h, Bool.true_and, Bool.true_or]

theorem defect?_eq_noPackage_iff {text : String} :
    defect? text = some .noPackage ↔ declaresPackage (bareCode text.toList) = false := by
  rw [defect?]
  cases declaresPackage (bareCode text.toList) with
  | false => simp
  | true =>
      cases declaresType (bareCode text.toList) with
      | false => simp
      | true => simp [ite_eq_iff]

/-- Nothing without the letter is a package. -/
theorem mem_of_declaresPackageFrom {cs : List Char} {atLine : Bool}
    (h : declaresPackageFrom atLine cs = true) : 'k' ∈ cs := by
  have hStarts : ∀ cs : List Char, startsPackage cs = true → 'k' ∈ cs := by
    intro cs hcs
    rw [startsPackage] at hcs
    cases hWord : afterWord? "package" (Text.stripLeft cs) with
    | none =>
        rw [hWord] at hcs
        cases hcs
    | some rest =>
        rw [afterWord?] at hWord
        split at hWord
        · rename_i hStart
          exact Text.stripLeft_subset cs ((List.isPrefixOf_iff_prefix.mp hStart).subset (by decide))
        · cases hWord
  induction cs generalizing atLine with
  | nil =>
      rw [declaresPackageFrom, Bool.and_eq_true] at h
      exact hStarts [] h.2
  | cons c cs ih =>
      rw [declaresPackageFrom, Bool.or_eq_true, Bool.and_eq_true] at h
      rcases h with h | h
      · exact hStarts _ h.2
      · exact List.mem_cons_of_mem c (ih h)

/-- No package is declared inside a line. -/
theorem declaresPackageFrom_line {line : List Char} (hLine : '\n' ∉ line) (rest : List Char) :
    declaresPackageFrom false (line ++ rest) = declaresPackageFrom false rest := by
  induction line with
  | nil => rfl
  | cons c line ih =>
      rw [List.mem_cons, not_or] at hLine
      have hc : (c == '\n') = false := beq_eq_false_iff_ne.mpr (Ne.symm hLine.1)
      rw [List.cons_append, declaresPackageFrom, hc, ih hLine.2, Bool.false_and, Bool.false_or]

/-- Behind a clause a package is declared by the clause or behind it. -/
theorem declaresPackage_clause {name : List Char} (hName : '\n' ∉ name) (rest : List Char) :
    declaresPackage ("package ".toList ++ (name ++ ';' :: rest)) =
      (startsPackage ("package ".toList ++ (name ++ ';' :: rest)) || declaresPackageFrom false rest) := by
  have hLine : '\n' ∉ "ackage ".toList ++ (name ++ [';']) := by simpa using hName
  have hBehind := declaresPackageFrom_line hLine rest
  rw [List.append_assoc, List.append_assoc, List.singleton_append] at hBehind
  rw [← hBehind]
  rfl

end Java

/-- The code of a file starts with the clause of its package. -/
theorem Interface.bareCode_codeText {i : Interface} (hPackage : Java.Plain i.package)
    (ms : List MethodCode) :
    bareCode (i.codeText ms).toList = "package ".toList ++ (i.package.toList ++ ';' ::
      bareCode ("\n" ++ String.join ((i.codeLines ms).tail.map fun line => line ++ "\n")).toList) := by
  have hClause : Leaves ("package " ++ i.package ++ ";").toList ("package " ++ i.package ++ ";").toList :=
    .of_calm (((Code.fixed rfl).append (.word hPackage)).append (.fixed rfl)).calm
  have hLines : i.codeLines ms = ("package " ++ i.package ++ ";") :: (i.codeLines ms).tail := rfl
  rw [codeText, hLines, List.map_cons, String.join_cons, String.append_assoc, String.toList_append,
    hClause, List.tail_cons]
  simp

/-- The clause that the file of a definition starts with is a package exactly if no name in
it has a dollar sign, and then the file has its package. -/
theorem startsPackage_of_encodeInterface {filename : Option String} {definition : String} {s : Source}
    {i : Interface} {w : Writer} {banner : Banner} {d e : Desk} {text : String}
    (hRead : Source.read filename definition = .ok s) (hParse : Interface.ofSource s = .ok (some i))
    (hBanner : banner.Harmless) (hFile : w.encodeInterface i banner d = .ok text e) :
    (startsPackage (bareCode text.toList) = true ↔ '$' ∉ i.package.toList) ∧
      ('$' ∉ i.package.toList → defect? text ≠ some .noPackage) := by
  have hQualified := Interface.isQualified_package hRead hParse
  have hNil : i.package.toList ≠ [] := by
    obtain ⟨c, cs, hFirst, -⟩ := hQualified.exists_first
    rw [hFirst]
    exact List.cons_ne_nil c cs
  obtain ⟨ms, -, rfl⟩ := Writer.encodeMethods_of_encodeInterface hFile
  have hStarts : startsPackage (bareCode (i.fileText banner ms).toList) =
      startsPackage (bareCode (i.codeText ms).toList) := by
    rw [i.fileText_eq, String.toList_append]
    cases hShown : banner.shown with
    | true =>
        rw [Banner.leaves_text hShown hBanner, List.singleton_append, startsPackage_feed]
    | false => rw [Banner.text_hidden hShown, String.toList_empty, List.nil_append]
  have hClause : startsPackage (bareCode (i.fileText banner ms).toList) = true ↔
      '$' ∉ i.package.toList := by
    rw [hStarts, i.bareCode_codeText hQualified.plain]
    exact startsPackage_clause hNil hQualified.isNameChar _
  refine ⟨hClause, fun hDollar hDefect => ?_⟩
  rw [defect?_eq_noPackage_iff, declaresPackage_of_startsPackage (hClause.mpr hDollar)] at hDefect
  cases hDefect

private def measures : String := "package größe.maß_1; interface IMaß \x7b void f(in UUID[] ids); \x7d"

private def measuresChars : { cs : List Char // measures = String.ofList cs } := ⟨_, rfl⟩

private def measuresSource : Source :=
  ⟨none, measures, (Scan.place .start (Scan.lexemes measuresChars.1).1).1⟩

/-- Letters of every script are letters to the check. -/
theorem startsPackage_of_encodeInterface_measures : ∃ i text e,
    Source.read none measures = .ok measuresSource ∧
    Interface.ofSource measuresSource = .ok (some i) ∧ Banner.Harmless {} ∧
    (⟨0, {}⟩ : Writer).encodeInterface i {} {} = .ok text e ∧ '$' ∉ i.package.toList ∧
    startsPackage (bareCode text.toList) = true ∧ defect? text ≠ some .noPackage := by
  have hLexed : (Scan.lexemes measuresChars.1).2 = none := by decide +kernel
  have hRun : (Interface.ofTokens measuresSource.tokens).toOption.join.map (fun i =>
      (decide ('$' ∈ i.package.toList), (((⟨0, {}⟩ : Writer).encodeInterface i {}).answer {}).toBool)) =
      some (false, true) := by
    decide +kernel
  obtain ⟨i, hTokens, hParts⟩ := Interface.exists_of_run hRun
  have hDollar : '$' ∉ i.package.toList := of_decide_eq_false (congrArg Prod.fst hParts)
  obtain ⟨text, e, hFile⟩ := Encoding.exists_of_answer (congrArg Prod.snd hParts)
  have hRead : Source.read none measures = .ok measuresSource :=
    Source.read_of_lexemes measuresChars.2 hLexed none
  have hParse := Interface.ofSource_of_ofTokens hTokens
  have hBanner : Banner.Harmless {} := ⟨nofun, nofun⟩
  obtain ⟨hClause, hDefect⟩ := startsPackage_of_encodeInterface hRead hParse hBanner hFile
  exact ⟨i, text, e, hRead, hParse, hBanner, hFile, hDollar, hClause.mpr hDollar, hDefect hDollar⟩

private def dollar : Interface where
  package := "com.$x"
  imports := []
  javadoc := none
  modifiers := []
  name := "IFoo"
  typeBlock := none
  typeParameters := []
  methods := []

/-- A text without the letter that every package clause has. -/
private def Mute (s : String) : Prop := 'k' ∉ s.toList

private theorem Mute.fixed {cs : List Char} (h : (cs.all (· != 'k')) = true) :
    Mute (String.ofList cs) := by
  intro hMem
  rw [String.toList_ofList] at hMem
  cases List.all_eq_true.mp h _ hMem

private theorem Mute.append {s t : String} (hs : Mute s) (ht : Mute t) : Mute (s ++ t) := by
  rw [Mute, String.toList_append, List.mem_append, not_or]
  exact ⟨hs, ht⟩

/-- Lines without the letter. -/
private def Silent (ls : List String) : Prop := ∀ l ∈ ls, Mute l

private theorem Silent.line {s : String} {ls : List String} {depth : Nat} (h : Mute s)
    (hRest : Silent ls) : Silent (lineAt depth s :: ls) := by
  have hPad : Mute (Stmt.pad depth) := by
    intro hMem
    rw [Stmt.pad, String.toList_ofList, Text.spaces, List.mem_replicate] at hMem
    cases hMem.2
  exact List.forall_mem_cons.mpr ⟨hPad.append h, hRest⟩

private theorem Silent.blank {ls : List String} (h : Silent ls) : Silent ("" :: ls) :=
  List.forall_mem_cons.mpr ⟨.fixed rfl, h⟩

private theorem Silent.nil : Silent [] := List.forall_mem_nil _

private theorem Silent.append {ls ls' : List String} (h : Silent ls) (h' : Silent ls') :
    Silent (ls ++ ls') :=
  List.forall_mem_append.mpr ⟨h, h'⟩

private theorem silent_dollar : Silent (dollar.codeLines []).tail := by
  have hName : Mute dollar.name := .fixed rfl
  have hBlock : Mute dollar.typeBlockText := .fixed rfl
  have hArguments : Mute dollar.typeArguments := .fixed rfl
  have hApplied : Mute dollar.appliedName := hName.append hArguments
  have hQualified : Mute dollar.qualifiedName :=
    Mute.append (.append (.fixed rfl) (.fixed rfl)) hName
  have hInterface : Silent ["public interface " ++ dollar.name ++ dollar.typeBlockText ++
      " extends android.os.IInterface \x7b"] :=
    List.forall_mem_singleton.mpr
      ((((Mute.fixed rfl).append hName).append hBlock).append (.fixed rfl))
  have hStub : Silent dollar.stubHead := by
    refine .line (.fixed rfl) (.line ?_ (.line ?_ (.blank ?_)))
    · exact ((((Mute.fixed rfl).append hBlock).append (.fixed rfl)).append hApplied).append
        (.fixed rfl)
    · exact ((Mute.fixed rfl).append hQualified).append (.fixed rfl)
    · iterate 4 refine .line (.fixed rfl) ?_
      exact .blank .nil
  have hHead : Silent dollar.asInterfaceHead := by
    refine .line (.fixed rfl) (.line ?_ (.line (.fixed rfl) (.line ?_ .nil)))
    · exact ((Mute.fixed rfl).append hName).append (.fixed rfl)
    · exact ((Mute.fixed rfl).append hName).append (.fixed rfl)
  have hBody : Silent dollar.asInterfaceBody := by
    iterate 4 refine .line (.fixed rfl) ?_
    refine .line (((Mute.fixed rfl).append hName).append (.fixed rfl)) ?_
    refine .line (((Mute.fixed rfl).append hApplied).append (.fixed rfl)) (.line (.fixed rfl) ?_)
    refine .line (((((Mute.fixed rfl).append hName).append (.fixed rfl)).append hArguments).append
      (.fixed rfl)) (.line (.fixed rfl) (.blank ?_))
    iterate 4 refine .line (.fixed rfl) ?_
    exact .blank .nil
  have hDispatcher : Silent (Interface.dispatcherHead ++ Interface.dispatcherTail) := by
    refine .line (.fixed rfl) (.line ((Mute.fixed rfl).append (.fixed rfl)) ?_)
    iterate 8 refine .line (.fixed rfl) ?_
    exact .nil
  have hProxy : Silent dollar.proxyHead := by
    refine .line (((((Mute.fixed rfl).append hBlock).append (.fixed rfl)).append hApplied).append
      (.fixed rfl)) (.line (.fixed rfl) (.blank ?_))
    iterate 3 refine .line (.fixed rfl) ?_
    refine .blank ?_
    iterate 4 refine .line (.fixed rfl) ?_
    refine .blank ?_
    iterate 3 refine .line (.fixed rfl) ?_
    exact .nil
  have hEnd : Silent [lineAt 2 "\x7d", lineAt 1 "\x7d", "\x7d"] :=
    .line (.fixed rfl) (.line (.fixed rfl) (List.forall_mem_singleton.mpr (.fixed rfl)))
  exact (Silent.blank .nil).append (hInterface.append (hStub.append (hHead.append (hBody.append
    (hDispatcher.append ((Silent.blank .nil).append (hProxy.append hEnd)))))))

private def dollarText : String := "package com.$x; interface IFoo \x7b \x7d"

private def dollarChars : { cs : List Char // dollarText = String.ofList cs } := ⟨_, rfl⟩

private def dollarSource : Source :=
  ⟨none, dollarText, (Scan.place .start (Scan.lexemes dollarChars.1).1).1⟩

/-- A definition may have a dollar sign in its package, and then its file has none. -/
theorem package_of_dollar_missing : ∃ text e,
    Source.read none dollarText = .ok dollarSource ∧
    Interface.ofSource dollarSource = .ok (some dollar) ∧
    (⟨0, {}⟩ : Writer).encodeInterface dollar { shown := false } {} = .ok text e ∧
    defect? text = some .noPackage := by
  have hLexed : (Scan.lexemes dollarChars.1).2 = none := by decide +kernel
  have hRun : (Interface.ofTokens dollarSource.tokens).toOption.join.map id = some dollar := by
    decide +kernel
  obtain ⟨i, hTokens, hSame⟩ := Interface.exists_of_run hRun
  obtain rfl : i = dollar := hSame
  obtain ⟨e, hFile⟩ : ∃ e, (⟨0, {}⟩ : Writer).encodeInterface dollar { shown := false } {} =
      .ok (dollar.fileText { shown := false } []) e := ⟨_, rfl⟩
  have hRead : Source.read none dollarText = .ok dollarSource :=
    Source.read_of_lexemes dollarChars.2 hLexed none
  have hParse := Interface.ofSource_of_ofTokens hTokens
  refine ⟨_, e, hRead, hParse, hFile, ?_⟩
  have hQualified : IsQualified dollar.package := Interface.isQualified_package hRead hParse
  have hBreak : '\n' ∉ dollar.package.toList := fun hMem => by
    cases hQualified.isNameChar _ hMem
  have hStarts : startsPackage ("package ".toList ++ (dollar.package.toList ++ ';' ::
      bareCode ("\n" ++ String.join ((dollar.codeLines []).tail.map fun line => line ++ "\n")).toList)) =
      false := by
    rw [Bool.eq_false_iff, ne_eq, startsPackage_clause (by decide) hQualified.isNameChar, not_not]
    decide
  rw [defect?_eq_noPackage_iff, dollar.fileText_eq, Banner.text_hidden rfl, String.empty_append,
    dollar.bareCode_codeText hQualified.plain, declaresPackage_clause hBreak, hStarts, Bool.false_or,
    Bool.eq_false_iff]
  intro hBehind
  have hMem := bareCode_subset _ (mem_of_declaresPackageFrom hBehind)
  rw [String.toList_append, List.mem_append, String.toList_join, List.mem_flatMap] at hMem
  rcases hMem with hFeed | ⟨line, hLine, hMem⟩
  · exact absurd hFeed (by decide)
  · obtain ⟨l, hl, rfl⟩ := List.mem_map.mp hLine
    exact (silent_dollar l hl).append (.fixed rfl) hMem

end BinderIdl
