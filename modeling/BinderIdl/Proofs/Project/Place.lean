import BinderIdl.Proofs.Project.Validation
import BinderIdl.Proofs.Text.SmallLetters

/-! Where a generated file stands. A definition is compiled only if the names of its folders,
joined with dots, are its package, and if its name without as many glyphs as the extension has
is the name of its interface. That ties the package to the folders only if no folder has a dot in
its name, and the name of the generated file to the interface only if the extension starts at
the last dot of the name. -/
namespace BinderIdl

open Text (Loose loose Glyph)

/-- The parts of the package between its dots. -/
def Interface.packageParts (i : Interface) : List Loose := Path.pieces (.char '.') (loose i.package)

/-- A file has the name of the interface in front of its last dot. -/
def Interface.Names (i : Interface) (path : Path) : Prop :=
  ∃ last, path.name = loose i.name ++ .char '.' :: last ∧ .char '.' ∉ last

namespace Path

/-- No folder on the way has a dot in its name. -/
def DotlessFolders (path : Path) : Prop := ∀ part ∈ path.parent.parts, .char '.' ∉ part

theorem stem_of_not_mem {name : Loose} (h : .char '.' ∉ name) : stem name = name := by
  have hAll : ∀ g ∈ name.reverse, (g != .char '.') = true := by
    intro g hg
    rw [bne_iff_ne]
    rintro rfl
    exact h (List.mem_reverse.mp hg)
  have hTake : (name.reverse ++ []).takeWhile (· != Glyph.char '.') = name.reverse ++ [] :=
    List.takeWhile_append_of_pos hAll
  rw [List.append_nil] at hTake
  simp only [stem, hTake, List.reverse_reverse, Nat.sub_self, List.take_zero, List.length_nil]
  exact if_pos (.inr (Nat.zero_le 1))

theorem stem_append_cons {front last : Loose} (h : .char '.' ∉ last) :
    stem (front ++ .char '.' :: last) =
      if last = [] ∨ front = [] then front ++ .char '.' :: last else front := by
  have hLength : (front ++ Glyph.char '.' :: last).length - last.length =
      (front ++ [Glyph.char '.']).length := by
    simp only [List.length_append, List.length_cons, List.length_nil]
    omega
  have hTake : (front ++ Glyph.char '.' :: last).take (front ++ [Glyph.char '.']).length =
      front ++ [Glyph.char '.'] := by
    have hText := List.append_cons front (Glyph.char '.') last
    rw [hText, List.take_left]
  have hShort : (front ++ [Glyph.char '.']).length ≤ 1 ↔ front = [] := by
    simp
  simp only [stem, Text.takeWhile_reverse_append_cons h, List.reverse_reverse, hLength, hTake,
    List.dropLast_concat, List.isEmpty_iff, hShort]

/-- The stem of a name is a part of it in front of its last dot. -/
theorem stem_eq_iff {name front : Loose} (hFront : front ≠ [])
    (hLonger : front.length + 2 ≤ name.length) :
    stem name = front ↔ ∃ last, name = front ++ .char '.' :: last ∧ .char '.' ∉ last := by
  constructor
  · intro hStem
    have hOther : stem name ≠ name := by
      intro hSame
      rw [← hStem, hSame] at hLonger
      omega
    by_cases hMem : .char '.' ∈ name
    · obtain ⟨front', last, rfl, hLast⟩ := Text.exists_append_cons_of_mem hMem
      rw [stem_append_cons hLast] at hStem hOther
      split at hStem
      · rename_i hEnds
        exact absurd (if_pos hEnds) hOther
      · subst hStem
        exact ⟨last, rfl, hLast⟩
    · exact absurd (stem_of_not_mem hMem) hOther
  · rintro ⟨last, rfl, hLast⟩
    have hSome : last ≠ [] := by
      rintro rfl
      simp at hLonger
    rw [stem_append_cons hLast, if_neg (not_or.mpr ⟨hSome, hFront⟩)]

/-- A file below a folder with another suffix, part by part. -/
theorem generated_eq_iff {base path : Path} {folders : List Loose} {name : Loose}
    (hRoot : path.root = .none) (hNil : path.parts ≠ []) :
    (⟨(base / path).root,
        (base / path).parts.dropLast ++ [generatedName (base / path).name]⟩ : Path) =
        base / (⟨.none, folders ++ [name]⟩ : Path) ↔
      path.parent.parts = folders ∧ generatedName path.name = name := by
  have hBelow : base / (⟨.none, folders ++ [name]⟩ : Path) =
      ⟨base.root, base.parts ++ (folders ++ [name])⟩ := rfl
  rw [hBelow, root_append hRoot, parts_append hRoot, name_append hRoot hNil,
    List.dropLast_append_of_ne_nil hNil, List.append_assoc, Path.mk.injEq,
    List.append_cancel_left_eq]
  constructor
  · rintro ⟨-, hParts⟩
    obtain ⟨hFolders, hName⟩ := List.append_inj' hParts rfl
    exact ⟨hFolders, List.singleton_inj.mp hName⟩
  · rintro ⟨rfl, rfl⟩
    exact ⟨rfl, rfl⟩

end Path

namespace Project

open Work

variable {p : Project} {w w' : Workshop} {path g : Path} {i : Interface}

/-- The path is one of a definition that was found. -/
def Finds (p : Project) (path : Path) (w : Workshop) : Prop :=
  ∃ places absolute, p.places w = .ok places w ∧ places.sort absolute = .keep path

theorem checkPlace_eq_ok {extension : Loose}
    (hExtension : p.config.sourceExtension = .text extension)
    (h : p.checkPlace path i w = .ok () w) :
    loose i.package = List.intercalate (loose ".") path.parent.allParts ∧
      loose i.name = nameBefore path.name extension.length := by
  have hLength : p.extensionLength = .ok extension.length := by
    rw [extensionLength, hExtension]
  rw [checkPlace, hLength] at h
  split at h
  · cases h
  · rename_i hPackage
    obtain ⟨_, _, hUsed, hRest⟩ := bind_eq_ok h
    cases hUsed
    split at hRest
    · cases hRest
    · rename_i hName
      exact ⟨not_not.mp hPackage, not_not.mp hName⟩

theorem generatedPath_eq_ok (hJava : p.config.javaExtension = .text (loose ".java"))
    (h : p.generatedPath path w = .ok g w) : ∃ gen, p.config.genDir = .text gen ∧
      g = ⟨(p.folder / Path.read gen / path).root,
        (p.folder / Path.read gen / path).parts.dropLast ++
          [Path.generatedName (p.folder / Path.read gen / path).name]⟩ := by
  obtain ⟨folder, v, hFolder, hRest⟩ := bind_eq_ok h
  cases hGen : p.config.genDir with
  | text gen =>
      rw [hGen] at hFolder
      cases hFolder
      refine ⟨gen, rfl, ?_⟩
      rw [hJava] at hRest
      cases hSuffix : withSuffix (p.folder / Path.read gen / path) (.text (loose ".java")) with
      | error fault =>
          rw [hSuffix] at hRest
          cases hRest
      | ok generated =>
          rw [hSuffix] at hRest
          cases hRest
          rw [withSuffix, Path.withSuffix, if_neg (by decide)] at hSuffix
          split at hSuffix
          · rename_i generated' hPath
            split at hPath
            · cases hPath
            · cases hPath
              cases hSuffix
              rfl
          · cases hSuffix
  | _ =>
      rw [hGen] at hFolder
      cases hFolder

/-- What is above the root is not the start of a package. -/
theorem root_of_package (hPackage : IsQualified i.package)
    (h : loose i.package = List.intercalate (loose ".") path.parent.allParts) :
    path.root = .none := by
  obtain ⟨c, rest, hFirst, hWord⟩ := hPackage.exists_first
  have hHead : (loose i.package).head? = some (.char c) := by rw [loose, hFirst]; rfl
  by_contra hRoot
  obtain ⟨more, hMore⟩ : ∃ more, path.parent.allParts = Path.rootText path.root :: more := by
    refine ⟨path.parent.parts, ?_⟩
    rw [Path.allParts, if_pos (by simpa [Path.isAbsolute, Path.parent] using hRoot)]
    rfl
  have hSlash : (List.intercalate (loose ".") path.parent.allParts).head? = some (.char '/') := by
    rw [hMore]
    cases hKind : path.root with
    | none => exact absurd hKind hRoot
    | slash | twoSlashes => cases more <;> rfl
  rw [h, hSlash] at hHead
  cases hHead
  exact absurd hWord (by decide +kernel)

/-- The folders are the parts of the package if no dot is inside one of them. -/
theorem parts_eq_packageParts_iff (hPackage : IsQualified i.package)
    (h : loose i.package = List.intercalate (loose ".") path.parent.parts) :
    path.parent.parts = i.packageParts ↔ path.DotlessFolders := by
  have hNil : path.parent.parts ≠ [] := by
    intro hNone
    obtain ⟨c, rest, hFirst, -⟩ := hPackage.exists_first
    rw [hNone, loose, hFirst] at h
    cases h
  have hPieces : i.packageParts = path.parent.parts.flatMap (Path.pieces (.char '.')) := by
    rw [Interface.packageParts, h]
    exact Path.pieces_intercalate hNil
  constructor
  · intro hSame part hPart
    rw [hSame] at hPart
    exact Path.not_mem_of_mem_pieces hPart
  · intro hDotless
    rw [hPieces, Path.flatMap_pieces hDotless]

section Name

variable {extension : Loose} (hName : loose i.name = nameBefore path.name (extension.length + 1))
  (hIdentifier : IsIdentifier i.name)

include hName hIdentifier

theorem exists_name_eq : ∃ rest, path.name = loose i.name ++ rest ∧
    rest.length = extension.length + 1 := by
  rw [nameBefore, if_neg (Nat.succ_ne_zero _)] at hName
  have hSome := List.length_pos_iff.mpr hIdentifier.loose_ne_nil
  refine ⟨path.name.drop (path.name.length - (extension.length + 1)), ?_, ?_⟩
  · rw [hName, List.take_append_drop]
  · rw [hName, List.length_take] at hSome
    rw [List.length_drop]
    omega

/-- A definition that was found by its extension is named for its interface. -/
theorem names_of_suffix (hDot : .char '.' ∉ extension)
    (hMark : .char Text.combiningDot ∉ extension)
    (h : Text.lowercase (.char '.' :: extension) <:+ Text.lowercase path.name) :
    i.Names path := by
  obtain ⟨front, last, hText, hLast, hLength⟩ := Text.exists_of_suffix_lowercase hDot hMark h
  obtain ⟨rest, hRest, hRestLength⟩ := exists_name_eq hName hIdentifier
  have hSame : loose i.name ++ rest = front ++ .char '.' :: last := hRest.symm.trans hText
  have hNoDot : ¬front.length < (loose i.name).length := by
    intro hLong
    rcases List.append_eq_append_iff.mp hSame with ⟨more, rfl, -⟩ | ⟨more, hMore, hTail⟩
    · simp only [List.length_append] at hLong
      omega
    · cases more with
      | nil => simp [hMore] at hLong
      | cons g more =>
          obtain ⟨rfl, -⟩ := List.cons.inj hTail
          exact hIdentifier.dot_not_mem (by simp [hMore])
  have hLengths := congrArg List.length hSame
  simp only [List.length_append, List.length_cons] at hLengths
  obtain ⟨hFront, hBehind⟩ := List.append_inj hSame (by omega)
  exact ⟨last, by rw [hText, hFront], hLast⟩

end Name

theorem extension_of_places {places : Places} {extension : Loose}
    (hExtension : p.config.sourceExtension = .text extension) (h : p.places w = .ok places w) :
    places.extension = Text.lowercase extension := by
  obtain ⟨_, _, hUsed, hRest⟩ := bind_eq_ok h
  rw [sourceExtension, hExtension] at hUsed
  cases hUsed
  obtain ⟨_, _, -, hRest⟩ := bind_eq_ok hRest
  obtain ⟨_, _, -, hRest⟩ := bind_eq_ok hRest
  cases hRest
  rfl

theorem suffix_of_finds {extension : Loose}
    (hExtension : p.config.sourceExtension = .text extension) (hNil : path.parts ≠ [])
    (h : p.Finds path w) : Text.lowercase extension <:+ Text.lowercase path.name := by
  obtain ⟨places, absolute, hPlaces, hSort⟩ := h
  obtain ⟨hSuffix, hBelow⟩ := sort_eq_keep hSort
  have hName : absolute.name = path.name := by
    obtain ⟨folder, hParts⟩ : ∃ folder, absolute.parts = folder ++ path.parts := by
      rcases hBelow with hBelow | hBelow
      · exact ⟨_, (Path.below?_eq_some hBelow).2.1⟩
      · exact ⟨_, (Path.below?_eq_some hBelow).2.1⟩
    rw [Path.name, Path.name, hParts, List.getLast?_append, List.getLast?_eq_some_getLast hNil,
      Option.some_or]
  rw [extension_of_places hExtension hPlaces, hName] at hSuffix
  exact List.isSuffixOf_iff_suffix.mp hSuffix

end Project

/-- Where a file was generated, the folders of the definition joined with dots are its package.
They are the parts of the package exactly if no folder has a dot in its name, and the generated
file is the one of the interface in the folders of the package exactly if the file is also
named for the interface up to its last dot. A definition that was found is named so if the
extension has no second dot and no combining dot. -/
theorem Project.place_of_compile {p : Project} {path g : Path} {w w' : Workshop} {extension : Loose}
    (hExtension : p.config.sourceExtension = .text (.char '.' :: extension))
    (hSome : extension ≠ []) (hJava : p.config.javaExtension = .text (loose ".java"))
    (hDone : p.compile path w = .ok (some g) w') :
    ∃ s i gen, p.Defines path w s i ∧ p.config.genDir = .text gen ∧
      loose i.package = List.intercalate (loose ".") path.parent.parts ∧
      (path.parent.parts = i.packageParts ↔ path.DotlessFolders) ∧
      (g = p.folder / Path.read gen /
          (⟨.none, i.packageParts ++ [loose i.name ++ loose ".java"]⟩ : Path) ↔
        path.DotlessFolders ∧ i.Names path) ∧
      (p.Finds path w → .char '.' ∉ extension → .char Text.combiningDot ∉ extension →
        i.Names path) := by
  obtain ⟨s, i, -, -, -, hDefines, hGenerated, hPlace, -⟩ := compile_eq_some hDone
  obtain ⟨hJoined, hName⟩ := checkPlace_eq_ok hExtension hPlace
  obtain ⟨gen, hGen, rfl⟩ := generatedPath_eq_ok hJava hGenerated
  obtain ⟨_, _, -, -, hRead, hParse⟩ := id hDefines
  have hPackage := Interface.isQualified_package hRead hParse
  have hIdentifier := Interface.isIdentifier_name hRead hParse
  have hRoot := root_of_package hPackage hJoined
  rw [Path.allParts, if_neg (by simp [Path.isAbsolute, Path.parent, hRoot])] at hJoined
  rw [List.length_cons] at hName
  have hFolders := parts_eq_packageParts_iff hPackage hJoined
  obtain ⟨rest, hRest, hLength⟩ := exists_name_eq hName hIdentifier
  have hNil : path.parts ≠ [] := by
    intro hNone
    rw [Path.name, hNone] at hRest
    exact hIdentifier.loose_ne_nil (List.append_eq_nil_iff.mp hRest.symm).1
  have hStem : Path.stem path.name = loose i.name ↔ i.Names path := by
    refine Path.stem_eq_iff hIdentifier.loose_ne_nil ?_
    have hMore := List.length_pos_iff.mpr hSome
    rw [hRest, List.length_append]
    omega
  refine ⟨s, i, gen, hDefines, hGen, hJoined, hFolders, ?_, fun hFinds hDot hMark =>
    names_of_suffix hName hIdentifier hDot hMark (suffix_of_finds hExtension hNil hFinds)⟩
  rw [Path.generated_eq_iff hRoot hNil, hFolders, ← hStem, Path.generatedName]
  exact and_congr_right fun _ => List.append_left_inj (loose ".java")

/-- A project in the current folder that writes its files in place. -/
private def filing : Project where
  folder := Path.read (loose "project")
  config := { output := some (.options (.bool false) (.bool false)) }
  commandLine := none
  known := []

private def card : String := "package com.example; interface ICard \x7b \x7d"

/-- The definition is the only file, below some folders. -/
private def filed (folders : List String) : Workshop where
  tree := ⟨((folders.inits.map fun names => "project" :: "src" :: names).map fun names =>
      (names.map FileName.ofString, .folder)) ++
    [(("project" :: "src" :: (folders ++ ["ICard.aidl2"])).map FileName.ofString,
      .file card.toUTF8),
    (["project"].map FileName.ofString, .folder)]⟩
  current := []

private theorem exists_compile_filed {folders : List String} {path : Path}
    (hRoot : path.root = .none) (hPlain : path.Plain)
    (hFetch : (filed folders).tree.fetch [] (filing.source path).print = .ok card.toUTF8)
    (hWrite : ∀ text w, (filed folders).Alike w →
      ∃ w', filing.writeGenerated (filing.target path) text w = .ok () w' ∧ w'.log = none)
    (hRun : ((Project.decoded path card.toUTF8).bind (Project.parsed path)).toOption.join.map
      (fun held => (held.2.package, held.2.name,
        decide (Project.misplacement? path held.2 = none),
        (((⟨0, filing.contextOf held.1 held.2 (filed folders).tree []⟩ : Writer).encodeInterface
          held.2 (filing.bannerOf path)).answer {}).toBool)) =
      some ("com.example", "ICard", true, true)) :
    ∃ w', filing.compile path (filed folders) = .ok (some (filing.target path)) w' ∧
      ∀ s i, filing.Defines path (filed folders) s i →
        i.package = "com.example" ∧ i.name = "ICard" := by
  obtain ⟨⟨s, i⟩, hHeld, hParts⟩ := exists_of_outcome hRun
  obtain ⟨hPackage, hName, hPlace, hEncodes⟩ : i.package = "com.example" ∧ i.name = "ICard" ∧
      Project.misplacement? path i = none ∧ _ = true := by simpa using hParts
  obtain ⟨text, desk, hFile⟩ := Encoding.exists_of_answer hEncodes
  have hDraft := Project.draft_of_held hFetch hHeld hPlace hFile
  obtain ⟨_, _, -, -, hDone⟩ := Project.compile_of_draft filing path (filed folders)
    ⟨rfl, rfl, rfl, rfl⟩ hRoot hPlain rfl hDraft (hWrite text)
  refine ⟨_, hDone, fun s' i' hDefines => ?_⟩
  obtain ⟨-, rfl⟩ := hDefines.eq_of_held ⟨rfl, rfl, rfl, rfl⟩ hFetch hHeld
  exact ⟨hPackage, hName⟩

private def cardPath : Path := Path.read (loose "com/example/ICard.aidl2")

theorem Project.place_of_compile_card : ∃ g w',
    filing.compile cardPath (filed ["com", "example"]) = .ok (some g) w' ∧
      filing.Finds cardPath (filed ["com", "example"]) ∧
      cardPath.parent.parts = [loose "com", loose "example"] ∧
      g = Path.read (loose "project/gen/com/example/ICard.java") := by
  have hWrite : ∀ text w, (filed ["com", "example"]).Alike w →
      ∃ w', filing.writeGenerated (filing.target cardPath) text w = .ok () w' ∧ w'.log = none := by
    rintro text ⟨tree, current, lists, journal, log⟩ ⟨rfl, rfl, rfl⟩
    exact ⟨_, rfl, rfl⟩
  obtain ⟨w', hDone, hCard⟩ :=
    exists_compile_filed rfl (Path.read_plain _) rfl hWrite (by decide +kernel)
  have hExtension : filing.config.sourceExtension = .text (.char '.' :: loose "aidl2") := rfl
  have hFinds : filing.Finds cardPath (filed ["com", "example"]) :=
    ⟨_, Path.read (loose "/project/src/com/example/ICard.aidl2"),
      places_eq ⟨rfl, rfl, rfl, rfl⟩ _, by decide +kernel⟩
  have hDotless : ∀ part ∈ cardPath.parent.parts, Glyph.char '.' ∉ part := by decide +kernel
  obtain ⟨s, i, gen, hDefines, hGen, -, hParts, hFile, hNames⟩ :=
    place_of_compile hExtension (by decide) rfl hDone
  obtain ⟨hPackage, hName⟩ := hCard s i hDefines
  cases hGen
  have hSame := hFile.mpr ⟨hDotless, hNames hFinds (by decide) (by decide)⟩
  refine ⟨_, w', hDone, hFinds, (hParts.mpr hDotless).trans ?_, hSame.trans ?_⟩
  · rw [Interface.packageParts, hPackage]
    decide +kernel
  · rw [Interface.packageParts, hPackage, hName]
    decide +kernel

private def dottedPath : Path := Path.read (loose "com.example/ICard.aidl2")

/-- One folder with a dot in its name passes for the two folders of the package. -/
theorem Project.compile_in_dotted_folder : ∃ g w' s i,
    filing.compile dottedPath (filed ["com.example"]) = .ok (some g) w' ∧
      filing.Finds dottedPath (filed ["com.example"]) ∧
      filing.Defines dottedPath (filed ["com.example"]) s i ∧
      i.packageParts = [loose "com", loose "example"] ∧
      dottedPath.parent.parts = [loose "com.example"] ∧
      g = Path.read (loose "project/gen/com.example/ICard.java") := by
  have hWrite : ∀ text w, (filed ["com.example"]).Alike w →
      ∃ w', filing.writeGenerated (filing.target dottedPath) text w = .ok () w' ∧
        w'.log = none := by
    rintro text ⟨tree, current, lists, journal, log⟩ ⟨rfl, rfl, rfl⟩
    exact ⟨_, rfl, rfl⟩
  obtain ⟨w', hDone, hCard⟩ :=
    exists_compile_filed rfl (Path.read_plain _) rfl hWrite (by decide +kernel)
  have hFinds : filing.Finds dottedPath (filed ["com.example"]) :=
    ⟨_, Path.read (loose "/project/src/com.example/ICard.aidl2"),
      places_eq ⟨rfl, rfl, rfl, rfl⟩ _, by decide +kernel⟩
  obtain ⟨s, i, -, -, -, hDefines, -⟩ := compile_eq_some hDone
  refine ⟨_, w', s, i, hDone, hFinds, hDefines, ?_, by decide +kernel, by decide +kernel⟩
  rw [Interface.packageParts, (hCard s i hDefines).1]
  decide +kernel

end BinderIdl
