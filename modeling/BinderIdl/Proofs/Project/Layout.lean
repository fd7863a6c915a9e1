import BinderIdl.Project
import BinderIdl.Proofs.Files.Tree

/-! Where the files of a project with the usual folders and extensions are: which paths
count as definitions, and which files belong to a definition. -/
namespace BinderIdl

open Text (Loose loose)

/-- The folders and extensions are the usual ones. -/
structure Config.Usual (c : Config) : Prop where
  sourceDir : c.sourceDir = .text (loose "src")
  genDir : c.genDir = .text (loose "gen")
  sourceExtension : c.sourceExtension = .text (loose ".aidl2")
  javaExtension : c.javaExtension = .text (loose ".java")

theorem Config.usual_default : Config.Usual {} := ⟨rfl, rfl, rfl, rfl⟩

/-- A workshop with the same files, the same current folder and the same log file. -/
structure Workshop.Alike (w w' : Workshop) : Prop where
  tree : w'.tree = w.tree
  current : w'.current = w.current
  log : w'.log = w.log

namespace Workshop

variable {w w' w'' : Workshop}

theorem Alike.refl (w : Workshop) : w.Alike w := ⟨rfl, rfl, rfl⟩

theorem Alike.trans (h : w.Alike w') (h' : w'.Alike w'') : w.Alike w'' :=
  ⟨h'.tree.trans h.tree, h'.current.trans h.current, h'.log.trans h.log⟩

/-- Without a log file, telling something leaves the files alone. -/
theorem alike_tell (h : w.log = none) (event : Event) : w.Alike (w.tell event) := by
  constructor
  · simp only [tell, h]
  · rfl
  · rfl

theorem alike_tellAll (h : w.log = none) (events : List Event) : w.Alike (w.tellAll events) := by
  induction events generalizing w with
  | nil => exact .refl w
  | cons event events ih =>
      have hFirst := alike_tell h event
      exact hFirst.trans (ih (hFirst.log.trans h))

theorem release_of_no_log (h : w.log = none) (path : Path) : w.release path = w := by
  rw [release, h]

end Workshop

namespace Work

variable {α β : Type} {w v : Workshop}

theorem bind_of_ok {x : Work α} {f : α → Work β} {a : α} (h : x w = .ok a v) :
    (x >>= f) w = f a v := by
  show EStateM.bind x f w = f a v
  rw [EStateM.bind, h]

theorem bind_of_error {x : Work α} {f : α → Work β} {fault : ProjectFault}
    (h : x w = .error fault v) : (x >>= f) w = .error fault v := by
  show EStateM.bind x f w = .error fault v
  rw [EStateM.bind, h]

/-- Work on each of some things that only tells something about it. -/
theorem mapM_alike {f : α → Work β} {g : α → β}
    (hf : ∀ a w, w.log = none → ∃ w', f a w = .ok (g a) w' ∧ w.Alike w') (as : List α)
    (hLog : w.log = none) : ∃ w', as.mapM f w = .ok (as.map g) w' ∧ w.Alike w' := by
  induction as generalizing w with
  | nil => exact ⟨w, rfl, .refl w⟩
  | cons a as ih =>
      obtain ⟨w₁, hFirst, hAlike⟩ := hf a w hLog
      obtain ⟨w₂, hRest, hAlike'⟩ := ih (hAlike.log.trans hLog)
      refine ⟨w₂, ?_, hAlike.trans hAlike'⟩
      rw [List.mapM_cons, bind_of_ok hFirst, bind_of_ok hRest]
      rfl

/-- The same for work whose answers are put together. -/
theorem mapM_flatten_alike {f : α → Work (List β)} {g : α → List β}
    (hf : ∀ a w, w.log = none → ∃ w', f a w = .ok (g a) w' ∧ w.Alike w') (as : List α)
    (hLog : w.log = none) :
    ∃ w', (as.mapM f >>= fun bs => pure bs.flatten) w = .ok (as.flatMap g) w' ∧ w.Alike w' := by
  obtain ⟨w', hMap, hAlike⟩ := mapM_alike hf as hLog
  exact ⟨w', bind_of_ok hMap, hAlike⟩

end Work

namespace Path

/-- The name of the generated file of a definition with a name. -/
def generatedName (name : Loose) : Loose := stem name ++ loose ".java"

theorem parts_append {p q : Path} (h : q.root = .none) : (p / q).parts = p.parts ++ q.parts := by
  show (Path.append p q).parts = _
  simp [Path.append, isAbsolute, h]

theorem root_append {p q : Path} (h : q.root = .none) : (p / q).root = p.root := by
  show (Path.append p q).root = _
  simp [Path.append, isAbsolute, h]

/-- The parts of a path that is seen from another are parts of one of them. -/
theorem mem_parts_append {p q : Path} {part : Loose} (h : part ∈ (p / q).parts) :
    part ∈ p.parts ∨ part ∈ q.parts := by
  change part ∈ (Path.append p q).parts at h
  rw [Path.append] at h
  split at h
  · exact .inr h
  · exact List.mem_append.mp h

theorem mem_append_right {p q : Path} {part : Loose} (h : part ∈ q.parts) :
    part ∈ (p / q).parts := by
  show part ∈ (Path.append p q).parts
  rw [Path.append]
  split
  · exact h
  · exact List.mem_append_right _ h

theorem getLast?_append {p q : Path} {last : Loose} (h : q.parts.getLast? = some last) :
    (p / q).parts.getLast? = some last := by
  show (Path.append p q).parts.getLast? = some last
  rw [Path.append]
  split
  · exact h
  · rw [List.getLast?_append, h, Option.some_or]

theorem name_append {p q : Path} (h : q.root = .none) (hNil : q.parts ≠ []) :
    (p / q).name = q.name := by
  rw [name, name, parts_append h, List.getLast?_append, List.getLast?_eq_some_getLast hNil,
    Option.some_or]

theorem read_src : read (loose "src") = ⟨.none, [loose "src"]⟩ := by decide

theorem read_gen : read (loose "gen") = ⟨.none, [loose "gen"]⟩ := by decide

theorem read_copies : read (loose "bin/classes") = ⟨.none, [loose "bin", loose "classes"]⟩ := by
  decide +kernel

theorem below?_eq_some {p folder rest : Path} (h : p.below? folder = some rest) :
    p.root = folder.root ∧ p.parts = folder.parts ++ rest.parts ∧ rest.root = .none := by
  rw [below?] at h
  split at h
  · rename_i hBelow
    obtain ⟨hRoot, hPrefix⟩ := hBelow
    obtain ⟨more, hMore⟩ := List.isPrefixOf_iff_prefix.mp hPrefix
    cases h
    refine ⟨hRoot, ?_, rfl⟩
    rw [← hMore, List.drop_left]
  · cases h

/-- The stem of a name is a part of it. -/
theorem stem_subset (name : Loose) : stem name ⊆ name := by
  intro g hg
  rw [stem] at hg
  split at hg
  · exact hg
  · exact List.mem_of_mem_take (List.dropLast_subset _ hg)

/-- A part that is the name of something in a folder, or that leads to the folder
above. -/
structure IsName (part : Loose) : Prop where
  ne_nil : part ≠ []
  slash : .char '/' ∉ part
  ne_here : part ≠ loose "."
  nameable : part.bytes?.isSome

theorem mem_of_mem_read {text : Loose} {part : Loose} (h : part ∈ (read text).parts)
    {g : Text.Glyph} (hg : g ∈ part) : g ∈ text :=
  (sublist_of_mem_pieces (List.mem_filter.mp h).1).subset hg

theorem isName_of_mem_read {text : String} {part : Loose}
    (h : part ∈ (read (loose text)).parts) : IsName part where
  ne_nil := (read_plain _ part h).1
  slash := (read_plain _ part h).2
  ne_here := by
    have hPart := (List.mem_filter.mp h).2
    rw [isPart, Bool.and_eq_true] at hPart
    exact bne_iff_ne.mp hPart.2
  nameable := by
    apply Loose.isSome_bytes?_iff.mpr
    intro g hg
    obtain ⟨c, _, rfl⟩ := List.mem_map.mp (mem_of_mem_read h hg)
    rfl

theorem isName_of_mem_current {current : Place} (h : current.Proper) {part : Loose}
    (hPart : part ∈ current.path.parts) : IsName part ∧ .char (Char.ofNat 0) ∉ part := by
  obtain ⟨name, hName, rfl⟩ := List.mem_map.mp hPart
  have hBytes := Loose.bytes?_ofBytes name
  have hProper := h name hName
  have hSlash := Loose.byteOf_mem_iff hBytes (c := '/') (by decide)
  have hNull := Loose.byteOf_mem_iff hBytes (c := Char.ofNat 0) (by decide)
  refine ⟨⟨?_, fun h => hProper.slash (hSlash.mpr h), ?_, by simp [hBytes]⟩,
    fun h => hProper.null (hNull.mpr h)⟩
  · intro hNil
    rw [hNil] at hBytes
    exact hProper.ne_nil (Option.some.inj hBytes).symm
  · intro hHere
    rw [hHere] at hBytes
    have hDot : Loose.bytes? (loose ".") = some FileTree.here := by decide
    exact hProper.ordinary.1 (Option.some.inj (hBytes.symm.trans hDot))

theorem isName_generatedName {name : Loose} (h : IsName name) : IsName (generatedName name) where
  ne_nil := by simp [generatedName, loose]
  slash := by
    rw [generatedName, List.mem_append, not_or]
    exact ⟨fun hMem => h.slash (stem_subset name hMem), by decide⟩
  ne_here := by
    intro hHere
    have hMem : Text.Glyph.char 'j' ∈ generatedName name := by simp [generatedName, loose]
    rw [hHere] at hMem
    revert hMem
    decide
  nameable := by
    rw [Loose.isSome_bytes?_iff]
    intro g hg
    rcases List.mem_append.mp hg with hg | hg
    · exact Loose.isSome_bytes?_iff.mp h.nameable g (stem_subset name hg)
    · have hJava : (loose ".java").bytes?.isSome := by decide
      exact Loose.isSome_bytes?_iff.mp hJava g hg

end Path

namespace Project

variable {p : Project} {w : Workshop} {current : Place}

/-- The file of a definition. -/
def source (p : Project) (path : Path) : Path := p.folder / Path.read (loose "src") / path

/-- The generated file of a definition. -/
def target (p : Project) (path : Path) : Path :=
  let plain := p.folder / Path.read (loose "gen") / path
  ⟨plain.root, plain.parts.dropLast ++ [Path.generatedName plain.name]⟩

theorem sourceFolder_eq (hUsual : p.config.Usual) (w : Workshop) :
    p.sourceFolder w = .ok (p.folder / Path.read (loose "src")) w := by
  simp only [sourceFolder, hUsual.sourceDir]
  rfl

theorem sourcePath_eq (hUsual : p.config.Usual) (path : Path) (w : Workshop) :
    p.sourcePath path w = .ok (p.source path) w := by
  simp only [sourcePath, sourceFolder, hUsual.sourceDir]
  rfl

theorem target_of_kept (p : Project) {path : Path} (hRoot : path.root = .none)
    (hNil : path.parts ≠ []) :
    p.target path = ⟨p.folder.root, p.folder.parts ++
      loose "gen" :: (path.parent.parts ++ [Path.generatedName path.name])⟩ := by
  simp only [target, Path.read_gen, Path.parts_append hRoot, Path.root_append hRoot,
    Path.name_append hRoot hNil, Path.parts_append (q := ⟨.none, [loose "gen"]⟩) rfl,
    Path.root_append (q := ⟨.none, [loose "gen"]⟩) rfl, List.dropLast_append_of_ne_nil hNil,
    Path.parent]
  simp

theorem generatedPath_eq (hUsual : p.config.Usual) {path : Path} (hRoot : path.root = .none)
    (hPlain : path.Plain) (w : Workshop) : p.generatedPath path w = .ok (p.target path) w := by
  have hName : (p.folder / Path.read (loose "gen") / path).name ≠ [] := by
    by_cases hNil : path.parts = []
    · rw [Path.name, Path.parts_append hRoot, hNil, Path.read_gen, Path.parts_append rfl]
      simp [loose]
    · rw [Path.name_append hRoot hNil, Path.name, List.getLast?_eq_some_getLast hNil]
      exact (hPlain _ (List.getLast_mem hNil)).1
  have hSuffix : Path.isSuffix (loose ".java") = true := by decide
  have hPath : withSuffix (p.folder / Path.read (loose "gen") / path) (.text (loose ".java")) =
      .ok (p.target path) := by
    simp only [withSuffix, Path.withSuffix, hSuffix, Bool.not_true, Bool.false_eq_true, if_false,
      hName]
    rfl
  simp only [generatedPath, hUsual.genDir, hUsual.javaExtension, subfolder, Work.useSetting,
    pure_bind, hPath]
  rfl

/-- Where paths of definitions are looked for. -/
def layout (p : Project) (current : Place) : Places where
  extension := Text.lowercase (loose ".aidl2")
  sources := (p.folder / Path.read (loose "src")).absolute current.path
  copies := (p.folder / Path.read (loose "bin/classes")).absolute current.path

/-- What a sorting keeps. -/
def Sorting.kept? : Sorting → Option Path
  | .keep path => some path
  | _ => none

theorem Sorting.kept?_eq_some {sorting : Sorting} {path : Path} :
    sorting.kept? = some path ↔ sorting = .keep path := by
  cases sorting <;> simp [kept?]

/-- The definitions among some paths. -/
def kept (p : Project) (current : Place) (texts : List String) : List Path :=
  texts.flatMap fun text =>
    ((p.layout current).sort ((Path.read (loose text)).absolute current.path)).kept?.toList

theorem places_eq (hUsual : p.config.Usual) (w : Workshop) :
    p.places w = .ok (p.layout w.current) w := by
  simp only [places, sourceExtension, hUsual.sourceExtension, sourceFolder, hUsual.sourceDir]
  rfl

theorem filterSources_eq (hUsual : p.config.Usual) (hLog : w.log = none) (texts : List String) :
    ∃ w', p.filterSources texts w = .ok (p.kept w.current texts) w' ∧ w.Alike w' := by
  rw [filterSources, Work.bind_of_ok (places_eq hUsual w),
    Work.bind_of_ok (x := Work.currentPath) (a := w.current.path) rfl, kept]
  apply Work.mapM_flatten_alike _ texts hLog
  intro text w' hLog'
  cases (p.layout w.current).sort ((Path.read (loose text)).absolute w.current.path) with
  | keep path => exact ⟨w', rfl, .refl w'⟩
  | skip => exact ⟨w', rfl, .refl w'⟩
  | ignore path => exact ⟨_, rfl, Workshop.alike_tell hLog' _⟩

theorem sort_eq_keep {places : Places} {absolute path : Path}
    (h : places.sort absolute = .keep path) :
    places.extension.isSuffixOf (Text.lowercase absolute.name) = true ∧
      (absolute.below? places.sources = some path ∨ absolute.below? places.copies = some path) := by
  rw [Places.sort] at h
  split at h
  · cases h
  · rename_i hExtension
    rw [Bool.not_eq_true, Bool.not_eq_false'] at hExtension
    refine ⟨hExtension, ?_⟩
    split at h
    · rename_i rest hSources
      cases h
      exact .inl hSources
    · rename_i rest _ hCopies
      cases h
      exact .inr hCopies
    · cases h

/-- A definition is below a folder, which does not have the name of a definition. -/
theorem parts_of_below {folder absolute path : Path} {last : Loose}
    (hLast : folder.parts.getLast? = some last)
    (hOther : (Text.lowercase (loose ".aidl2")).isSuffixOf (Text.lowercase last) = false)
    (hExtension : (Text.lowercase (loose ".aidl2")).isSuffixOf
      (Text.lowercase absolute.name) = true)
    (h : absolute.below? folder = some path) :
    path.root = .none ∧ path.parts ≠ [] ∧ absolute.parts = folder.parts ++ path.parts := by
  obtain ⟨_, hParts, hRoot⟩ := Path.below?_eq_some h
  refine ⟨hRoot, ?_, hParts⟩
  intro hNil
  rw [Path.name, hParts, hNil, List.append_nil, hLast, Option.getD_some, hOther] at hExtension
  cases hExtension

/-- Every part of the project's folder and of a definition that is kept is a part of
the current folder or of one of the paths. -/
theorem parts_of_kept {texts : List String} {path : Path} (h : path ∈ p.kept current texts) :
    path.root = .none ∧ path.parts ≠ [] ∧
      ∃ text ∈ texts, ∀ part ∈ p.folder.parts ++ path.parts,
        part ∈ current.path.parts ∨ part ∈ (Path.read (loose text)).parts := by
  obtain ⟨text, hText, hKept⟩ := List.mem_flatMap.mp h
  obtain ⟨hExtension, hBelow⟩ :=
    sort_eq_keep (Sorting.kept?_eq_some.mp (Option.mem_toList.mp hKept))
  -- Both folders end in a name without the extension, and hold the project's folder.
  obtain ⟨folder, hRoot, hNil, hParts, hFolder⟩ : ∃ folder : Path, path.root = .none ∧
      path.parts ≠ [] ∧
      ((Path.read (loose text)).absolute current.path).parts = folder.parts ++ path.parts ∧
      ∀ part ∈ p.folder.parts, part ∈ folder.parts := by
    have hHolds : ∀ dir : Path, dir.root = .none → ∀ part ∈ p.folder.parts,
        part ∈ ((p.folder / dir).absolute current.path).parts := by
      intro dir hDir part hPart
      apply Path.mem_append_right
      rw [Path.parts_append hDir]
      exact List.mem_append_left _ hPart
    have hEnds : ∀ {dir : Path} (last : Loose), dir.parts.getLast? = some last →
        ((p.folder / dir).absolute current.path).parts.getLast? = some last :=
      fun _ h => Path.getLast?_append (Path.getLast?_append h)
    rcases hBelow with hBelow | hBelow
    · obtain ⟨hRoot, hNil, hParts⟩ := parts_of_below
        (hEnds (loose "src") (by rw [Path.read_src]; rfl)) (by decide +kernel) hExtension
        hBelow
      exact ⟨_, hRoot, hNil, hParts, hHolds _ (by rw [Path.read_src])⟩
    · obtain ⟨hRoot, hNil, hParts⟩ := parts_of_below
        (hEnds (loose "classes") (by rw [Path.read_copies]; rfl)) (by decide +kernel)
        hExtension hBelow
      exact ⟨_, hRoot, hNil, hParts, hHolds _ (by rw [Path.read_copies])⟩
  refine ⟨hRoot, hNil, text, hText, ?_⟩
  intro part hPart
  apply Path.mem_parts_append
  show part ∈ ((Path.read (loose text)).absolute current.path).parts
  rw [hParts]
  rcases List.mem_append.mp hPart with hPart | hPart
  · exact List.mem_append_left _ (hFolder part hPart)
  · exact List.mem_append_right _ hPart

theorem isName_of_kept {texts : List String} {path : Path} (hCurrent : current.Proper)
    (h : path ∈ p.kept current texts) :
    ∀ part ∈ p.folder.parts ++ path.parts, Path.IsName part := by
  obtain ⟨_, _, text, _, hParts⟩ := parts_of_kept h
  intro part hPart
  rcases hParts part hPart with hPart | hPart
  · exact (Path.isName_of_mem_current hCurrent hPart).1
  · exact Path.isName_of_mem_read hPart

/-- What holds of the parts of a path and of its folder holds of the parts of the source. -/
theorem forall_source {P : Loose → Prop} {path : Path} (hRoot : path.root = .none)
    (hSrc : P (loose "src")) (h : ∀ part ∈ p.folder.parts ++ path.parts, P part) :
    ∀ part ∈ (p.source path).parts, P part := by
  rw [source, Path.read_src, Path.parts_append hRoot, Path.parts_append rfl]
  intro part hPart
  simp only [List.mem_append, List.mem_singleton] at hPart
  rcases hPart with (hPart | rfl) | hPart
  · exact h part (List.mem_append_left _ hPart)
  · exact hSrc
  · exact h part (List.mem_append_right _ hPart)

/-- The same for the generated file, whose name has another extension. -/
theorem forall_target {P : Loose → Prop} {path : Path} (hRoot : path.root = .none)
    (hNil : path.parts ≠ []) (hGen : P (loose "gen"))
    (hName : ∀ name, P name → P (Path.generatedName name))
    (h : ∀ part ∈ p.folder.parts ++ path.parts, P part) :
    ∀ part ∈ (p.target path).parts, P part := by
  rw [target_of_kept p hRoot hNil]
  intro part hPart
  simp only [List.mem_append, List.mem_cons, List.not_mem_nil, or_false] at hPart
  rcases hPart with hPart | rfl | hPart | rfl
  · exact h part (List.mem_append_left _ hPart)
  · exact hGen
  · exact h part (List.mem_append_right _ (List.dropLast_subset _ hPart))
  · apply hName
    rw [Path.name, List.getLast?_eq_some_getLast hNil]
    exact h _ (List.mem_append_right _ (List.getLast_mem hNil))

theorem isName_of_target {path : Path} (hRoot : path.root = .none) (hNil : path.parts ≠ [])
    (h : ∀ part ∈ p.folder.parts ++ path.parts, Path.IsName part) :
    ∀ part ∈ (p.target path).parts, Path.IsName part :=
  forall_target hRoot hNil ⟨by decide, by decide, by decide, by decide⟩
    (fun _ => Path.isName_generatedName) h

end Project

end BinderIdl
