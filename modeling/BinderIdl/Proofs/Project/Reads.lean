import BinderIdl.Proofs.Files.Folders
import BinderIdl.Proofs.Project.Isolation
import BinderIdl.Proofs.Stub.Lookups

/-! What making the text of a generated file reads. It looks at the definition and asks
for the sources of some types, all of them below the folder of the sources unless a path
leads up or a type is asked for from the root. So trees that differ in generated files only
give the same text, unless something is read in the folder of the generated files. -/
namespace BinderIdl

open Text (Loose loose)

namespace Path

theorem root_read_eq_none_iff {text : Loose} :
    (read text).root = .none ↔ text.head? ≠ some (.char '/') := by
  rw [read]
  cases text with
  | nil => simp [rootOf]
  | cons g rest =>
      rw [rootOf.eq_def]
      split <;> simp_all

theorem append_assoc {p q r : Path} (hq : q.root = .none) (hr : r.root = .none) :
    p / q / r = p / (q / r) := by
  have hRoot : (q / r).root = .none := (root_append hr).trans hq
  have hParts : ∀ {a b : Path}, a.root = b.root → a.parts = b.parts → a = b := by
    rintro ⟨_, _⟩ ⟨_, _⟩ rfl rfl
    rfl
  apply hParts
  · rw [root_append hr, root_append hq, root_append hRoot]
  · rw [parts_append hr, parts_append hq, parts_append hRoot, parts_append hr, List.append_assoc]

theorem append_of_root {p q : Path} (h : q.root ≠ .none) : p / q = q := by
  show p.append q = q
  simp [Path.append, isAbsolute, h]

theorem avoids_steps {p : Path} {place folder : Place} (h : place.Avoids p.names folder) :
    place.Avoids p.steps folder := by
  rw [steps]
  split
  · rename_i hNil
    intro first hFirst
    have hPlace : place.walk first = place := by
      rcases List.prefix_cons_iff.mp hFirst with rfl | ⟨rest, rfl, hRest⟩
      · rfl
      · rw [List.prefix_nil.mp hRest]
        rfl
    rw [hPlace]
    exact h [] List.nil_prefix
  · exact h

/-- A path that leads to something below a folder. -/
structure Downward (p : Path) : Prop where
  root : p.root = .none
  plain : p.Plain
  here : loose "." ∉ p.parts
  above : loose ".." ∉ p.parts

theorem Downward.append {p q : Path} (hp : p.Downward) (hq : q.Downward) : (p / q).Downward where
  root := (root_append hq.root).trans hp.root
  plain := hp.plain.append hq.plain
  here hMem := (mem_parts_append hMem).elim hp.here hq.here
  above hMem := (mem_parts_append hMem).elim hp.above hq.above

theorem Downward.ordinary {p : Path} (hp : p.Downward) :
    ∀ name ∈ p.names, FileName.Ordinary name := by
  intro name hName
  obtain ⟨part, hPart, rfl⟩ := List.mem_map.mp hName
  cases hBytes : part.bytes? with
  | none => exact ⟨by decide, by decide⟩
  | some bytes =>
      apply ordinary_of_ne hBytes
      · rintro rfl
        exact hp.here hPart
      · rintro rfl
        exact hp.above hPart

/-- A text with at most one dot names nothing above. -/
theorem downward_read {text : Loose} (hRoot : (read text).root = .none)
    (hDots : text.count (.char '.') ≤ 1) : (read text).Downward where
  root := hRoot
  plain := read_plain text
  here hMem := by simp [read, isPart] at hMem
  above hMem := by
    have hSublist := sublist_of_mem_pieces (List.mem_filter.mp hMem).1
    have hCount : (loose "..").count (.char '.') ≤ text.count (.char '.') :=
      hSublist.count_le _
    have hTwo : (loose "..").count (.char '.') = 2 := by decide
    omega

end Path

namespace SourceFolder

/-- A qualified name has become a path without dots. -/
theorem count_slashed (name : String) : (slashed name).count (.char '.') = 0 := by
  rw [List.count_eq_zero, slashed, loose, String.toList_ofList]
  intro hMem
  obtain ⟨c, hc, hDot⟩ := List.mem_map.mp hMem
  obtain ⟨d, _, rfl⟩ := List.mem_map.mp hc
  split at hDot
  · cases hDot
  · rename_i hNe
    cases hDot
    exact hNe rfl

/-- The path of a type leads down unless it starts at the root. -/
theorem downward_file {name : String}
    (h : (Path.read (slashed name ++ loose ".java")).root = .none) :
    (Path.read (slashed name ++ loose ".java")).Downward := by
  apply Path.downward_read h
  rw [List.count_append, count_slashed]
  decide

theorem downward_package {package : String} (h : IsQualified package) :
    (Path.read (slashed package)).Downward := by
  apply Path.downward_read
  · obtain ⟨c, rest, hChars, hFirst⟩ := h.exists_first
    have hDot : c ≠ '.' := by
      rintro rfl
      exact absurd hFirst (by decide +kernel)
    have hSlash : c ≠ '/' := by
      rintro rfl
      exact absurd hFirst (by decide +kernel)
    simp [Path.root_read_eq_none_iff, slashed, loose, hChars, hDot, hSlash]
  · rw [count_slashed]
    exact Nat.zero_le 1

end SourceFolder

/-- The name that a verdict asks for. -/
def Verdict.asked? : Verdict → Option String
  | .decided _ => none
  | .ask name => some name

/-- The name whose source decides how an argument travels. -/
def Context.asked? (c : Context) (a : Argument) : Option String :=
  match TypeName.parse (c.meaning a.type) with
  | .error _ => none
  | .ok type =>
      (Scheme.subject? (Category.of type) type).bind fun subject =>
        (Verdict.of subject c.imports c.known).asked?

namespace Project

variable {p : Project} {path : Path} {current folder : Place} {t t' : FileTree}

/-- The paths below the folder of the sources at which an update looks: that of the
definition, and those of the types that it asks for. -/
def reads (p : Project) (path : Path) (t : FileTree) (current : Place) : List Path :=
  path :: match t.fetch current (p.source path).print with
    | .error _ => []
    | .ok bytes =>
        match (decoded path bytes).bind (parsed path) with
        | .ok (some (source, i)) =>
            (i.queries.filterMap fun q => (p.contextOf source i t current).asked? q.argument).map
              fun name => Path.read (SourceFolder.slashed name ++ loose ".java")
        | _ => []

/-- The folder of the generated files. -/
def generatedPlace (p : Project) (current : Place) : Place :=
  p.folder.destination current ++ [FileName.ofString "gen"]

/-- A path below the folder of the sources that is followed past another folder. One that
starts at the root is followed from there. -/
structure Passes (p : Project) (current folder : Place) (r : Path) : Prop where
  below : r.root = .none →
    (p.folder.destination current).Avoids (FileName.ofString "src" :: r.names) folder
  rooted : r.root ≠ .none → Place.Avoids [] r.names folder

instance (r : Path) : Decidable (p.Passes current folder r) :=
  decidable_of_iff (_ ∧ _) ⟨fun h => ⟨h.1, h.2⟩, fun h => ⟨h.below, h.rooted⟩⟩

theorem passes_of_downward {r : Path} (hInside : p.generatedPlace current <+: folder)
    (h : r.Downward) : p.Passes current folder r := by
  refine ⟨fun _ first hFirst hFolder => ?_, fun hRoot => absurd h.root hRoot⟩
  have hOrdinary : ∀ name ∈ FileName.ofString "src" :: r.names, FileName.Ordinary name := by
    intro name hName
    rcases List.mem_cons.mp hName with rfl | hName
    · exact ⟨by decide, by decide⟩
    · exact h.ordinary name hName
  have hGenerated := hInside.trans hFolder
  rw [Place.walk_ordinary _ fun name hName => hOrdinary name (hFirst.subset hName), generatedPlace,
    List.prefix_append_right_inj] at hGenerated
  -- The first name is another.
  exact absurd (List.cons_prefix_cons.mp (hGenerated.trans hFirst)).1 (by decide)

theorem parts_source (p : Project) (h : path.root = .none) :
    (p.source path).parts = p.folder.parts ++ loose "src" :: path.parts := by
  rw [source, Path.parts_append h, Path.read_src, Path.parts_append rfl, List.append_assoc,
    List.singleton_append]

theorem root_source (p : Project) (h : path.root = .none) :
    (p.source path).root = p.folder.root := by
  rw [source, Path.root_append h, Path.read_src, Path.root_append rfl]

theorem names_source (p : Project) (h : path.root = .none) :
    (p.source path).names = p.folder.names ++ FileName.ofString "src" :: path.names := by
  rw [Path.names, parts_source p h, List.map_append, List.map_cons]
  rfl

/-- A definition is looked for through the names of the project's folder. -/
theorem locate_source (hPlain : (p.source path).Plain) (h : path.root = .none)
    (hRefusal : (p.source path).refusal? = none) : t.locate current (p.source path).print =
      (t.follow (p.folder.start current) p.folder.names).bind
        (t.follow · (FileName.ofString "src" :: path.names)) := by
  have hStart : (p.source path).start current = p.folder.start current := by
    rw [Path.start, Path.start, Path.isAbsolute, Path.isAbsolute, root_source p h]
  rw [FileTree.locate_of_no_refusal hPlain hRefusal, Path.steps,
    if_neg (by simp [parts_source p h]), names_source p h, hStart, FileTree.follow_append]

/-- Two trees in which a project's folder is reached alike and that are the same outside a
folder of generated files. -/
structure SameSources (p : Project) (current folder : Place) (t t' : FileTree) : Prop where
  inside : p.generatedPlace current <+: folder
  way : t'.follow (p.folder.start current) p.folder.names =
    t.follow (p.folder.start current) p.folder.names
  elsewhere : ∀ q, ¬folder <+: q → t'.get? q = t.get? q

namespace SameSources

variable {r : Path}

theorem follow (h : p.SameSources current folder t t') {place : Place} {names : List FileName}
    (hNames : place.Avoids names folder) :
    t'.follow place names = t.follow place names ∧
      ∀ q, t.follow place names = .ok q → t'.get? q = t.get? q := by
  constructor
  · apply FileTree.follow_congr
    exact fun first hFirst => h.elsewhere _ (hNames first hFirst)
  · intro q hq
    rw [← FileTree.walk_of_follow hq]
    exact h.elsewhere _ (hNames names (List.prefix_refl _))

/-- A path past the folder leads to the same place, where the same is. -/
theorem locate (h : p.SameSources current folder t t') (hFolder : p.folder.Plain) (hPlain : r.Plain)
    (hr : p.Passes current folder r) :
    t'.locate current (p.source r).print = t.locate current (p.source r).print ∧
      ∀ place, t.locate current (p.source r).print = .ok place → t'.get? place = t.get? place := by
  have hSource : (p.source r).Plain := (hFolder.append (Path.read_plain _)).append hPlain
  cases hRefusal : (p.source r).refusal? with
  | some kind =>
      rw [FileTree.locate_of_refusal hRefusal, FileTree.locate_of_refusal hRefusal]
      exact ⟨rfl, nofun⟩
  | none =>
      by_cases hRoot : r.root = .none
      · rw [locate_source hSource hRoot hRefusal, locate_source hSource hRoot hRefusal, h.way]
        cases hWay : t.follow (p.folder.start current) p.folder.names with
        | error kind => exact ⟨rfl, nofun⟩
        | ok place =>
            obtain rfl : p.folder.destination current = place := FileTree.walk_of_follow hWay
            exact h.follow (hr.below hRoot)
      · have hStart : r.start current = [] := by simp [Path.start, Path.isAbsolute, hRoot]
        rw [source, Path.append_of_root hRoot] at hSource hRefusal ⊢
        rw [FileTree.locate_of_no_refusal hSource hRefusal,
          FileTree.locate_of_no_refusal hSource hRefusal, hStart]
        exact h.follow (Path.avoids_steps (hr.rooted hRoot))

theorem fetch (h : p.SameSources current folder t t') (hFolder : p.folder.Plain) (hPlain : r.Plain)
    (hr : p.Passes current folder r) :
    t'.fetch current (p.source r).print = t.fetch current (p.source r).print := by
  obtain ⟨hLocate, hGet⟩ := h.locate hFolder hPlain hr
  rw [FileTree.fetch, FileTree.fetch, hLocate]
  cases hPlace : t.locate current (p.source r).print with
  | error kind => rfl
  | ok place => simp only [hGet place hPlace]

theorem nodeAt (h : p.SameSources current folder t t') (hFolder : p.folder.Plain) (hPlain : r.Plain)
    (hr : p.Passes current folder r) :
    SourceFolder.nodeAt t' current (p.source r) = SourceFolder.nodeAt t current (p.source r) := by
  obtain ⟨hLocate, hGet⟩ := h.locate hFolder hPlain hr
  have hLook : t'.look current (p.source r).print = t.look current (p.source r).print := by
    rw [FileTree.look, FileTree.look, hLocate]
    cases hPlace : t.locate current (p.source r).print with
    | error kind => cases kind <;> rfl
    | ok place => simp only [hGet place hPlace]
  rw [SourceFolder.nodeAt, SourceFolder.nodeAt, hLook]

/-- A type whose path passes the folder has a source in both trees or in none. -/
theorem has (h : p.SameSources current folder t t') (hFolder : p.folder.Plain) {s : SourceFolder}
    (hs : s.root = p.folder / Path.read (loose "src"))
    (hExtension : s.extension = .text (loose ".java")) {name package : String}
    (hName : p.Passes current folder (Path.read (SourceFolder.slashed name ++ loose ".java")))
    (hPackage : IsQualified package) :
    s.has t' current name package = s.has t current name package := by
  simp only [SourceFolder.has, SourceFolder.pathOf, SourceFolder.fileOf, hs, hExtension, ne_eq,
    not_true_eq_false, if_false, bind, Except.bind, pure, Except.pure]
  generalize hFile : Path.read (SourceFolder.slashed name ++ loose ".java") = file at hName
  have hPlain : file.Plain := hFile ▸ Path.read_plain _
  have hFirst := h.nodeAt hFolder hPlain hName
  have hSecond : SourceFolder.nodeAt t' current
        (p.folder / Path.read (loose "src") / Path.read (SourceFolder.slashed package) / file) =
      SourceFolder.nodeAt t current
        (p.folder / Path.read (loose "src") / Path.read (SourceFolder.slashed package) / file) := by
    have hFolderOf := SourceFolder.downward_package hPackage
    by_cases hRoot : file.root = .none
    · have hDownward : file.Downward := by
        subst hFile
        exact SourceFolder.downward_file hRoot
      have hBoth := h.nodeAt hFolder (hFolderOf.plain.append hPlain)
        (passes_of_downward h.inside (hFolderOf.append hDownward))
      rwa [source, ← Path.append_assoc hFolderOf.root hRoot] at hBoth
    · rw [source, Path.append_of_root hRoot] at hFirst
      rwa [Path.append_of_root hRoot]
  rw [source] at hFirst
  rw [hFirst]
  cases hNode : SourceFolder.nodeAt t current (p.folder / Path.read (loose "src") / file) with
  | error fault => rfl
  | ok node =>
      by_cases hFound : (node.isSome || decide (package = "")) = true
      · simp only [if_pos hFound, hFirst]
      · simp only [if_neg hFound, hSecond]

/-- Contexts with the same sources answer alike for an argument whose type is looked for past
the folder. -/
theorem answers (h : p.SameSources current folder t t') (hUsual : p.config.Usual)
    (hFolder : p.folder.Plain) (s : Source) {i : Interface} (hPackage : IsQualified i.package)
    {a : Argument} (hAsked : ∀ name, (p.contextOf s i t current).asked? a = some name →
      p.Passes current folder (Path.read (SourceFolder.slashed name ++ loose ".java"))) :
    (p.contextOf s i t current).Answers (p.contextOf s i t' current) a where
  typeParameters := rfl
  source := rfl
  subject type subject hType hSubject := by
    have hVerdict : ∀ name, Verdict.of subject i.imports p.known = .ask name →
        p.Passes current folder (Path.read (SourceFolder.slashed name ++ loose ".java")) := by
      intro name hAsk
      apply hAsked
      rw [Context.asked?, hType]
      simp only [hSubject, Option.bind_some]
      exact congrArg Verdict.asked? hAsk
    rw [Context.nature, Context.nature, Nature.classify, Nature.classify, Context.natureObstacle?,
      Context.natureObstacle?]
    simp only [contextOf]
    cases hAsk : Verdict.of subject i.imports p.known with
    | decided nature => exact ⟨rfl, rfl⟩
    | ask name =>
        have hHas := h.has hFolder
          (s := { root := p.folder / Path.read (loose "src"), extension := p.config.javaExtension })
          rfl hUsual.javaExtension (hVerdict name hAsk) hPackage
        constructor
        · simp only [SourceFolder.lookup, hHas]
          rfl
        · simp only [SourceFolder.obstacle?, hHas]

end SameSources

/-- What is encoded depends on the answer of the encoding only. -/
theorem encoded_congr {s : Source} {i : Interface}
    (h : ((⟨0, p.contextOf s i t' current⟩ : Writer).encodeInterface i (p.bannerOf path)).answer {} =
      ((⟨0, p.contextOf s i t current⟩ : Writer).encodeInterface i (p.bannerOf path)).answer {}) :
    p.encoded path t' current (.ok (some (s, i))) = p.encoded path t current (.ok (some (s, i))) := by
  rw [Encoding.answer, Encoding.answer] at h
  simp only [encoded, encoding, EStateM.run]
  cases misplacement? path i with
  | some d => rfl
  | none =>
      generalize (⟨0, p.contextOf s i t' current⟩ : Writer).encodeInterface i (p.bannerOf path) {} =
        new at h ⊢
      generalize (⟨0, p.contextOf s i t current⟩ : Writer).encodeInterface i (p.bannerOf path) {} =
        old at h ⊢
      cases new <;> cases old <;> cases h <;> rfl

/-- The text of a generated file depends on what is read only. -/
theorem draft_congr (h : p.SameSources current folder t t') (hUsual : p.config.Usual)
    (hFolder : p.folder.Plain) (hPlain : path.Plain)
    (hReads : ∀ r ∈ p.reads path t current, p.Passes current folder r) :
    p.draft path t' current = p.draft path t current := by
  rw [draft, draft, h.fetch hFolder hPlain (hReads path List.mem_cons_self)]
  rw [reads] at hReads
  cases hFetch : t.fetch current (p.source path).print with
  | error fault => rfl
  | ok bytes =>
      rw [hFetch] at hReads
      dsimp only at hReads ⊢
      cases hHeld : (decoded path bytes).bind (parsed path) with
      | error d => rfl
      | ok held =>
          rw [hHeld] at hReads
          rcases held with _ | ⟨s, i⟩
          · rfl
          · obtain ⟨text, hRead, hInterface⟩ := read_of_held hHeld
            have hPackage := Interface.isQualified_package hRead hInterface
            apply encoded_congr
            apply Writer.encodeInterface_answer_congr (w := ⟨0, p.contextOf s i t current⟩)
            intro q hq
            apply h.answers hUsual hFolder s hPackage
            intro name hName
            apply hReads
            apply List.mem_cons_of_mem
            exact List.mem_map.mpr ⟨name, List.mem_filterMap.mpr ⟨q, hq, hName⟩, rfl⟩

end Project

end BinderIdl
