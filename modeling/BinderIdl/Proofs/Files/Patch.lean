import BinderIdl.Proofs.Files.Folders

/-! Writing a file as a change that can be made to any tree: some folders and perhaps a
file. Such changes commute if none puts its file in the way of another, and making one
twice is making it once. What writing a file does, and how it ends, depends on a few
places around the file only. -/
namespace BinderIdl

open Text (Loose loose)

/-- A change of a tree: folders where nothing is, and perhaps a file. -/
structure Patch where
  folders : List Place := []
  file : Option (Place × ByteArray) := none

namespace Patch

variable {P Q : Patch} {view : Place → Option Node} {q : Place}

/-- The content that a change puts at a place. -/
def content? (P : Patch) (q : Place) : Option ByteArray := P.file.toList.lookup q

/-- What is at every place after a change. -/
def apply (P : Patch) (view : Place → Option Node) (q : Place) : Option Node :=
  ((P.content? q).map Node.file).or (fill P.folders view q)

theorem apply_of_content {c : ByteArray} (h : P.content? q = some c) :
    P.apply view q = some (.file c) := by
  rw [apply, h]
  rfl

theorem apply_of_no_content (h : P.content? q = none) :
    P.apply view q = fill P.folders view q := by
  rw [apply, h]
  rfl

theorem content?_eq_some {c : ByteArray} : P.content? q = some c ↔ P.file = some (q, c) := by
  rw [content?]
  cases P.file with
  | none => simp
  | some file =>
      obtain ⟨r, c'⟩ := file
      by_cases hq : q = r
      · simp [hq]
      · have hBeq : (q == r) = false := by simpa using hq
        simp [List.lookup_cons, hBeq, Ne.symm hq]

theorem apply_of_file {r : Place} {c : ByteArray} (h : P.file = some (r, c))
    (view : Place → Option Node) (q : Place) :
    P.apply view q = if q = r then some (.file c) else fill P.folders view q := by
  split
  · rename_i hq
    exact apply_of_content (content?_eq_some.mpr (by rw [h, hq]))
  · rename_i hq
    apply apply_of_no_content
    rw [Option.eq_none_iff_forall_ne_some]
    intro c' hContent
    rw [content?_eq_some, h] at hContent
    cases hContent
    exact hq rfl

theorem apply_of_no_file (h : P.file = none) (view : Place → Option Node) :
    P.apply view = fill P.folders view := by
  funext q
  apply apply_of_no_content
  rw [content?, h]
  rfl

theorem apply_empty (view : Place → Option Node) : Patch.apply {} view = view := by
  rw [apply_of_no_file rfl]
  funext q
  exact fill_of_not_mem List.not_mem_nil

/-- The file of a change is nothing to another. -/
def Apart (P Q : Patch) : Prop :=
  ∀ r c, P.file = some (r, c) → r ∉ Q.folders ∧ Q.content? r = none

theorem fill_fill (folders more : List Place) :
    fill folders (fill more view) q = fill more (fill folders view) q := by
  simp only [fill]
  split <;> split <;> simp

theorem apply_comm (h : P.Apart Q) (h' : Q.Apart P) (view : Place → Option Node) :
    P.apply (Q.apply view) = Q.apply (P.apply view) := by
  have hOne : ∀ {P Q : Patch} {q : Place} {c : ByteArray}, P.Apart Q → P.content? q = some c →
      P.apply (Q.apply view) q = Q.apply (P.apply view) q := by
    intro P Q q c hApart hContent
    obtain ⟨hMem, hNone⟩ := hApart q c (content?_eq_some.mp hContent)
    rw [apply_of_content hContent, apply_of_no_content hNone, fill_of_not_mem hMem,
      apply_of_content hContent]
  funext q
  cases hP : P.content? q with
  | some c => exact hOne h hP
  | none =>
      cases hQ : Q.content? q with
      | some c => exact (hOne h' hQ).symm
      | none =>
          have hFill : ∀ {P Q : Patch}, P.content? q = none → Q.content? q = none →
              P.apply (Q.apply view) q = fill P.folders (fill Q.folders view) q := by
            intro P Q hP hQ
            rw [apply_of_no_content hP]
            simp only [fill, apply_of_no_content hQ]
          rw [hFill hP hQ, hFill hQ hP, fill_fill]

theorem apply_idem (P : Patch) (view : Place → Option Node) :
    P.apply (P.apply view) = P.apply view := by
  funext q
  cases hP : P.content? q with
  | some c => rw [apply_of_content hP, apply_of_content hP]
  | none =>
      rw [apply_of_no_content hP, fill, apply_of_no_content hP, fill]
      split <;> simp

section Batch

variable {α : Type} {patch : α → Patch}

/-- What is at every place after some changes, one after the other. -/
def applyAll (patch : α → Patch) (as : List α) (view : Place → Option Node) : Place → Option Node :=
  as.foldl (fun view a => (patch a).apply view) view

theorem applyAll_cons (a : α) (as : List α) (view : Place → Option Node) :
    applyAll patch (a :: as) view = applyAll patch as ((patch a).apply view) := rfl

theorem applyAll_append (as bs : List α) (view : Place → Option Node) :
    applyAll patch (as ++ bs) view = applyAll patch bs (applyAll patch as view) :=
  List.foldl_append

theorem applyAll_perm {as bs : List α} (hPerm : as.Perm bs)
    (hApart : ∀ a ∈ as, ∀ b ∈ as, a ≠ b → (patch a).Apart (patch b)) (view : Place → Option Node) :
    applyAll patch as view = applyAll patch bs view := by
  apply hPerm.foldl_eq'
  intro a ha b hb view
  by_cases hSame : a = b
  · rw [hSame]
  · exact (apply_comm (hApart a ha b hb hSame) (hApart b hb a ha (Ne.symm hSame)) view).symm

/-- A change that was made already changes nothing. -/
theorem apply_applyAll {as : List α}
    (hApart : ∀ a ∈ as, ∀ b ∈ as, a ≠ b → (patch a).Apart (patch b)) {a : α} (ha : a ∈ as)
    (view : Place → Option Node) : (patch a).apply (applyAll patch as view) =
      applyAll patch as view := by
  obtain ⟨first, rest, rfl⟩ := List.append_of_mem ha
  have hFront : (first ++ a :: rest).Perm (a :: (first ++ rest)) := List.perm_middle
  have hAgain : (first ++ a :: rest ++ [a]).Perm (a :: a :: (first ++ rest)) :=
    (List.perm_append_singleton a _).trans (hFront.cons a)
  have hMembers : ∀ b ∈ first ++ a :: rest ++ [a], b ∈ first ++ a :: rest := by
    intro b hb
    rcases List.mem_append.mp hb with hb | hb
    · exact hb
    · rwa [List.mem_singleton.mp hb]
  calc (patch a).apply (applyAll patch (first ++ a :: rest) view)
      = applyAll patch (first ++ a :: rest ++ [a]) view := by
        rw [applyAll_append (first ++ a :: rest)]
        rfl
    _ = applyAll patch (a :: a :: (first ++ rest)) view :=
        applyAll_perm hAgain (fun b hb c hc => hApart b (hMembers b hb) c (hMembers c hc)) view
    _ = applyAll patch (a :: (first ++ rest)) view := by
        rw [applyAll_cons, applyAll_cons, apply_idem, ← applyAll_cons]
    _ = applyAll patch (first ++ a :: rest) view := (applyAll_perm hFront hApart view).symm

theorem applyAll_idem {as : List α}
    (hApart : ∀ a ∈ as, ∀ b ∈ as, a ≠ b → (patch a).Apart (patch b))
    (view : Place → Option Node) :
    applyAll patch as (applyAll patch as view) = applyAll patch as view := by
  suffices h : ∀ bs ⊆ as, applyAll patch bs (applyAll patch as view) = applyAll patch as view from
    h as (List.Subset.refl as)
  intro bs
  induction bs with
  | nil => exact fun _ => rfl
  | cons b bs ih =>
      intro hSubset
      rw [applyAll_cons, apply_applyAll hApart (hSubset List.mem_cons_self)]
      exact ih fun a ha => hSubset (List.mem_cons_of_mem _ ha)

/-- What some changes have made of a place, given what was there at first: nothing else, a
new folder, or the file of one of them. -/
inductive Trace (patch : α → Patch) (as : List α) (first view : Place → Option Node) (q : Place) :
    Prop
  | same (hSame : view q = first q) : Trace patch as first view q
  | folder {a : α} (hNone : first q = none) (hFolder : view q = some .folder) (ha : a ∈ as)
      (hMem : q ∈ (patch a).folders) : Trace patch as first view q
  | file {a : α} {c : ByteArray} (hContent : view q = some (.file c)) (ha : a ∈ as)
      (hFile : (patch a).file = some (q, c)) : Trace patch as first view q

theorem Trace.congr {as : List α} {first view view' : Place → Option Node}
    (h : Trace patch as first view q) (hSame : view' q = view q) :
    Trace patch as first view' q := by
  cases h with
  | same hFirst => exact .same (hSame.trans hFirst)
  | folder hNone hFolder ha hMem => exact .folder hNone (hSame.trans hFolder) ha hMem
  | file hContent ha hFile => exact .file (hSame.trans hContent) ha hFile

/-- One more change leaves its own trace and no other. -/
theorem Trace.apply {as : List α} {first view : Place → Option Node}
    (h : Trace patch as first view q) {a : α} (ha : a ∈ as) :
    Trace patch as first ((patch a).apply view) q := by
  cases hContent : (patch a).content? q with
  | some c => exact .file (apply_of_content hContent) ha (content?_eq_some.mp hContent)
  | none =>
      have hFill : (patch a).apply view q = fill (patch a).folders view q :=
        apply_of_no_content hContent
      by_cases hMem : q ∈ (patch a).folders
      · cases hView : view q with
        | some node => exact h.congr (by rw [hFill, fill_of_some hView, hView])
        | none =>
            rw [fill_of_mem hMem, hView] at hFill
            cases h with
            | same hSame => exact .folder (hSame.symm.trans hView) hFill ha hMem
            | folder hNone _ _ _ => exact .folder hNone hFill ha hMem
            | file hThere _ _ =>
                rw [hView] at hThere
                cases hThere
      · exact h.congr (by rw [hFill, fill_of_not_mem hMem])

end Batch

end Patch

/-- Where a path leads from its folder, or why it leads nowhere. -/
def Path.inFolder (p : Path) (folder : Place) : Except FileFaultKind Place :=
  match p.refusal? with
  | some kind => .error kind
  | none =>
      if FileTree.nameLimit < (p.name.bytes?.getD []).length then .error .tooLong
      else .ok (folder ++ [p.name.bytes?.getD []])

theorem Path.inFolder_eq_ok {p : Path} {folder q : Place} (h : p.inFolder folder = .ok q) :
    q = folder ++ [p.name.bytes?.getD []] := by
  rw [inFolder] at h
  split at h
  · cases h
  · split at h
    · cases h
    · cases h
      rfl

namespace FileTree

variable {t t' : FileTree} {current folder : Place} {path p : Path}

/-- The folder of some paths is there. -/
structure Opens (t : FileTree) (current : Place) (path : Path) (folder : Place) : Prop where
  way : t.follow (path.start current) path.names = .ok folder
  isFolder : t.get? folder = some .folder

/-- Whether a folder is at a place. -/
def folderAt (t : FileTree) (q : Place) : Bool :=
  match t.get? q with
  | some .folder => true
  | _ => false

theorem folderAt_iff {q : Place} : t.folderAt q = true ↔ t.get? q = some .folder := by
  rw [folderAt]
  split <;> simp_all

/-- A tree hangs together if each of its nodes is in a folder. -/
theorem rooted_of_nodes (h : ∀ place ∈ t.nodes.map Prod.fst, t.folderAt place.dropLast = true) :
    Rooted t.get? := by
  intro q name hThere
  obtain ⟨node, hNode⟩ := Option.ne_none_iff_exists'.mp hThere
  have hFolder := h _ (mem_of_get? (by simp) hNode)
  rwa [List.dropLast_concat, folderAt_iff] at hFolder

theorem move_of_located {text target : Loose} {q r : Place} {node : Node}
    (hFrom : t.locate current text = .ok q) (hTo : t.locate current target = .ok r)
    (hNode : t.get? q = some node) : t.move current text target =
      if endsInStep target then .error ⟨.busy, text, some target⟩
      else if t.folderAt r then .error ⟨.isFolder, text, some target⟩
      else .ok ((t.erase q).put r node) := by
  cases hPlace : t.get? r with
  | none => simp only [move, hFrom, hTo, hNode, folderAt, hPlace, Bool.false_eq_true, if_false]
  | some node' =>
      cases node' <;>
        simp only [move, hFrom, hTo, hNode, folderAt, hPlace, Bool.false_eq_true, if_false, if_true]

theorem Opens.mono (h : t.Opens current path folder)
    (hFolders : ∀ q, t.get? q = some .folder → t'.get? q = some .folder) :
    t'.Opens current path folder :=
  ⟨follow_mono hFolders h.way, hFolders _ h.isFolder⟩

/-- A path in a folder that is there leads to a place that does not depend on the tree. -/
theorem Opens.locate (h : t.Opens current p.parent folder) (hp : p.Plain) (hNil : p.parts ≠ [])
    (hName : ∀ name, p.name.bytes? = some name → FileName.Ordinary name) :
    t.locate current p.print = p.inFolder folder := by
  rw [Path.inFolder]
  cases hRefusal : p.refusal? with
  | some kind => exact locate_of_refusal hRefusal
  | none =>
      have hNames : p.names = p.parent.names ++ [p.name.bytes?.getD []] := by
        rw [Path.names, Path.parts_eq hNil, List.map_append]
        rfl
      have hOrdinary : FileName.Ordinary (p.name.bytes?.getD []) := by
        apply hName
        rw [Path.name, List.getLast?_eq_some_getLast hNil]
        exact (Path.nameable_of_no_refusal hRefusal).bytes?_part (List.getLast_mem hNil)
      have hFollow : t.follow (p.start current) p.parent.names = .ok folder := h.way
      rw [locate_of_no_refusal hp hRefusal, Path.steps, if_neg hNil, hNames, follow_append, hFollow]
      simp only [Except.bind, FileTree.follow, h.isFolder, if_neg hOrdinary.1, if_neg hOrdinary.2]

end FileTree

namespace AtomicWrite

open FileTree (Rooted)

variable {t t' t₀ : FileTree} {current base folder : Place} {target : Path}
  {names : List FileName} {ε : Type} {check : Option (String → Option ε)} {content : String}

theorem beside_parent (target : Path) (n : Nat) : (beside target n).parent = target.parent := by
  simp [beside_eq, Path.parent]

theorem beside_name (target : Path) (n : Nat) :
    (beside target n).name = temporaryName target.name n := by
  simp [beside_eq, Path.name]

theorem locate_beside_of_opens (hTarget : target.Plain)
    (h : t.Opens current target.parent folder) (n : Nat) :
    t.locate current (beside target n).print = (beside target n).inFolder folder := by
  apply FileTree.Opens.locate (p := beside target n)
  · rwa [beside_parent]
  · exact beside_plain hTarget
  · simp [beside_eq]
  · intro name hName
    rw [beside_name] at hName
    exact temporaryFile_ordinary hName

/-- The number of the new file depends on the names in the folder only. -/
theorem freshPath_congr (hTarget : target.Plain) (h : t.Opens current target.parent folder)
    (h' : t'.Opens current target.parent folder)
    (hHidden : ∀ n, t'.get? (folder ++ [temporaryFile target.name n]) =
      t.get? (folder ++ [temporaryFile target.name n])) :
    freshPath t' current target = freshPath t current target := by
  have hThere : ∀ n, t'.isThere current (beside target n).print =
      t.isThere current (beside target n).print := by
    intro n
    rw [FileTree.isThere, FileTree.isThere, FileTree.find?, FileTree.find?,
      locate_beside_of_opens hTarget h, locate_beside_of_opens hTarget h']
    cases hPlace : (beside target n).inFolder folder with
    | error kind => rfl
    | ok q =>
        rw [Path.inFolder_eq_ok hPlace, beside_name]
        show (t'.get? (folder ++ [temporaryFile target.name n])).isSome =
          (t.get? (folder ++ [temporaryFile target.name n])).isSome
        rw [hHidden]
  obtain ⟨m, hm, hFree, hBefore⟩ := freshPath_eq t current hTarget
  obtain ⟨n, hn, hFree', hBefore'⟩ := freshPath_eq t' current hTarget
  -- Each of the two numbers is the first that is free.
  have hSame : n = m := by
    rcases Nat.lt_trichotomy n m with hLt | hEq | hGt
    · have hTaken := hBefore n hLt
      rw [← hThere, hFree'] at hTaken
      cases hTaken
    · exact hEq
    · have hTaken := hBefore' m hGt
      rw [hThere, hFree] at hTaken
      cases hTaken
  rw [hm, hn, hSame]

/-- How it ends to fill a new file, to check it and to move it to a target in the same
folder. -/
def verdict (new target : Path) (folder : Place) (check : Option (String → Option ε))
    (content : String) (isFolder : Bool) : Except (WriteFault ε) Unit :=
  match new.inFolder folder with
  | .error kind => .error (.file ⟨kind, new.print, none⟩)
  | .ok _ =>
      match checked check content, target.inFolder folder with
      | .error fault, _ => .error fault
      | .ok (), .error kind => .error (.file ⟨kind, new.print, some target.print⟩)
      | .ok (), .ok _ =>
          if FileTree.endsInStep target.print then
            .error (.file ⟨.busy, new.print, some target.print⟩)
          else if isFolder then .error (.file ⟨.isFolder, new.print, some target.print⟩)
          else .ok ()

theorem place_eq_verdict {n : Nat} (hTarget : target.Plain) (hNil : target.parts ≠ [])
    (hName : ∀ name, target.name.bytes? = some name → FileName.Ordinary name)
    (h : t.Opens current target.parent folder)
    (hFree : t.isThere current (beside target n).print = false) (content : String)
    (check : Option (String → Option ε)) :
    (AtomicWrite.place t current target (beside target n) content check).1 =
      verdict (beside target n) target folder check content
        (t.folderAt (folder ++ [target.name.bytes?.getD []])) := by
  rw [AtomicWrite.place, verdict]
  have hNew := locate_beside_of_opens hTarget h n
  cases hPlace : (beside target n).inFolder folder with
  | error kind =>
      rw [hPlace] at hNew
      simp only [FileTree.store, hNew]
  | ok q =>
      rw [hPlace] at hNew
      have hNone : t.get? q = none := by
        rw [FileTree.isThere, FileTree.find?, hNew] at hFree
        simpa using hFree
      have hq : q ≠ [] := FileTree.ne_nil_of_get?_ne (t := t) (by simp [hNone])
      -- The new file is no folder, so the folders are those that were there.
      have hOpens : (t.put q (.file content.toUTF8)).Opens current target.parent folder := by
        apply h.mono
        intro r hr
        rw [FileTree.get?_put hq, if_neg, hr]
        rintro rfl
        rw [hNone] at hr
        cases hr
      have hFrom := locate_beside_of_opens hTarget hOpens n
      have hTo := hOpens.locate hTarget hNil hName
      have hFile : (t.put q (.file content.toUTF8)).get? q = some (.file content.toUTF8) := by
        rw [FileTree.get?_put hq, if_pos rfl]
      rw [hPlace] at hFrom
      simp only [FileTree.store, hNew, hNone]
      cases checked check content with
      | error fault => rfl
      | ok _ =>
          cases hGoal : target.inFolder folder with
          | error kind =>
              rw [hGoal] at hTo
              simp only [FileTree.move, hFrom, hTo]
          | ok r =>
              rw [hGoal] at hTo
              obtain rfl := Path.inFolder_eq_ok hGoal
              have hFolder : (t.put q (.file content.toUTF8)).folderAt
                    (folder ++ [target.name.bytes?.getD []]) =
                  t.folderAt (folder ++ [target.name.bytes?.getD []]) := by
                by_cases hSame : folder ++ [target.name.bytes?.getD []] = q
                · rw [FileTree.folderAt, FileTree.folderAt, hSame, hFile, hNone]
                · rw [FileTree.folderAt, FileTree.folderAt, FileTree.get?_put hq, if_neg hSame]
              rw [FileTree.move_of_located hFrom hTo hFile, hFolder]
              cases FileTree.endsInStep target.print with
              | true => rfl
              | false =>
                  cases t.folderAt (folder ++ [target.name.bytes?.getD []]) with
                  | true => rfl
                  | false => rfl

/-- A tree in which a target is written some names below a folder. -/
structure Ready (t : FileTree) (current : Place) (target : Path) (base : Place)
    (names : List FileName) : Prop where
  rooted : Rooted t.get?
  folder : t.get? base = some .folder
  down : t.Down current target.parent base names

/-- The place of a target. -/
abbrev goal (target : Path) (base : Place) (names : List FileName) : Place :=
  base ++ names ++ [target.name.bytes?.getD []]

/-- Two trees are the same to whoever writes a target. -/
structure Similar (t₀ t : FileTree) (target : Path) (base : Place) (names : List FileName) :
    Prop where
  way : ∀ first, first <+: names → t.content? (base ++ first) = t₀.content? (base ++ first)
  hidden : ∀ n, t.get? (base ++ names ++ [temporaryFile target.name n]) =
    t₀.get? (base ++ names ++ [temporaryFile target.name n])
  folderAt : t.folderAt (goal target base names) = t₀.folderAt (goal target base names)

theorem Similar.blocked_iff (h : Similar t₀ t target base names) :
    t.Blocked base names ↔ t₀.Blocked base names := by
  have hFile : ∀ {t : FileTree} {q : Place} {c : ByteArray},
      t.get? q = some (.file c) ↔ t.content? q = some c := by
    intro t q c
    rw [FileTree.content?]
    split <;> simp_all
  constructor
  · rintro ⟨first, c, hFirst, hAt⟩
    exact ⟨first, c, hFirst, by rwa [hFile, ← h.way first hFirst, ← hFile]⟩
  · rintro ⟨first, c, hFirst, hAt⟩
    exact ⟨first, c, hFirst, by rwa [hFile, h.way first hFirst, ← hFile]⟩

theorem write_of_blocked (h : Ready t current target base names) (hBlocked : t.Blocked base names)
    (content : String) (check : Option (String → Option ε)) :
    write t current target content check =
      (.error (.file ⟨t.obstruction (base ++ names), target.parent.print, none⟩), t) := by
  rw [write, FileTree.makeFolders,
    FileTree.makeFoldersUpTo_of_blocked h.rooted h.folder hBlocked h.down h.down.length_lt]

/-- The change that writing a target comes to. -/
def patchOf (target : Path) (base : Place) (names : List FileName) (content : String)
    (result : Except (WriteFault ε) Unit) : Patch where
  folders := base.descent names
  file := result.toOption.map fun _ => (goal target base names, content.toUTF8)

theorem patchOf_ok_apply (target : Path) (base : Place) (names : List FileName) (content : String)
    (u : Unit) (view : Place → Option Node) (q : Place) :
    (patchOf target base names content (.ok u : Except (WriteFault ε) Unit)).apply view q =
      if q = goal target base names then some (.file content.toUTF8)
      else fill (base.descent names) view q :=
  Patch.apply_of_file rfl view q

theorem not_mem_descent (base : Place) (names : List FileName) (name : FileName) :
    base ++ names ++ [name] ∉ base.descent names := by
  intro hMem
  obtain ⟨first, hFirst, hEq⟩ := Place.mem_descent.mp hMem
  have hLength := hFirst.length_le
  have hLengths := congrArg List.length hEq
  simp only [List.length_append, List.length_singleton] at hLengths
  omega

theorem opens_of_fill {t₁ : FileTree} (h : Ready t current target base names)
    (hFree : ¬t.Blocked base names) (hView : t₁.get? = fill (base.descent names) t.get?) :
    t₁.Opens current target.parent (base ++ names) := by
  have hFolders : ∀ first, first <+: names → t₁.get? (base ++ first) = some .folder := by
    intro first hFirst
    rw [hView]
    exact FileTree.fill_descent_of_free hFree hFirst
  have hMore : ∀ q, t.get? q = some .folder → t₁.get? q = some .folder := by
    intro q hq
    rw [hView, fill_of_some hq]
  have hDown := h.down.mono hMore
  obtain ⟨first, hNames, hFollow⟩ := hDown.way
  constructor
  · rw [hNames, FileTree.follow_append, hFollow]
    exact FileTree.follow_of_folders h.down.usable fun first hFirst _ => hFolders first hFirst
  · exact hFolders names (List.prefix_refl _)

/-- Nothing is in the way of a target: its folder is made, and the file follows unless
something keeps it from its place. -/
theorem write_of_free (h : Ready t current target base names) (hFree : ¬t.Blocked base names)
    (hTarget : target.Plain) (hNil : target.parts ≠ [])
    (hName : ∀ name, target.name.bytes? = some name → FileName.Ordinary name) (content : String)
    (check : Option (String → Option ε)) :
    ∃ t₁ n, t₁.get? = fill (base.descent names) t.get? ∧ freshPath t₁ current target = beside target n ∧
      (write t current target content check).1 =
        verdict (beside target n) target (base ++ names) check content
          (t.folderAt (goal target base names)) ∧
      (write t current target content check).2.get? =
        (patchOf target base names content (write t current target content check).1).apply t.get? := by
  obtain ⟨t₁, hMake, hView⟩ :=
    FileTree.makeFoldersUpTo_of_free h.rooted h.folder hFree h.down h.down.length_lt
  have hOpens := opens_of_fill h hFree hView
  obtain ⟨n, hFresh, hThere, _⟩ := freshPath_eq t₁ current hTarget
  have hGoal : ∀ name, t₁.get? (base ++ names ++ [name]) = t.get? (base ++ names ++ [name]) := by
    intro name
    rw [hView, fill_of_not_mem (not_mem_descent base names name)]
  have hVerdict := place_eq_verdict hTarget hNil hName hOpens hThere content check
  have hFolderAt : t₁.folderAt (goal target base names) = t.folderAt (goal target base names) := by
    rw [FileTree.folderAt, FileTree.folderAt, goal, hGoal]
  rw [hFolderAt] at hVerdict
  refine ⟨t₁, n, hView, hFresh, ?_⟩
  rw [write, FileTree.makeFolders, hMake]
  dsimp only
  rw [hFresh]
  rcases place_cases (beside_plain hTarget) hTarget hThere content check with
    ⟨⟨fault, hFault⟩, hSame⟩ | ⟨q, hDone, _, hLocate, _, hGet⟩
  · cases hPlace : AtomicWrite.place t₁ current target (beside target n) content check with
    | mk result t₂ =>
        rw [hPlace] at hFault hSame hVerdict
        obtain rfl : result = .error fault := hFault
        refine ⟨hVerdict, ?_⟩
        show (cleanUp t₂ current (beside target n)).get? = _
        rw [hSame, hView]
        rfl
  · cases hPlace : AtomicWrite.place t₁ current target (beside target n) content check with
    | mk result t₂ =>
        rw [hPlace] at hDone hGet hVerdict
        obtain rfl : result = .ok () := hDone
        refine ⟨hVerdict, ?_⟩
        have hq : q = goal target base names := by
          rw [hOpens.locate hTarget hNil hName] at hLocate
          exact Path.inFolder_eq_ok hLocate
        show t₂.get? = _
        funext r
        have hAt : t₂.get? r = if r = q then some (.file content.toUTF8) else t₁.get? r :=
          congrFun hGet r
        rw [hAt, hView, hq]
        exact (patchOf_ok_apply target base names content () t.get? r).symm

theorem folderAt_of_verdict {new : Path} {isFolder : Bool} {u : Unit}
    (h : verdict new target folder check content isFolder = .ok u) : isFolder = false := by
  rw [verdict] at h
  split at h
  · cases h
  · split at h
    · cases h
    · cases h
    · split at h
      · cases h
      · split at h
        · cases h
        · rename_i hFolder
          simpa using hFolder

/-- The change that writing a target comes to is made of folders above the target, if
nothing is in the way, and of the target itself, if there is no folder. -/
structure Fits (t : FileTree) (target : Path) (base : Place) (names : List FileName) (P : Patch) :
    Prop where
  blocked : t.Blocked base names → P = {}
  folders : ¬t.Blocked base names → P.folders = base.descent names
  file : ∀ q c, P.file = some (q, c) → q = goal target base names ∧ t.get? q ≠ some .folder

/-- The tree still hangs together after the change. -/
theorem Fits.rooted {P : Patch} (h : Fits t₀ target base names P)
    (hReady : Ready t current target base names) (hSimilar : Similar t₀ t target base names) :
    Rooted (P.apply t.get?) := by
  by_cases hBlocked : t₀.Blocked base names
  · rw [h.blocked hBlocked, Patch.apply_empty]
    exact hReady.rooted
  · have hFree : ¬t.Blocked base names := fun h => hBlocked (hSimilar.blocked_iff.mp h)
    have hFilled : Rooted (fill (base.descent names) t.get?) :=
      hReady.rooted.fill hReady.folder hFree
    have hFolders := h.folders hBlocked
    cases hFile : P.file with
    | none =>
        rw [Patch.apply_of_no_file hFile, hFolders]
        exact hFilled
    | some file =>
        obtain ⟨q, c⟩ := file
        obtain ⟨rfl, hNoFolder⟩ := h.file q c hFile
        have hGoal : t.get? (goal target base names) ≠ some .folder := by
          rwa [ne_eq, ← FileTree.folderAt_iff, hSimilar.folderAt, FileTree.folderAt_iff]
        intro r name hThere
        rw [Patch.apply_of_file hFile, hFolders] at hThere ⊢
        by_cases hNew : r ++ [name] = goal target base names
        · obtain rfl : r = base ++ names := (List.append_inj' hNew rfl).1
          rw [if_neg (by simp)]
          exact FileTree.fill_descent_of_free hFree (List.prefix_refl _)
        · rw [if_neg hNew] at hThere
          have hFolder := hFilled r name hThere
          rw [if_neg, hFolder]
          rintro rfl
          rw [fill_of_not_mem (not_mem_descent base names _)] at hFolder
          exact hGoal hFolder

/-- Writing a target is the same change, with the same result, in all trees that are the
same around it. -/
theorem write_plan (h₀ : Ready t₀ current target base names) (hTarget : target.Plain)
    (hNil : target.parts ≠ [])
    (hName : ∀ name, target.name.bytes? = some name → FileName.Ordinary name) (content : String)
    (check : Option (String → Option ε)) :
    ∃ (result : Except (WriteFault ε) Unit) (P : Patch), Fits t₀ target base names P ∧
      ∀ t, Ready t current target base names → Similar t₀ t target base names →
        (write t current target content check).1 = result ∧
        (write t current target content check).2.get? = P.apply t.get? := by
  by_cases hBlocked : t₀.Blocked base names
  · refine ⟨.error (.file ⟨t₀.obstruction (base ++ names), target.parent.print, none⟩), {},
      ⟨fun _ => rfl, absurd hBlocked, nofun⟩, fun t hReady hSimilar => ?_⟩
    have hKind : t.obstruction (base ++ names) = t₀.obstruction (base ++ names) := by
      rw [FileTree.obstruction, FileTree.obstruction, hSimilar.way names (List.prefix_refl _)]
    rw [write_of_blocked hReady (hSimilar.blocked_iff.mpr hBlocked), hKind]
    exact ⟨rfl, rfl⟩
  · obtain ⟨t₁, n, hView, hFresh, hResult, -⟩ :=
      write_of_free h₀ hBlocked hTarget hNil hName content check
    refine ⟨(write t₀ current target content check).1,
      patchOf target base names content (write t₀ current target content check).1,
      ⟨fun h => absurd h hBlocked, fun _ => rfl, ?_⟩, fun t hReady hSimilar => ?_⟩
    · intro q c hFile
      cases hOk : (write t₀ current target content check).1 with
      | error fault =>
          rw [hOk] at hFile
          cases hFile
      | ok u =>
          rw [hOk] at hFile hResult
          cases hFile
          refine ⟨rfl, fun hFolder => ?_⟩
          have hNo := folderAt_of_verdict hResult.symm
          rw [FileTree.folderAt_iff.mpr hFolder] at hNo
          cases hNo
    · have hFree : ¬t.Blocked base names := fun h => hBlocked (hSimilar.blocked_iff.mp h)
      obtain ⟨t₂, m, hView', hFresh', hResult', hPatch⟩ :=
        write_of_free hReady hFree hTarget hNil hName content check
      have hSame : beside target m = beside target n := by
        rw [← hFresh, ← hFresh']
        apply freshPath_congr hTarget (opens_of_fill h₀ hBlocked hView)
          (opens_of_fill hReady hFree hView')
        intro k
        rw [hView, hView', fill_of_not_mem (not_mem_descent _ _ _),
          fill_of_not_mem (not_mem_descent _ _ _), hSimilar.hidden]
      rw [hSame, hSimilar.folderAt, ← hResult] at hResult'
      rw [hResult'] at hPatch
      exact ⟨hResult', hPatch⟩

end AtomicWrite

end BinderIdl
