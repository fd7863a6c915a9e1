import BinderIdl.Proofs.Files.Paths

/-! What the operations on a tree of files do, place by place. Where a path leads is
fixed by its names alone as long as the folders on the way are there, and making a
folder with those around it adds folders at places that were free. -/
namespace BinderIdl

open Text (Loose loose)

namespace Place

/-- The place that names lead to if every folder on the way is there. -/
def walk (place : Place) : List FileName → Place
  | [] => place
  | name :: names =>
      if name = FileTree.here then walk place names
      else if name = FileTree.above then walk place.dropLast names
      else walk (place ++ [name]) names

theorem walk_append (place : Place) (first second : List FileName) :
    place.walk (first ++ second) = (place.walk first).walk second := by
  induction first generalizing place with
  | nil => rfl
  | cons name names ih =>
      simp only [List.cons_append, walk]
      split
      · exact ih place
      · split
        · exact ih place.dropLast
        · exact ih (place ++ [name])

end Place

/-- A name that leads to something in a folder, not to the folder or the one above. -/
def FileName.Ordinary (name : FileName) : Prop := name ≠ FileTree.here ∧ name ≠ FileTree.above

theorem Place.walk_ordinary (place : Place) {names : List FileName}
    (h : ∀ name ∈ names, name.Ordinary) : place.walk names = place ++ names := by
  induction names generalizing place with
  | nil => simp [walk]
  | cons name names ih =>
      obtain ⟨hHere, hAbove⟩ := h name List.mem_cons_self
      rw [walk, if_neg hHere, if_neg hAbove, ih _ fun n hn => h n (List.mem_cons_of_mem _ hn),
        List.append_assoc, List.singleton_append]

/-- A name that a file can have. -/
structure FileName.Proper (name : FileName) : Prop where
  ne_nil : name ≠ []
  slash : FileTree.slash ∉ name
  null : (0 : UInt8) ∉ name
  ordinary : name.Ordinary

/-- A place whose names are names of files. -/
def Place.Proper (place : Place) : Prop := ∀ name ∈ place, name.Proper

/-- A part other than two dots leads to something in a folder. -/
theorem Path.ordinary_of_ne {part : Loose} {name : FileName} (hBytes : part.bytes? = some name)
    (hHere : part ≠ loose ".") (hAbove : part ≠ loose "..") : name.Ordinary := by
  have hAscii : ∀ c ∈ ['.', '.'], c.toNat < 0x80 := by simp
  constructor
  · rintro rfl
    exact hHere (Loose.eq_of_bytes?_ascii ['.']
      (fun c hc => hAscii c (List.mem_cons_of_mem _ hc)) hBytes)
  · rintro rfl
    exact hAbove (Loose.eq_of_bytes?_ascii ['.', '.'] hAscii hBytes)

/-- The place that a path describes. -/
def Path.destination (p : Path) (current : Place) : Place := (p.start current).walk p.names

theorem Path.walk_steps (p : Path) (place : Place) : place.walk p.steps = place.walk p.names := by
  rw [steps]
  split
  · rename_i hNil
    rw [names, hNil]
    simp [Place.walk]
  · rfl

namespace FileTree

variable {t t' : FileTree} {current place : Place}

theorem lookup_filter_ne (nodes : List (Place × Node)) (place q : Place) :
    (nodes.filter fun (p, _) => p != place).lookup q =
      if q = place then none else nodes.lookup q := by
  induction nodes with
  | nil => simp
  | cons entry nodes ih =>
      obtain ⟨p, node⟩ := entry
      by_cases hp : p = place
      · subst hp
        by_cases hq : q = p
        · simpa [hq] using ih
        · have hBeq : (q == p) = false := by simpa using hq
          simpa [List.lookup_cons, hBeq, hq] using ih
      · by_cases hq : q = p
        · subst hq
          simp [hp]
        · have hBeq : (q == p) = false := by simpa using hq
          simpa [List.lookup_cons, hBeq, hp] using ih

@[simp]
theorem get?_nil (t : FileTree) : t.get? [] = some .folder := rfl

theorem get?_of_ne_nil (h : place ≠ []) : t.get? place = t.nodes.lookup place := by
  cases place with
  | nil => exact absurd rfl h
  | cons _ _ => rfl

theorem ne_nil_of_get?_ne (h : t.get? place ≠ some .folder) : place ≠ [] := by
  rintro rfl
  exact h rfl

theorem get?_put (h : place ≠ []) (node : Node) (q : Place) :
    (t.put place node).get? q = if q = place then some node else t.get? q := by
  by_cases hNil : q = []
  · subst hNil
    simp [Ne.symm h]
  · rw [get?_of_ne_nil hNil, get?_of_ne_nil hNil, put, List.lookup_cons, lookup_filter_ne]
    by_cases hq : q = place
    · simp [hq]
    · have hBeq : (q == place) = false := by simpa using hq
      simp [hq, hBeq]

theorem get?_erase (h : place ≠ []) (q : Place) :
    (t.erase place).get? q = if q = place then none else t.get? q := by
  by_cases hNil : q = []
  · subst hNil
    simp [Ne.symm h]
  · rw [get?_of_ne_nil hNil, get?_of_ne_nil hNil, erase, lookup_filter_ne]

/-- Where something is, a place is listed. -/
theorem mem_of_get? {node : Node} (hNil : place ≠ []) (h : t.get? place = some node) :
    place ∈ t.nodes.map Prod.fst := by
  rw [get?_of_ne_nil hNil] at h
  obtain ⟨before, after, hNodes, _⟩ := List.lookup_eq_some_iff.mp h
  exact List.mem_map.mpr ⟨(place, node), by simp [hNodes], rfl⟩

theorem follow_append (place : Place) (first second : List FileName) :
    t.follow place (first ++ second) = (t.follow place first).bind (t.follow · second) := by
  induction first generalizing place with
  | nil => rfl
  | cons name names ih =>
      simp only [List.cons_append, follow]
      split
      · split
        · exact ih place
        · split
          · exact ih place.dropLast
          · split
            · rfl
            · exact ih (place ++ [name])
      · rfl
      · rfl

/-- A first name leads somewhere if it is looked up in a folder, and leads to the
folder itself, to the one above or to something in it. -/
theorem follow_cons_eq_ok {name : FileName} {names : List FileName} {q : Place} :
    t.follow place (name :: names) = .ok q ↔ t.get? place = some .folder ∧
      ((name = here ∧ t.follow place names = .ok q) ∨
        (name = above ∧ t.follow place.dropLast names = .ok q) ∨
        (name.Ordinary ∧ name.length ≤ nameLimit ∧ t.follow (place ++ [name]) names = .ok q)) := by
  have hAbove : above ≠ here := by decide
  simp only [follow, FileName.Ordinary]
  split
  · rename_i hFolder
    by_cases hHere : name = here
    · simp [hFolder, hHere, Ne.symm hAbove]
    · by_cases hUp : name = above
      · simp [hFolder, hUp, hAbove]
      · simp only [hFolder, hHere, hUp, if_false, ne_eq, not_false_eq_true, and_self, true_and,
          false_and, false_or]
        split
        · rename_i hLength
          simp [Nat.not_le.mpr hLength]
        · rename_i hLength
          simp [Nat.le_of_not_lt hLength]
  · rename_i hFile
    simp [hFile]
  · rename_i hNone
    simp [hNone]

/-- Where names lead to does not depend on the tree. -/
theorem walk_of_follow {names : List FileName} {q : Place} (h : t.follow place names = .ok q) :
    place.walk names = q := by
  induction names generalizing place with
  | nil =>
      cases h
      rfl
  | cons name names ih =>
      obtain ⟨_, ⟨rfl, hRest⟩ | ⟨rfl, hRest⟩ | ⟨hName, _, hRest⟩⟩ := follow_cons_eq_ok.mp h
      · rw [Place.walk, if_pos rfl, ih hRest]
      · rw [Place.walk, if_neg (by decide), if_pos rfl, ih hRest]
      · rw [Place.walk, if_neg hName.1, if_neg hName.2, ih hRest]

/-- What leads somewhere still does so where there are more folders. -/
theorem follow_mono (hFolders : ∀ q, t.get? q = some .folder → t'.get? q = some .folder)
    {names : List FileName} {q : Place} (h : t.follow place names = .ok q) :
    t'.follow place names = .ok q := by
  induction names generalizing place with
  | nil => exact h
  | cons name names ih =>
      obtain ⟨hFolder, hStep⟩ := follow_cons_eq_ok.mp h
      refine follow_cons_eq_ok.mpr ⟨hFolders place hFolder, ?_⟩
      rcases hStep with ⟨hName, h⟩ | ⟨hName, h⟩ | ⟨hName, hLength, h⟩
      · exact .inl ⟨hName, ih h⟩
      · exact .inr (.inl ⟨hName, ih h⟩)
      · exact .inr (.inr ⟨hName, hLength, ih h⟩)

/-- The last name on the way is looked up in a folder. -/
theorem follow_concat {names : List FileName} {name : FileName} {q : Place}
    (hName : name.Ordinary) (h : t.follow place (names ++ [name]) = .ok q) :
    ∃ folder, t.follow place names = .ok folder ∧ t.get? folder = some .folder ∧
      name.length ≤ nameLimit ∧ q = folder ++ [name] := by
  rw [follow_append] at h
  cases hFollow : t.follow place names with
  | error kind =>
      rw [hFollow] at h
      cases h
  | ok folder =>
      rw [hFollow] at h
      obtain ⟨hFolder, ⟨rfl, _⟩ | ⟨rfl, _⟩ | ⟨_, hLength, h⟩⟩ := follow_cons_eq_ok.mp h
      · exact absurd rfl hName.1
      · exact absurd rfl hName.2
      · cases h
        exact ⟨folder, rfl, hFolder, hLength, rfl⟩

/-- A path that leads somewhere leads to its destination. -/
theorem destination_of_locate {p : Path} (hp : p.Plain)
    (h : t.locate current p.print = .ok place) : p.destination current = place := by
  rw [Path.destination, ← Path.walk_steps]
  exact walk_of_follow (follow_of_locate hp h)

theorem locate_mono (hFolders : ∀ q, t.get? q = some .folder → t'.get? q = some .folder)
    {p : Path} (hp : p.Plain) (h : t.locate current p.print = .ok place) :
    t'.locate current p.print = .ok place := by
  cases hRefusal : p.refusal? with
  | some kind =>
      rw [locate_of_refusal hRefusal] at h
      cases h
  | none =>
      rw [locate_of_no_refusal hp hRefusal] at h ⊢
      exact follow_mono hFolders h

theorem store_eq_ok {text : Loose} {content : ByteArray}
    (h : t.store current text content = .ok t') :
    ∃ place, t.locate current text = .ok place ∧ t.get? place ≠ some .folder ∧
      t' = t.put place (.file content) := by
  rw [store] at h
  split at h
  · cases h
  · rename_i place hLocate
    split at h
    · cases h
    · rename_i hFolder
      cases h
      exact ⟨place, hLocate, hFolder, rfl⟩

theorem drop_eq_ok {text : Loose} (h : t.drop current text = .ok t') :
    ∃ place content, t.locate current text = .ok place ∧
      t.get? place = some (.file content) ∧ t' = t.erase place := by
  rw [drop] at h
  split at h
  · cases h
  · rename_i place hLocate
    split at h
    · rename_i content hFile
      cases h
      exact ⟨place, content, hLocate, hFile, rfl⟩
    · cases h
    · cases h

theorem move_eq_ok {text target : Loose} (h : t.move current text target = .ok t') :
    ∃ place place' node, t.locate current text = .ok place ∧
      t.locate current target = .ok place' ∧ endsInStep target = false ∧
      t.get? place = some node ∧ t.get? place' ≠ some .folder ∧
      t' = (t.erase place).put place' node := by
  rw [move] at h
  split at h
  · cases h
  · cases h
  · rename_i place place' hLocate hLocate'
    split at h
    · cases h
    · rename_i hStep
      split at h
      · cases h
      · cases h
      · rename_i node hNode hFolder
        cases h
        exact ⟨place, place', node, hLocate, hLocate', by simpa using hStep, hNode, hFolder, rfl⟩

/-- A tree with more folders than another: at some of the places where nothing was,
there are folders now. -/
def Grows (t t' : FileTree) (room : Place → Prop) : Prop :=
  ∀ q, t'.get? q = t.get? q ∨ (t.get? q = none ∧ t'.get? q = some .folder ∧ room q)

namespace Grows

variable {room room' : Place → Prop}

theorem refl (t : FileTree) (room : Place → Prop) : Grows t t room := fun _ => .inl rfl

theorem mono (h : Grows t t' room) (hRoom : ∀ q, room q → room' q) : Grows t t' room' :=
  fun q => (h q).imp_right fun ⟨hNone, hFolder, hq⟩ => ⟨hNone, hFolder, hRoom q hq⟩

theorem congr {t'' : FileTree} (h : Grows t t' room) (hGet : t''.get? = t'.get?) :
    Grows t t'' room := by
  intro q
  rw [hGet]
  exact h q

theorem trans {t'' : FileTree} (h : Grows t t' room) (h' : Grows t' t'' room) :
    Grows t t'' room := by
  intro q
  rcases h' q with hSame | ⟨hNone, hFolder, hq⟩
  · rw [hSame]
    exact h q
  · rcases h q with hSame | ⟨_, hFolder', _⟩
    · exact .inr ⟨hSame ▸ hNone, hFolder, hq⟩
    · rw [hNone] at hFolder'
      cases hFolder'

end Grows

/-- What a file at a place holds. -/
def content? (t : FileTree) (q : Place) : Option ByteArray :=
  match t.get? q with
  | some (.file content) => some content
  | _ => none

theorem content?_congr {q r : Place} (h : t'.get? q = t.get? r) : t'.content? q = t.content? r := by
  rw [content?, content?, h]

theorem Grows.content?_eq {room : Place → Prop} (h : Grows t t' room) (q : Place) :
    t'.content? q = t.content? q := by
  rcases h q with hSame | ⟨hNone, hFolder, _⟩
  · exact content?_congr hSame
  · simp only [content?, hNone, hFolder]

/-- The places of a folder and of those around it. -/
def onTheWay (path : Path) (current : Place) (q : Place) : Prop :=
  ∃ a : Path, a.root = path.root ∧ a.parts <+: path.parts ∧ q = a.destination current

theorem makeFolder_eq_ok {path : Path}
    (h : t.makeFolder current path = .ok t') :
    ∃ place, t.locate current path.print = .ok place ∧ t.get? place = none ∧
      t' = t.put place .folder := by
  rw [makeFolder] at h
  split at h
  · cases h
  · rename_i place hLocate
    split at h
    · cases h
    · rename_i hNone
      cases h
      exact ⟨place, hLocate, hNone, rfl⟩

theorem makeFolder_grows {path : Path} (hPath : path.Plain)
    (h : t.makeFolder current path = .ok t') : Grows t t' (onTheWay path current) := by
  obtain ⟨place, hLocate, hNone, rfl⟩ := makeFolder_eq_ok h
  have hNil : place ≠ [] := ne_nil_of_get?_ne (t := t) (by simp [hNone])
  intro q
  rw [get?_put hNil]
  split
  · rename_i hq
    subst hq
    exact .inr ⟨hNone, rfl, path, rfl, List.prefix_refl _,
      (destination_of_locate hPath hLocate).symm⟩
  · exact .inl rfl

theorem onTheWay_of_parent {path : Path} {q : Place} (h : onTheWay path.parent current q) :
    onTheWay path current q := by
  obtain ⟨a, hRoot, hParts, hq⟩ := h
  exact ⟨a, hRoot, hParts.trans (List.dropLast_prefix _), hq⟩

/-- A tree in which a file was written: there may be new folders around it, and
nothing else is different. -/
def Written (t t' : FileTree) (current : Place) (target : Path) (content : ByteArray) : Prop :=
  ∃ t₁ q, Grows t t₁ (onTheWay target.parent current) ∧
    t₁.locate current target.print = .ok q ∧ t₁.get? q ≠ some .folder ∧
    t'.get? = fun r => if r = q then some (.file content) else t₁.get? r

theorem Written.content?_eq {target : Path} {content : ByteArray} (hTarget : target.Plain)
    (h : Written t t' current target content) (r : Place) :
    t'.content? r = if r = target.destination current then some content else t.content? r := by
  obtain ⟨t₁, q, hGrows, hLocate, _, hGet⟩ := h
  rw [destination_of_locate hTarget hLocate, ← hGrows.content?_eq r]
  simp only [content?, hGet]
  split
  · rename_i hSome
    split at hSome
    · rename_i hr
      cases hSome
      rw [if_pos hr]
    · rename_i hr
      rw [if_neg hr, hSome]
  · rename_i hNone
    have hr : r ≠ q := fun hr => hNone content (if_pos hr)
    simp only [if_neg hr] at hNone ⊢
    split
    · rename_i hSome
      exact absurd hSome (hNone _)
    · rfl

/-- Making a folder with those around it only adds folders, also where it fails. -/
theorem makeFoldersUpTo_grows (t : FileTree) (current : Place) {path : Path}
    (hPath : path.Plain) (fuel : Nat) :
    (∀ t', (t.makeFoldersUpTo current path fuel).1 = .ok t' →
      Grows t t' (onTheWay path current)) ∧
    Grows t (t.makeFoldersUpTo current path fuel).2 (onTheWay path current) := by
  induction fuel generalizing path with
  | zero => exact ⟨fun t' h => makeFolder_grows hPath h, Grows.refl _ _⟩
  | succ fuel ih =>
      have hRefl := Grows.refl t (onTheWay path current)
      simp only [makeFoldersUpTo]
      split
      · rename_i t' hMake
        have hGrows := makeFolder_grows hPath hMake
        exact ⟨fun _ h => by cases h; exact hGrows, hGrows⟩
      · split
        · -- The folder around it was missing, and was made first.
          obtain ⟨hOk, hError⟩ := ih hPath.parent
          split
          · rename_i t₁ hParent
            rw [hParent] at hError
            exact ⟨nofun, hError.mono fun _ => onTheWay_of_parent⟩
          · rename_i t₁ _ hParent
            have hGrows := (hOk t₁ (by rw [hParent])).mono fun _ => onTheWay_of_parent
            split
            · rename_i t₂ hMake
              have hGrows' := hGrows.trans (makeFolder_grows hPath hMake)
              exact ⟨fun _ h => by cases h; exact hGrows', hGrows'⟩
            · split
              · exact ⟨fun _ h => by cases h; exact hGrows, hGrows⟩
              · exact ⟨nofun, hGrows⟩
        · split
          · exact ⟨fun _ h => by cases h; exact hRefl, hRefl⟩
          · exact ⟨nofun, hRefl⟩

end FileTree

end BinderIdl
