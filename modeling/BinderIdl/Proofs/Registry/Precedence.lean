import BinderIdl.Marshal.Category
import Mathlib.Data.List.Nodup

/-! Which rule of a registry decides about a type. The last rule that a type matches does,
so only the order of rules that share a type matters. The rules for all types share types
in three places: the rule for any type with all others, the one for any array with those
for arrays of certain elements, and the one for any list with those for lists of certain
contents. As long as those three come before what they share types with, the rules can be
registered in any order. -/
namespace BinderIdl

/-- What a type looks like to a pattern. -/
inductive TypeShape where
  | array
  /-- A type with a single type argument. -/
  | filled
  | bare
  deriving DecidableEq

def TypeName.shape (t : TypeName) : TypeShape :=
  if t.isArray then .array else if t.content?.isSome then .filled else .bare

theorem TypeName.shape_eq_array_iff {t : TypeName} : t.shape = .array ↔ t.isArray = true := by
  rw [shape]
  cases t.isArray with
  | true => simp
  | false => cases t.content? <;> simp

theorem TypeName.isArray_eq_false_iff {t : TypeName} : t.isArray = false ↔ t.depth = 0 := by
  simp [isArray]

namespace TypePattern

variable {t : TypeName} {p q : TypePattern}

/-- The shape of all types that a pattern accepts. -/
def shape? : TypePattern → Option TypeShape
  | any => none
  | named _ => some .bare
  | array _ => some .array
  | generic _ | genericOf _ _ => some .filled

/-- The names of all types that a pattern accepts. -/
def names? : TypePattern → Option (List String)
  | any | array _ => none
  | named names | generic names | genericOf names _ => some names

theorem shape_of_accepts {shape : TypeShape} (h : p.accepts t = true)
    (hShape : p.shape? = some shape) : t.shape = shape := by
  cases p with
  | any => cases hShape
  | named names =>
      cases hShape
      simp only [accepts, Bool.and_eq_true, Bool.not_eq_true', List.isEmpty_iff] at h
      simp [TypeName.shape, TypeName.content?, h.1.1.1, h.1.1.2]
  | array p =>
      cases hShape
      cases hArray : t.isArray with
      | true => rw [TypeName.shape, if_pos hArray]
      | false => simp [accepts, TypeName.element?, hArray] at h
  | generic names =>
      cases hShape
      simp only [accepts, Bool.and_eq_true, Bool.not_eq_true'] at h
      simp [TypeName.shape, h.1.1, h.2]
  | genericOf names p =>
      cases hShape
      cases hContent : t.content? with
      | none => simp [accepts, hContent] at h
      | some c =>
          simp only [accepts, Bool.and_eq_true, Bool.not_eq_true'] at h
          simp [TypeName.shape, h.1.1, hContent]

theorem base_mem_of_accepts {names : List String} (h : p.accepts t = true)
    (hNames : p.names? = some names) : t.base ∈ names := by
  cases p with
  | any | array => cases hNames
  | named =>
      cases hNames
      simp only [accepts, Bool.and_eq_true, List.contains_iff_mem] at h
      exact h.2
  | generic | genericOf =>
      cases hNames
      simp only [accepts, Bool.and_eq_true, List.contains_iff_mem] at h
      exact h.1.2

theorem accepts_named_iff {names : List String} :
    (named names).accepts t = true ↔ ∃ name ∈ names, t = .plain name := by
  constructor
  · intro h
    simp only [accepts, Bool.and_eq_true, Bool.not_eq_true', TypeName.isArray_eq_false_iff,
      List.isEmpty_iff, Option.isNone_iff_eq_none, List.contains_iff_mem] at h
    obtain ⟨⟨⟨hDepth, hArguments⟩, hWildcard⟩, hName⟩ := h
    obtain ⟨base, arguments, depth, wildcard⟩ := t
    cases hDepth
    cases hArguments
    cases hWildcard
    exact ⟨base, hName, rfl⟩
  · rintro ⟨name, hName, rfl⟩
    simpa [accepts, TypeName.plain, TypeName.isArray, TypeName.depth, TypeName.arguments,
      TypeName.wildcard, TypeName.base] using hName

theorem accepts_array_iff :
    (array p).accepts t = true ↔ ∃ e, t.element? = some e ∧ p.accepts e = true := by
  cases hElement : t.element? <;> simp [accepts, hElement]

/-- Whether the types of two patterns differ in their shapes or in their names. -/
def unlike (p q : TypePattern) : Bool :=
  (match p.shape?, q.shape? with
    | some shape, some shape' => shape != shape'
    | _, _ => false) ||
  match p.names?, q.names? with
  | some names, some names' => names.all fun name => !names'.contains name
  | _, _ => false

theorem accepts_eq_false_of_unlike (h : p.unlike q = true) (hp : p.accepts t = true) :
    q.accepts t = false := by
  rw [Bool.eq_false_iff]
  intro hq
  rw [unlike, Bool.or_eq_true] at h
  rcases h with hShape | hNames
  · split at hShape
    · rename_i shape shape' hs hs'
      rw [← shape_of_accepts hp hs, ← shape_of_accepts hq hs'] at hShape
      simp at hShape
    · cases hShape
  · split at hNames
    · rename_i names names' hn hn'
      have hForeign := List.all_eq_true.mp hNames _ (base_mem_of_accepts hp hn)
      simp [base_mem_of_accepts hq hn'] at hForeign
    · cases hNames

/-- Whether two patterns can be seen to share no type: because their types are unlike, or
because of what they ask of elements and contents. -/
def apart : TypePattern → TypePattern → Bool
  | array p, array q => p.apart q
  | genericOf names p, genericOf names' q =>
      (genericOf names p).unlike (genericOf names' q) || p.apart q
  | p, q => p.unlike q

theorem accepts_eq_false_of_apart (hApart : p.apart q = true) (hp : p.accepts t = true) :
    q.accepts t = false := by
  induction p, q using apart.induct generalizing t with
  | case1 p q ih =>
      rw [apart] at hApart
      cases hElement : t.element? with
      | none => simp [accepts, hElement]
      | some e =>
          simp only [accepts, hElement] at hp ⊢
          exact ih hApart hp
  | case2 names p names' q ih =>
      rw [apart, Bool.or_eq_true] at hApart
      rcases hApart with hUnlike | hContents
      · exact accepts_eq_false_of_unlike hUnlike hp
      · cases hContent : t.content? with
        | none => simp [accepts, hContent]
        | some c =>
            simp only [accepts, hContent, Bool.and_eq_true] at hp
            simp [accepts, hContent, ih hContents hp.2]
  | case3 p q hArrays hContents =>
      rw [apart] at hApart
      · exact accepts_eq_false_of_unlike hApart hp
      · exact hArrays
      · exact hContents

end TypePattern

deriving instance DecidableEq for Rule

namespace Registry

variable {α : Type}

theorem resolve?_eq (r : Registry α) (t : TypeName) :
    r.resolve? t =
      ((r.rules.filter fun rule => rule.pattern.accepts t).getLast?).map Rule.value := by
  rw [resolve?, List.getLast?_filter]

/-- A registry takes its values from rules that a type matches. -/
theorem exists_rule_of_resolve? {r : Registry α} {t : TypeName} {value : α}
    (h : r.resolve? t = some value) :
    ∃ rule ∈ r.rules, rule.pattern.accepts t = true ∧ rule.value = value := by
  obtain ⟨rule, hFind, hValue⟩ := Option.map_eq_some_iff.mp h
  have hAccepts := List.find?_some hFind
  exact ⟨rule, List.mem_reverse.mp (List.mem_of_find?_eq_some hFind), hAccepts, hValue⟩

end Registry

/-- In a list without doubles, one of two members comes first. -/
theorem eq_of_pair_sublist {α : Type} {l : List α} {a b : α} (hNodup : l.Nodup)
    (h : [a, b].Sublist l) (h' : [b, a].Sublist l) : a = b := by
  induction l with
  | nil => cases h
  | cons c l ih =>
      rw [List.nodup_cons] at hNodup
      cases h with
      | cons _ h =>
          cases h' with
          | cons _ h' => exact ih hNodup.2 h h'
          | cons_cons _ h' => exact absurd (h.subset (by simp)) hNodup.1
      | cons_cons _ h =>
          cases h' with
          | cons _ h' => exact absurd (h'.subset (by simp)) hNodup.1
          | cons_cons _ h' => rfl

/-- What a registry says about a type was not left to a later rule. -/
theorem Registry.accepts_eq_false_of_later {α : Type} {r : Registry α} {x y : Rule α}
    {t : TypeName} (hValues : (r.rules.map Rule.value).Nodup) (hOrder : [x, y].Sublist r.rules)
    (h : r.resolve? t = some x.value) : y.pattern.accepts t = false := by
  rw [Bool.eq_false_iff]
  intro hy
  have hNodup : r.rules.Nodup := .of_map _ hValues
  rw [resolve?_eq] at h
  obtain ⟨z, hLast, hValue⟩ := Option.map_eq_some_iff.mp h
  obtain ⟨others, hOthers⟩ := List.getLast?_eq_some_iff.mp hLast
  have hMem : ∀ w ∈ others ++ [z], w ∈ r.rules ∧ w.pattern.accepts t = true := fun w hw =>
    List.mem_filter.mp (hOthers ▸ hw)
  obtain rfl : z = x := List.inj_on_of_nodup_map hValues (hMem z (by simp)).1
    (hOrder.subset (by simp)) hValue
  -- The later rule matches too, so it stands before the last one that matches.
  have hLater : y ∈ others ++ [z] := hOthers ▸ List.mem_filter.mpr ⟨hOrder.subset (by simp), hy⟩
  rcases List.mem_append.mp hLater with hBefore | hSelf
  · have hPair : [y, z].Sublist (others ++ [z]) :=
      (List.singleton_sublist.mpr hBefore).append (List.Sublist.refl [z])
    have hBack : [y, z].Sublist r.rules := hPair.trans (hOthers ▸ List.filter_sublist)
    obtain rfl := eq_of_pair_sublist hNodup hOrder hBack
    simpa using hOrder.nodup hNodup
  · obtain rfl := List.mem_singleton.mp hSelf
    simpa using hOrder.nodup hNodup

/-- A registry may be put into another order if rules that share a type keep theirs. -/
theorem Registry.resolve?_of_perm {α : Type} {r s : Registry α} {t : TypeName}
    (hPerm : s.rules.Perm r.rules) (hNodup : r.rules.Nodup)
    (hOrder : ∀ x y, [x, y].Sublist r.rules → x.pattern.accepts t = true →
      y.pattern.accepts t = true → [x, y].Sublist s.rules) : s.resolve? t = r.resolve? t := by
  have hSame : s.rules.filter (fun rule => rule.pattern.accepts t) =
      r.rules.filter (fun rule => rule.pattern.accepts t) := by
    refine @List.Perm.eq_of_pairwise _ (fun x y => [x, y].Sublist s.rules) _ _ ?_ ?_ ?_
      (hPerm.filter _)
    · exact fun x y _ _ h h' => eq_of_pair_sublist (hPerm.nodup_iff.mpr hNodup) h h'
    · rw [List.pairwise_iff_forall_sublist]
      exact fun h => h.trans List.filter_sublist
    · rw [List.pairwise_iff_forall_sublist]
      intro x y h
      have hMem : ∀ z ∈ [x, y], z.pattern.accepts t = true := fun z hz =>
        (List.mem_filter.mp (h.subset hz)).2
      exact hOrder x y (h.trans List.filter_sublist) (hMem x (by simp)) (hMem y (by simp))
  rw [resolve?_eq, resolve?_eq, hSame]

namespace Category

/-- The registry has a category for every type. -/
theorem isSome_resolve? (t : TypeName) : (registry.resolve? t).isSome := by
  have hAny : ∃ rule ∈ registry.rules.reverse, rule.pattern = .any := by decide +kernel
  obtain ⟨rule, hMem, hPattern⟩ := hAny
  rw [Registry.resolve?, Option.isSome_map, List.find?_isSome]
  exact ⟨rule, hMem, by rw [hPattern]; rfl⟩

/-- The patterns that take what others leave come before those others. -/
structure FallbacksFirst (patterns : List TypePattern) : Prop where
  any : ∀ p ∈ patterns, p ≠ .any → [.any, p].Sublist patterns
  array : ∀ names ∈ [valueElementNames, uuidNames],
    [.array .any, .array (.named names)].Sublist patterns
  list : ∀ names ∈ [valueContentNames, uuidNames],
    [.generic listNames, .genericOf listNames (.named names)].Sublist patterns

theorem nodup_patterns : (registry.rules.map Rule.pattern).Nodup := by decide +kernel

/-- Rules share a type only where one of them takes what the other leaves. -/
theorem pairwise_apart : registry.rules.Pairwise fun r s =>
    r.pattern.apart s.pattern = true ∨ r.pattern = .any ∧ s.pattern ≠ .any ∨
    r.pattern = .array .any ∧
      (∃ names ∈ [valueElementNames, uuidNames], s.pattern = .array (.named names)) ∨
    r.pattern = .generic listNames ∧
      ∃ names ∈ [valueContentNames, uuidNames],
        s.pattern = .genericOf listNames (.named names) := by
  decide +kernel

variable {rules : List (Rule Category)}

/-- The order of patterns is the order of their rules. -/
theorem pair_sublist_of_patterns {x y : Rule Category} (hPerm : rules.Perm registry.rules)
    (hx : x ∈ registry.rules) (hy : y ∈ registry.rules)
    (h : [x.pattern, y.pattern].Sublist (rules.map Rule.pattern)) : [x, y].Sublist rules := by
  obtain ⟨pair, hPair, hPatterns⟩ := List.sublist_map_iff.mp h
  obtain ⟨x', rest, rfl, hx', hRest⟩ := List.map_eq_cons_iff.mp hPatterns.symm
  obtain ⟨y', none, rfl, hy', hNone⟩ := List.map_eq_cons_iff.mp hRest
  obtain rfl := List.map_eq_nil_iff.mp hNone
  have hMem : ∀ z ∈ [x', y'], z ∈ registry.rules := fun z hz => hPerm.mem_iff.mp (hPair.subset hz)
  have hInjective := List.inj_on_of_nodup_map nodup_patterns
  rwa [← hInjective (hMem x' (by simp)) hx hx', ← hInjective (hMem y' (by simp)) hy hy']

end Category

/-- Every type has a category, and it is the same one for every order of the rules that
keeps the fallbacks first. -/
theorem resolve?_order_independent :
    (∀ t, ∃ category, Category.registry.resolve? t = some category) ∧
    ∀ rules : List (Rule Category), rules.Perm Category.registry.rules →
      Category.FallbacksFirst (rules.map Rule.pattern) →
      ∀ t, (Registry.mk rules).resolve? t = Category.registry.resolve? t := by
  refine ⟨fun t => Option.isSome_iff_exists.mp (Category.isSome_resolve? t), ?_⟩
  intro rules hPerm hFirst t
  refine Registry.resolve?_of_perm hPerm (.of_map _ Category.nodup_patterns) ?_
  intro x y hOrder hx hy
  have hMem : ∀ z ∈ [x, y], z ∈ Category.registry.rules := fun z hz => hOrder.subset hz
  refine Category.pair_sublist_of_patterns hPerm (hMem x (by simp)) (hMem y (by simp)) ?_
  rcases List.pairwise_iff_forall_sublist.mp Category.pairwise_apart hOrder with
    hApart | ⟨hAny, hOther⟩ | ⟨hArray, names, hNames, hElement⟩ | ⟨hList, names, hNames, hContent⟩
  · rw [TypePattern.accepts_eq_false_of_apart hApart hx] at hy
    cases hy
  · rw [hAny]
    refine hFirst.any _ ?_ hOther
    exact List.mem_map_of_mem (hPerm.mem_iff.mpr (hMem y (by simp)))
  · rw [hArray, hElement]
    exact hFirst.array names hNames
  · rw [hList, hContent]
    exact hFirst.list names hNames

/-- The rules for all types with the fallbacks first and the others from the last to the
first. -/
private def backwards : List (Rule Category) :=
  let isFallback (r : Rule Category) := r.value ∈ [Category.object, .array, .list]
  Category.registry.rules.filter isFallback ++
    (Category.registry.rules.filter (!isFallback ·)).reverse

/-- A list of identifiers, with a wildcard. -/
private def identifiers : TypeName :=
  .mk "java.util.List" [.mk "UUID" [] 0 (some .extends)] 0 none

theorem resolve?_order_independent_backwards :
    backwards.Perm Category.registry.rules ∧
    Category.FallbacksFirst (backwards.map Rule.pattern) ∧
    (backwards.map Rule.value).take 5 =
      [.object, .array, .list, .sparseBooleanArray, .untypedCollection] ∧
    (Registry.mk backwards).resolve? identifiers = Category.registry.resolve? identifiers ∧
    Category.registry.resolve? identifiers = some .uuidList := by
  have hPerm : backwards.Perm Category.registry.rules :=
    ((List.reverse_perm _).append_left _).trans (List.filter_append_perm _ _)
  have hFirst : Category.FallbacksFirst (backwards.map Rule.pattern) :=
    ⟨by decide +kernel, by decide +kernel, by decide +kernel⟩
  exact ⟨hPerm, hFirst, by decide +kernel,
    resolve?_order_independent.2 backwards hPerm hFirst identifiers, by decide +kernel⟩

end BinderIdl
