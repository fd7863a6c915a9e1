import BinderIdl.Nature

/-! Which imports decide about the nature of a type, and what is asked of the look-up for
sources. An import of the type that declares a nature decides alone. Without one the type is
Parcelable or an interface, the look-up is asked once at most, and more known names or more
sources never make less of a type. -/
namespace BinderIdl

/-- The first import of a type that declares a nature. -/
def declaration? (type : String) (imports : List Import) : Option Import :=
  (imports.filter (·.kind != .plain)).find? (·.isOf type)

/-- The name that a type without a declared nature goes by: that of its first import, or else
its own. -/
def usedName (type : String) (imports : List Import) : String :=
  ((imports.find? (·.isOf type)).map Import.name).getD type

/-- The name of a type is known to be that of Parcelable values. A type of the language's own
package needs no import. -/
def IsKnown (type : String) (imports : List Import) (known : List String) : Prop :=
  usedName type imports ∈ known ∨
    imports.find? (·.isOf type) = none ∧ '.' ∉ type.toList ∧ "java.lang." ++ type ∈ known

/-- The look-up finds a source. -/
def Finds (lookup : Option (String → String → Bool)) (name package : String) : Prop :=
  ∃ f ∈ lookup, f name package = true

theorem ImportKind.nature?_isSome (kind : ImportKind) : kind.nature?.isSome = (kind != .plain) := by
  cases kind <;> rfl

/-- The nature that is declared for a type is that of the first declaration. -/
theorem findSome?_nature? (type : String) (imports : List Import) :
    (imports.filter (·.isOf type)).findSome? (·.kind.nature?) =
      (declaration? type imports).bind (·.kind.nature?) := by
  rw [declaration?]
  induction imports with
  | nil => rfl
  | cons i imports ih =>
      have hSome := i.kind.nature?_isSome
      cases hOf : i.isOf type with
      | false => simpa [hOf] using ih
      | true =>
          cases hNature : i.kind.nature? with
          | none =>
              rw [hNature] at hSome
              simpa [hOf, hNature, ← hSome] using ih
          | some nature =>
              rw [hNature] at hSome
              simp [hOf, hNature, ← hSome]

namespace Verdict

variable {type : String} {imports : List Import}

/-- A declaration decides, whatever else is known. -/
theorem of_declaration {i : Import} (h : declaration? (withoutArguments type) imports = some i)
    (known : List String) :
    ∃ nature, i.kind.nature? = some nature ∧ Verdict.of type imports known = .decided nature := by
  have hKind : i.kind.nature?.isSome = true := by
    rw [ImportKind.nature?_isSome]
    exact (List.mem_filter.mp (List.mem_of_find?_eq_some h)).2
  obtain ⟨nature, hNature⟩ := Option.isSome_iff_exists.mp hKind
  refine ⟨nature, hNature, ?_⟩
  simp only [Verdict.of, findSome?_nature?, h, Option.bind_some, hNature]

/-- Without a declaration the type is asked for by its used name, unless it is known. -/
theorem of_no_declaration (h : declaration? (withoutArguments type) imports = none)
    (known : List String) :
    (IsKnown (withoutArguments type) imports known →
      Verdict.of type imports known = .decided .parcelable) ∧
    (¬IsKnown (withoutArguments type) imports known →
      Verdict.of type imports known = .ask (usedName (withoutArguments type) imports)) := by
  simp only [Verdict.of, findSome?_nature?, h, Option.bind_none, IsKnown, usedName,
    ← List.head?_filter]
  cases imports.filter (·.isOf (withoutArguments type)) with
  | cons i more =>
      simp only [List.head?_cons, reduceCtorEq, false_and, or_false]
      by_cases hKnown : i.name ∈ known <;> simp [hKnown]
  | nil =>
      by_cases hOwn : '.' ∉ (withoutArguments type).toList ∧
        "java.lang." ++ withoutArguments type ∈ known
      · simp [hOwn]
      · by_cases hKnown : withoutArguments type ∈ known <;> simp [hOwn, hKnown]

/-- Only the imports of the type count. -/
theorem of_congr {imports' : List Import}
    (h : imports'.filter (·.isOf (withoutArguments type)) =
      imports.filter (·.isOf (withoutArguments type))) (known : List String) :
    Verdict.of type imports' known = Verdict.of type imports known := by
  simp only [Verdict.of, h]

end Verdict

/-- Plain imports declare nothing, wherever they stand. -/
theorem declaration?_congr {imports imports' : List Import} (type : String)
    (h : imports'.filter (·.kind != .plain) = imports.filter (·.kind != .plain)) :
    declaration? type imports' = declaration? type imports := by
  rw [declaration?, declaration?, h]

theorem IsKnown.mono {type : String} {imports : List Import} {known known' : List String}
    (h : IsKnown type imports known) (hMore : known ⊆ known') : IsKnown type imports known' := by
  rcases h with hMem | ⟨hNone, hDot, hMem⟩
  · exact .inl (hMore hMem)
  · exact .inr ⟨hNone, hDot, hMore hMem⟩

namespace Nature

/-- The nature of a type, with a look-up that may have effects. -/
def classifyM {m : Type → Type} [Monad m] (type package : String) (imports : List Import)
    (lookup : Option (String → String → m Bool)) (known : List String) : m Nature :=
  match Verdict.of type imports known with
  | .decided nature => pure nature
  | .ask name =>
      match lookup with
      | some lookup => do
          let found ← lookup name package
          return if found then .parcelable else .interface
      | none => return .interface

/-- A look-up that writes down what it is asked. -/
def recording (lookup : String → String → Bool) (name package : String) :
    StateM (List (String × String)) Bool := do
  modify (· ++ [(name, package)])
  return lookup name package

/-- The nature of a type, and what the look-up was asked on the way. -/
def traced (type package : String) (imports : List Import)
    (lookup : Option (String → String → Bool)) (known : List String) :
    Nature × List (String × String) :=
  (classifyM type package imports (lookup.map recording) known).run []

variable {type : String} {imports : List Import}

/-- Writing down what is asked changes no answer. -/
theorem fst_traced (type package : String) (imports : List Import)
    (lookup : Option (String → String → Bool)) (known : List String) :
    (traced type package imports lookup known).1 = classify type package imports lookup known := by
  rw [traced, classifyM, classify]
  cases Verdict.of type imports known with
  | decided nature => rfl
  | ask name => cases lookup <;> rfl

theorem traced_of_decided {known : List String} {nature : Nature}
    (h : Verdict.of type imports known = .decided nature) (package : String)
    (lookup : Option (String → String → Bool)) :
    traced type package imports lookup known = (nature, []) := by
  rw [traced, classifyM, h]
  rfl

theorem traced_of_ask {known : List String} {name : String}
    (h : Verdict.of type imports known = .ask name) (package : String)
    (lookup : Option (String → String → Bool)) :
    (traced type package imports lookup known).2 = [] ∨
      (traced type package imports lookup known).2 = [(name, package)] := by
  rw [traced, classifyM, h]
  cases lookup with
  | none => exact .inl rfl
  | some lookup => exact .inr rfl

/-- Without a declaration a type is Parcelable exactly if it is known or has a source. -/
theorem classify_eq_parcelable_iff (h : declaration? (withoutArguments type) imports = none)
    (package : String) (lookup : Option (String → String → Bool)) (known : List String) :
    classify type package imports lookup known = .parcelable ↔
      IsKnown (withoutArguments type) imports known ∨
        Finds lookup (usedName (withoutArguments type) imports) package := by
  obtain ⟨hDecided, hAsk⟩ := Verdict.of_no_declaration h known
  rw [classify]
  by_cases hKnown : IsKnown (withoutArguments type) imports known
  · simp [hDecided hKnown, hKnown]
  · cases lookup <;> simp [hAsk hKnown, hKnown, Finds]

theorem classify_ne_serializable (h : declaration? (withoutArguments type) imports = none)
    (package : String) (lookup : Option (String → String → Bool)) (known : List String) :
    classify type package imports lookup known ≠ .serializable := by
  obtain ⟨hDecided, hAsk⟩ := Verdict.of_no_declaration h known
  rw [classify]
  by_cases hKnown : IsKnown (withoutArguments type) imports known
  · simp [hDecided hKnown]
  · rw [hAsk hKnown]
    cases lookup with
    | none => simp
    | some f => by_cases hFound : f (usedName (withoutArguments type) imports) package <;>
        simp [hFound]

/-- The precedence of declared natures. The first import of the type that declares a nature
decides: plain imports, the package, the known names and the look-up do not matter, and the
look-up is not asked. Without one the type is Parcelable exactly if its name is known or the
look-up finds it, and is not Serializable; the look-up is asked once at most, for the used name
in the package; only the imports of the type matter; and more known names or sources can only
make an interface Parcelable. -/
theorem classify_precedence (type package : String) (imports : List Import)
    (lookup : Option (String → String → Bool)) (known : List String) :
    (traced type package imports lookup known).1 = classify type package imports lookup known ∧
    (∀ i, declaration? (withoutArguments type) imports = some i →
      i.kind.nature? = some (classify type package imports lookup known) ∧
      (traced type package imports lookup known).2 = [] ∧
      ∀ package' imports' lookup' known',
        imports'.filter (·.kind != .plain) = imports.filter (·.kind != .plain) →
        traced type package' imports' lookup' known' =
          traced type package imports lookup known) ∧
    (declaration? (withoutArguments type) imports = none →
      (classify type package imports lookup known = .parcelable ↔
        IsKnown (withoutArguments type) imports known ∨
          Finds lookup (usedName (withoutArguments type) imports) package) ∧
      classify type package imports lookup known ≠ .serializable ∧
      ((traced type package imports lookup known).2 = [] ∨
        (traced type package imports lookup known).2 =
          [(usedName (withoutArguments type) imports, package)]) ∧
      (∀ imports', imports'.filter (·.isOf (withoutArguments type)) =
          imports.filter (·.isOf (withoutArguments type)) →
        traced type package imports' lookup known = traced type package imports lookup known) ∧
      ∀ lookup' known', known ⊆ known' →
        (∀ name, Finds lookup name package → Finds lookup' name package) →
        classify type package imports lookup' known' =
            classify type package imports lookup known ∨
          classify type package imports lookup known = .interface ∧
            classify type package imports lookup' known' = .parcelable) := by
  refine ⟨fst_traced .., fun i hFirst => ?_, fun hNone => ⟨?_, ?_, ?_, ?_, ?_⟩⟩
  · obtain ⟨nature, hNature, hDecided⟩ := Verdict.of_declaration hFirst known
    have hTraced := traced_of_decided hDecided package lookup
    refine ⟨?_, by rw [hTraced], fun package' imports' lookup' known' hSame => ?_⟩
    · rw [← fst_traced, hTraced, hNature]
    · rw [← declaration?_congr _ hSame] at hFirst
      obtain ⟨nature', hNature', hDecided'⟩ := Verdict.of_declaration hFirst known'
      cases hNature.symm.trans hNature'
      rw [traced_of_decided hDecided', hTraced]
  · exact classify_eq_parcelable_iff hNone package lookup known
  · exact classify_ne_serializable hNone package lookup known
  · obtain ⟨hDecided, hAsk⟩ := Verdict.of_no_declaration hNone known
    by_cases hKnown : IsKnown (withoutArguments type) imports known
    · exact .inl (by rw [traced_of_decided (hDecided hKnown)])
    · exact traced_of_ask (hAsk hKnown) package lookup
  · intro imports' hSame
    simp only [traced, classifyM, Verdict.of_congr hSame]
  · intro lookup' known' hKnown hFinds
    have hMore : classify type package imports lookup known = .parcelable →
        classify type package imports lookup' known' = .parcelable := by
      simp only [classify_eq_parcelable_iff hNone]
      exact Or.imp (·.mono hKnown) (hFinds _)
    have hOld := classify_ne_serializable hNone package lookup known
    have hNew := classify_ne_serializable hNone package lookup' known'
    revert hMore hOld hNew
    cases classify type package imports lookup known <;>
      cases classify type package imports lookup' known' <;> simp

/-- A plain import of a type, then two that declare its nature. -/
private def colours : List Import :=
  [⟨.plain, "x.Colour"⟩, ⟨.serializable, "a.Colour"⟩, ⟨.parcelable, "b.Colour"⟩]

theorem classify_precedence_colours :
    (declaration? (withoutArguments "Colour<Ink>") colours = some ⟨.serializable, "a.Colour"⟩ ∧
      some .serializable = some (classify "Colour<Ink>" "demo" colours none []) ∧
      traced "Colour<Ink>" "" (colours.drop 1 ++ [⟨.plain, "Colour"⟩]) (some fun _ _ => true)
          ["x.Colour"] = traced "Colour<Ink>" "demo" colours none []) ∧
    (declaration? (withoutArguments "Shade") colours = none ∧
      (∀ name, Finds none name "demo" → Finds (some fun _ _ => true) name "demo") ∧
      (classify "Shade" "demo" colours (some fun _ _ => true) ["java.lang.Shade"] =
          classify "Shade" "demo" colours none [] ∨
        classify "Shade" "demo" colours none [] = .interface ∧
          classify "Shade" "demo" colours (some fun _ _ => true) ["java.lang.Shade"] =
            .parcelable)) := by
  have hColour : declaration? (withoutArguments "Colour<Ink>") colours =
      some ⟨.serializable, "a.Colour"⟩ := by decide
  have hShade : declaration? (withoutArguments "Shade") colours = none := by decide
  have hFinds : ∀ name, Finds none name "demo" → Finds (some fun _ _ => true) name "demo" :=
    fun name _ => ⟨_, rfl, rfl⟩
  obtain ⟨hNature, -, hSame⟩ :=
    (classify_precedence "Colour<Ink>" "demo" colours none []).2.1 _ hColour
  obtain ⟨-, -, -, -, hMore⟩ := (classify_precedence "Shade" "demo" colours none []).2.2 hShade
  exact ⟨⟨hColour, hNature, hSame _ _ _ _ (by decide)⟩, hShade, hFinds,
    hMore _ _ (List.nil_subset _) hFinds⟩

end Nature

end BinderIdl
