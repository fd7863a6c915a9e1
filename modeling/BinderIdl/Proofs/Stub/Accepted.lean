import BinderIdl.Proofs.Stub.Package
import BinderIdl.Proofs.Stub.WellFormed

/-! Texts that the check of a file accepts: those of definitions in which nothing can reach
the structure of the file. -/
namespace BinderIdl

namespace Java

variable {cs : List Char} {s : String} {d e : Nat}

theorem nest_add {c : Char} (h : nest d c = some e) (k : Nat) : nest (d + k) c = some (e + k) := by
  grind [nest]

/-- What leads from one depth to another does so from a greater depth as well. -/
theorem depth?_add (h : depth? d cs = some e) (k : Nat) : depth? (d + k) cs = some (e + k) := by
  induction cs generalizing d with
  | nil =>
      cases h
      rfl
  | cons c cs ih =>
      rw [depth?_cons] at h ⊢
      obtain ⟨d', hStep, hRest⟩ := Option.bind_eq_some_iff.mp h
      exact Option.bind_eq_some_iff.mpr ⟨d' + k, nest_add hStep k, ih hRest⟩

theorem Nests.add (h : Nests s d e) (k : Nat) : Nests s (d + k) (e + k) := by
  obtain ⟨bare, hLeaves, hDepth⟩ := h
  exact ⟨bare, hLeaves, depth?_add hDepth k⟩

theorem Spans.add {lines : List String} (h : Spans lines d e) (k : Nat) :
    Spans lines (d + k) (e + k) :=
  Nests.add h k

/-- A file that is accepted has as many opening as closing braces. -/
theorem count_of_accepted {text : String} (h : defect? text = none) :
    (bareCode text.toList).count '\x7b' = (bareCode text.toList).count '\x7d' := by
  rw [defect?] at h
  split at h
  · cases h
  · split at h
    · cases h
    · split at h
      · cases h
      · rename_i hCount
        exact not_not.mp hCount

end Java

namespace Interface

open Java

variable {i : Interface} {ms : List MethodCode} {b : Banner}

/-- A file has its package if the name of the package has no dollar sign. -/
theorem declaresPackage_fileText (hQualified : IsQualified i.package)
    (hDollar : '$' ∉ i.package.toList) (hBanner : b.Harmless) :
    declaresPackage (bareCode (i.fileText b ms).toList) = true := by
  have hNil : i.package.toList ≠ [] := by
    obtain ⟨c, cs, hFirst, -⟩ := hQualified.exists_first
    rw [hFirst]
    exact List.cons_ne_nil c cs
  have hClause : startsPackage (bareCode (i.codeText ms).toList) = true := by
    rw [i.bareCode_codeText hQualified.plain]
    exact (startsPackage_clause hNil hQualified.isNameChar _).mpr hDollar
  apply declaresPackage_of_startsPackage
  rw [i.fileText_eq, String.toList_append]
  cases hShown : b.shown with
  | true => rwa [Banner.leaves_text hShown hBanner, List.singleton_append, startsPackage_feed]
  | false => rwa [Banner.text_hidden hShown, String.toList_empty, List.nil_append]

/-- A file whose words are plain is accepted if its package has no dollar sign. -/
theorem Plain.defect?_fileText (h : i.Plain) (hMethods : ∀ m ∈ ms, m.Plain) (hBanner : b.Harmless)
    (hQualified : IsQualified i.package) (hDollar : '$' ∉ i.package.toList) :
    defect? (i.fileText b ms) = none := by
  obtain ⟨before, after, hText, ⟨bare, hBefore, hDepth⟩, ⟨bare', hAfter, hDepth'⟩⟩ :=
    h.nests_fileText hMethods hBanner
  have hClass : Leaves " class Stub".toList " class Stub".toList :=
    .of_calm (.of_not_mem (by decide) (by decide))
  have hCode : bareCode (i.fileText b ms).toList = bare ++ (" class Stub".toList ++ bare') := by
    rw [hText, String.toList_append, String.toList_append]
    exact (hBefore.append (hClass.append hAfter)).eq
  have hNested : depth? 0 (bareCode (i.fileText b ms).toList) = some 0 := by
    rw [hCode, depth?_append, hDepth]
    exact hDepth'
  have hType : declaresType (bareCode (i.fileText b ms).toList) = true := by
    rw [hCode]
    exact declaresTypeFrom_append (startsType_stub bare') rfl bare true
  simp [defect?, declaresPackage_fileText hQualified hDollar hBanner, hType,
    (nested_of_depth? hNested).1]

end Interface

/-- The text of a definition is accepted if its blocks are plain, its package has no dollar sign
and the banner stays a comment. -/
theorem defect?_of_encodeInterface {filename : Option String} {definition : String} {s : Source}
    {i : Interface} {w : Writer} {banner : Banner} {e : Desk} {text : String}
    (hRead : Source.read filename definition = .ok s) (hParse : Interface.ofSource s = .ok (some i))
    (hBlocks : ∀ t ∈ s.tokens, t.cls = .typeBlock → Java.Plain t.value)
    (hDollar : '$' ∉ i.package.toList) (hBanner : banner.Harmless)
    (hContext : w.context.typeParameters = i.typeParameters)
    (hFile : w.encodeInterface i banner {} = .ok text e) : Java.defect? text = none := by
  have hPlain : i.Plain := Interface.plain_of_ofSource hRead hParse hBlocks
  obtain ⟨ms, hMethods, rfl⟩ := Writer.encodeMethods_of_encodeInterface hFile
  have hCodes := Writer.plain_of_encodeMethods hPlain hContext (Desk.serves_empty i) hMethods
  exact hPlain.defect?_fileText hCodes hBanner (Interface.isQualified_package hRead hParse) hDollar

end BinderIdl
