import BinderIdl.Marshal.Cell

/-! What holds of every piece of generated code: it is not empty, and it takes a
number for its temporaries exactly if it declares some. The templates are gone
through once, operation by operation. -/
namespace BinderIdl

open Java

namespace Java

namespace Stmt

mutual

/-- The variables that a statement declares, in order. -/
def declared : Stmt → List String
  | declare _ _ name _ => [name]
  | assign _ _ | run _ => []
  | branch _ yes no => declaredIn yes ++ declaredIn no
  | count start _ _ body => start.map Prod.fst ++ declaredIn body
  | each _ _ name _ body => name :: declaredIn body
  | loop body _ | inset body => declaredIn body

/-- The variables that a block declares, in order. -/
def declaredIn : List Stmt → List String
  | [] => []
  | s :: ss => s.declared ++ declaredIn ss

end

/-- A statement other than a finished text starts with a line that is not empty. -/
theorem exists_lines (depth : Nat) (s : Stmt) (h : ∀ body, s ≠ inset body) :
    ∃ line lines, s.lines depth = line :: lines ∧ line ≠ "" := by
  cases s with
  | declare final type name value =>
      cases value with
      | none => exact ⟨_, _, by rw [lines], by simp⟩
      | some value => exact ⟨_, _, by rw [lines], by simp⟩
  | assign target value => exact ⟨_, _, by rw [lines], by simp⟩
  | run e => exact ⟨_, _, by rw [lines], by simp⟩
  | branch condition yes no =>
      exact ⟨_, _, by rw [lines, List.append_assoc, List.append_assoc]; rfl, by simp⟩
  | count start condition step body =>
      exact ⟨_, _, by rw [lines, List.append_assoc]; rfl, by simp⟩
  | each final type name elements body =>
      exact ⟨_, _, by rw [lines, List.append_assoc]; rfl, by simp⟩
  | loop body condition => exact ⟨_, _, by rw [lines, List.append_assoc]; rfl, by simp⟩
  | inset body => exact absurd rfl (h body)

end Stmt

namespace Fragment

/-- The variables that a piece of code declares. The argument's own variable is
declared by the code around it. -/
def declared : Fragment → List String
  | nothing | initializer _ => []
  | deferred body | statements body => Stmt.declaredIn body

/-- Whether a piece of code is more than nothing and starts with a line of its own. -/
def hasCode : Fragment → Bool
  | nothing | statements [] | statements (.inset _ :: _) => false
  | _ => true

theorem isNothing_of_hasCode {f : Fragment} (h : f.hasCode = true) : f.isNothing = false := by
  cases f with
  | nothing => cases h
  | initializer | deferred | statements => rfl

/-- Code is not empty. -/
theorem text_of_hasCode {f : Fragment} (h : f.hasCode = true) : f.text ≠ "" := by
  cases f with
  | nothing => cases h
  | initializer value => simp [text]
  | deferred body => simp [text]
  | statements body =>
      cases body with
      | nil => cases h
      | cons s ss =>
          obtain ⟨line, lines, hLines, hLine⟩ := s.exists_lines 0 (by rintro body rfl; cases h)
          rw [text, Stmt.text, Stmt.block, hLines, List.cons_append]
          cases lines ++ Stmt.block 0 ss <;> simp [Text.join, hLine]

end Fragment

end Java

/-- Code that is not empty, with temporaries of different roles if it takes a number
for them, and none otherwise. -/
inductive Emission.Tidy : Emission → Prop
  | refused : Tidy .refused
  | plain {code : String → Fragment} (hCode : ∀ x, (code x).hasCode = true := by intros; rfl)
      (hDeclared : ∀ x, (code x).declared = [] := by intros; rfl) : Tidy (.plain code)
  | scratch {code : Temporaries → String → Fragment} (role : Role) (roles : List Role)
      (hRoles : (role :: roles).Nodup := by decide)
      (hCode : ∀ t x, (code t x).hasCode = true := by intros; rfl)
      (hDeclared : ∀ t x, (code t x).declared = (role :: roles).map t.name := by intros; rfl) :
      Tidy (.scratch code)

/-- Code that is not refused is the code for what travels. -/
theorem Emission.emit?_of_ite {c : Bool} {e : Emission} {x : String} {n : Nat} {r : Fragment × Nat}
    (h : (if c then e else .refused : Emission).emit? x n = some r) : e.emit? x n = some r := by
  cases c with
  | true => exact h
  | false => cases h

theorem Emission.Tidy.hasCode {e : Emission} {x : String} {n n' : Nat} {f : Fragment} (h : e.Tidy)
    (hEmit : e.emit? x n = some (f, n')) : f.hasCode = true := by
  cases h with
  | refused => cases hEmit
  | plain hCode =>
      cases hEmit
      exact hCode x
  | scratch _ _ _ hCode =>
      cases hEmit
      exact hCode _ x

theorem Emission.Tidy.ite {c : Bool} {e : Emission} (h : e.Tidy) :
    (if c then e else .refused : Emission).Tidy := by
  cases c with
  | true => exact h
  | false => exact .refused

namespace Scheme

theorem tidy_write (scheme : Scheme) (q : Parcel) : (scheme.write q).Tidy := by
  cases scheme with
  | object type nature => cases nature <;> exact .plain
  | array element nature =>
      cases nature with
      | parcelable => exact .ite .plain
      | interface => exact .ite (.scratch .binders [.i])
      | serializable => exact .ite (.scratch .item [])
  | list content nature =>
      cases nature with
      | parcelable => exact .plain
      | interface => exact .scratch .size [.binders, .interface]
      | serializable => exact .scratch .item []
  | uuidArray | uuidList => exact .scratch .bits [.nullUuid, .i, .uuid]
  | parcelable | anyValue | value | intLike | boolean | valueArray | valueList | uuid |
    untypedList | untypedMap | sparseBooleanArray => exact .plain

theorem tidy_create (scheme : Scheme) (d : Declared) (q : Parcel) : (scheme.create d q).Tidy := by
  cases scheme with
  | object type nature => cases nature <;> exact .plain
  | array element nature =>
      cases nature with
      | parcelable => exact .ite .plain
      | interface => exact .ite (.scratch .binders [.i])
      | serializable => exact .ite (.scratch .size [.i])
  | list content nature =>
      cases nature with
      | parcelable => exact .plain
      | interface => exact .scratch .binders [.size, .binder]
      | serializable => exact .scratch .size [.i]
  | uuid => exact .scratch .msb [.lsb]
  | uuidArray | uuidList =>
      exact .scratch .bits [.hasNull, .nullMsb, .nullLsb, .length, .i, .j, .msb, .lsb, .uuid]
  | parcelable | anyValue | value | intLike | boolean | valueArray | valueList | untypedList |
    untypedMap | sparseBooleanArray => exact .plain

theorem tidy_update (scheme : Scheme) (q : Parcel) : (scheme.update q).Tidy := by
  cases scheme with
  | object type nature =>
      cases nature with
      | parcelable => exact .plain
      | interface | serializable => exact .refused
  | array element nature =>
      cases nature with
      | parcelable => exact .ite .plain
      | interface => exact .ite (.scratch .binders [.i])
      | serializable => exact .ite (.scratch .size [.i, .item])
  | list content nature =>
      cases nature with
      | parcelable => exact .plain
      | interface => exact .scratch .binders [.binder]
      | serializable => exact .scratch .size [.i]
  | uuidArray =>
      exact .scratch .bits [.hasNull, .nullMsb, .nullLsb, .length, .i, .j, .msb, .lsb, .uuid]
  | uuidList =>
      exact .scratch .bits
        [.hasNull, .nullMsb, .nullLsb, .length, .curSize, .i, .j, .msb, .lsb, .uuid]
  | sparseBooleanArray => exact .scratch .array [.size, .i, .key, .value]
  | valueArray | valueList | untypedList | untypedMap => exact .plain
  | parcelable | anyValue | value | intLike | boolean | uuid => exact .refused

theorem tidy_createBuffer (scheme : Scheme) (d : Declared) (q : Parcel) :
    (scheme.createBuffer d q).Tidy := by
  cases scheme with
  | object type nature =>
      cases nature with
      | interface => exact .refused
      | parcelable | serializable => exact .plain
  | array | uuidArray => exact .ite (.scratch .length [])
  | valueArray => exact .scratch .length []
  | list | valueList | uuidList | untypedList | untypedMap | sparseBooleanArray =>
      exact .plain
  | parcelable | anyValue | value | intLike | boolean | uuid => exact .refused

/-- Whether the caller sends a length for a place where a value can come back. -/
def sendsLength : Scheme → Bool
  | array _ _ | uuidArray _ | valueArray _ _ => true
  | _ => false

theorem tidy_writeBufferInfo {scheme : Scheme} (q : Parcel) (h : scheme.sendsLength = true) :
    (scheme.writeBufferInfo q).Tidy := by
  cases scheme with
  | array | uuidArray => exact .ite .plain
  | valueArray => exact .plain
  | object | parcelable | anyValue | value | intLike | boolean | list | valueList | uuid |
    uuidList | untypedList | untypedMap | sparseBooleanArray => cases h

theorem writeBufferInfo_eq_nothing {scheme : Scheme} (q : Parcel) (h : scheme.sendsLength = false) :
    scheme.writeBufferInfo q = .plain fun _ => .nothing := by
  cases scheme with
  | array | uuidArray | valueArray => cases h
  | object | parcelable | anyValue | value | intLike | boolean | list | valueList | uuid |
    uuidList | untypedList | untypedMap | sparseBooleanArray => rfl

theorem tidy_perform (scheme : Scheme) (d : Declared) (q : Parcel) {operation : Operation}
    (h : operation ≠ .writeBufferInfo) : (scheme.perform d q operation).Tidy := by
  cases operation with
  | create => exact tidy_create ..
  | write => exact tidy_write ..
  | update => exact tidy_update ..
  | createBuffer => exact tidy_createBuffer ..
  | writeBufferInfo => exact absurd rfl h

/-- In every cell there is nothing, or tidy code. -/
theorem cell_cases (scheme : Scheme) (d : Declared) (direction : Direction) (site : Site)
    (phase : Phase) : (scheme.cell d direction site phase = .plain fun _ => .nothing) ∨
      (scheme.cell d direction site phase).Tidy := by
  rw [cell]
  cases hOperation : Operation.of? site direction phase with
  | none => exact .inl rfl
  | some operation =>
      by_cases h : operation = .writeBufferInfo
      · subst h
        cases hLength : scheme.sendsLength with
        | true => exact .inr (tidy_writeBufferInfo _ hLength)
        | false => exact .inl (writeBufferInfo_eq_nothing _ hLength)
      · exact .inr (tidy_perform _ _ _ h)

end Scheme

end BinderIdl
