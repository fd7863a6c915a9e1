import BinderIdl.Marshal.Cell
import BinderIdl.Proofs.Marshal.Words

/-! What declares an argument: a first value on the line of the declaration, or the end of the
declaration and statements behind it. A value is on one line as all its words are, and those
come from the declared type and from the names of the type that it means. -/
namespace BinderIdl

open Java

namespace Text

/-- A text on one line. -/
abbrev Unbroken (s : String) : Prop := Over (fun c => isLineBreak c = false) s

/-- A fixed text is on one line if none of its characters breaks it. -/
theorem unbroken_literal {s : String} (h : (s.toList.all fun c => !isLineBreak c) = true) :
    Unbroken s :=
  fun c hc => by simpa using List.all_eq_true.mp h c hc

end Text

open Text

namespace Java.Expr

mutual

/-- The words in an expression that are not fixed by its shape. -/
def words : Expr → List String
  | null => []
  | int value => [toString value]
  | name text => [text]
  | field e member => member :: e.words
  | index e e' | binary _ e e' => e.words ++ e'.words
  | call target method arguments => method :: target.words ++ wordsIn arguments
  | callSelf method arguments | new method arguments => method :: wordsIn arguments
  | newArray element e | cast element e => element :: e.words
  | conditional e yes no => e.words ++ yes.words ++ no.words
  | preIncrement e | postIncrement e | paren e => e.words

/-- The words in several expressions. -/
def wordsIn : List Expr → List String
  | [] => []
  | e :: es => e.words ++ wordsIn es

end

theorem unbroken_sign (operator : Operator) : Unbroken operator.sign := by
  cases operator <;> exact unbroken_literal rfl

mutual

/-- An expression whose words are on one line is on one line itself. -/
theorem unbroken_text : ∀ e : Expr, (∀ w ∈ e.words, Unbroken w) → Unbroken e.text
  | null, _ => unbroken_literal rfl
  | int _, h | name _, h => h _ List.mem_cons_self
  | field e _, h | cast _ e, h | newArray _ e, h => by
      rw [words, List.forall_mem_cons] at h
      simp only [text, over_append, h.1, e.unbroken_text h.2, true_and, and_true]
      and_intros <;> exact unbroken_literal rfl
  | preIncrement e, h | postIncrement e, h | paren e, h => by
      simp only [text, over_append, e.unbroken_text h, true_and, and_true]
      and_intros <;> exact unbroken_literal rfl
  | index e e', h => by
      rw [words, List.forall_mem_append] at h
      simp only [text, over_append, e.unbroken_text h.1, e'.unbroken_text h.2, true_and, and_true]
      and_intros <;> exact unbroken_literal rfl
  | binary operator e e', h => by
      rw [words, List.forall_mem_append] at h
      simp only [text, over_append, e.unbroken_text h.1, e'.unbroken_text h.2, unbroken_sign,
        true_and, and_true]
      and_intros <;> exact unbroken_literal rfl
  | conditional e yes no, h => by
      rw [words, List.forall_mem_append, List.forall_mem_append] at h
      simp only [text, over_append, e.unbroken_text h.1.1, yes.unbroken_text h.1.2,
        no.unbroken_text h.2, true_and, and_true]
      and_intros <;> exact unbroken_literal rfl
  | call target _ arguments, h => by
      rw [words, List.cons_append, List.forall_mem_cons, List.forall_mem_append] at h
      simp only [text, over_append, h.1, target.unbroken_text h.2.1, unbroken_texts arguments h.2.2,
        true_and, and_true]
      and_intros <;> exact unbroken_literal rfl
  | callSelf _ arguments, h | new _ arguments, h => by
      rw [words, List.forall_mem_cons] at h
      simp only [text, over_append, h.1, unbroken_texts arguments h.2, true_and, and_true]
      and_intros <;> exact unbroken_literal rfl

theorem unbroken_texts : ∀ es : List Expr, (∀ w ∈ wordsIn es, Unbroken w) → Unbroken (texts es)
  | [], _ => unbroken_literal rfl
  | [e], h => by
      rw [wordsIn, List.forall_mem_append] at h
      exact e.unbroken_text h.1
  | e :: e' :: es, h => by
      rw [wordsIn, List.forall_mem_append] at h
      simp only [texts, over_append, e.unbroken_text h.1, unbroken_texts (e' :: es) h.2, true_and,
        and_true]
      exact unbroken_literal rfl

end

end Java.Expr

/-- What can stand behind the name of a variable that is being declared. -/
inductive Java.Fragment.Suffix : Fragment → Prop
  | initializer {value : Expr} (h : Unbroken value.text) : Suffix (.initializer value)
  | deferred (body : List Stmt) : Suffix (.deferred body)

/-- The code of an operation declares a variable. -/
def Emission.Suffix : Emission → Prop
  | refused => True
  | plain code => ∀ x, (code x).Suffix
  | scratch code => ∀ t x, (code t x).Suffix

namespace Emission.Suffix

theorem emit? {e : Emission} {x : String} {n n' : Nat} {f : Fragment} (h : e.Suffix)
    (hEmit : e.emit? x n = some (f, n')) : f.Suffix := by
  cases e with
  | refused => cases hEmit
  | plain code =>
      cases hEmit
      exact h x
  | scratch code =>
      cases hEmit
      exact h _ x

theorem ite {c : Bool} {e : Emission} (h : e.Suffix) :
    (if c then e else .refused : Emission).Suffix := by
  cases c with
  | true => exact h
  | false => trivial

theorem initial {e : Expr} (h : ∀ w ∈ e.words, Unbroken w) : (Emission.initial e).Suffix :=
  fun _ => .initializer (e.unbroken_text h)

end Emission.Suffix

section Values

variable {e : Expr}

theorem Declared.unbroken_castTo {d : Declared} (hType : Unbroken d.type)
    (h : ∀ w ∈ e.words, Unbroken w) : ∀ w ∈ (d.castTo e).words, Unbroken w := by
  rw [castTo]
  split
  · exact List.forall_mem_cons.mpr ⟨hType, h⟩
  · exact h

theorem Parcel.unbroken_call (q : Parcel) {method : String} {arguments : List Expr}
    (hMethod : Unbroken method) (h : ∀ w ∈ Expr.wordsIn arguments, Unbroken w) :
    ∀ w ∈ (q.call method arguments).words, Unbroken w := by
  have hName : Unbroken q.name := by
    cases q <;> exact unbroken_literal rfl
  simp only [call, expr, Expr.words, List.cons_append, List.nil_append, List.forall_mem_cons]
  exact ⟨hMethod, hName, h⟩

theorem unbroken_asInterface {name : String} (hName : Unbroken name)
    (h : ∀ w ∈ e.words, Unbroken w) : ∀ w ∈ (asInterface name e).words, Unbroken w := by
  simp only [asInterface, Expr.words, Expr.wordsIn, List.cons_append, List.nil_append,
    List.append_nil, List.forall_mem_cons]
  exact ⟨unbroken_literal rfl, over_append.mpr ⟨hName, unbroken_literal rfl⟩, h⟩

theorem unbroken_classLoader : ∀ w ∈ Expr.wordsIn [classLoader], Unbroken w := by
  simp only [classLoader, Expr.words, Expr.wordsIn, List.append_nil, List.forall_mem_cons]
  exact ⟨unbroken_literal rfl, unbroken_literal rfl, List.forall_mem_nil _⟩

theorem unbroken_wordsIn_name {y : String} (h : Unbroken y) :
    ∀ w ∈ Expr.wordsIn [.name y], Unbroken w :=
  List.forall_mem_singleton.mpr h

end Values

/-- Letters and the signs of types break no line. -/
theorem isLineBreak_of_isUsual (c : Char) (h : isUsual c = true) : isLineBreak c = false := by
  have hRange : 32 ≤ c.toNat ∧ c.toNat ≤ 122 := by
    rw [isUsual, Bool.or_eq_true, isAlpha_iff] at h
    rcases h with hAlpha | hSign
    · omega
    · simp only [String.reduceToList, List.contains_eq_mem, decide_eq_true_eq, List.mem_cons,
        List.not_mem_nil, or_false] at hSign
      rcases hSign with rfl | rfl | rfl | rfl | rfl | rfl | rfl | rfl | rfl <;> decide
  simp only [isLineBreak, Bool.or_eq_false_iff, Bool.and_eq_false_iff, decide_eq_false_iff_not,
    beq_eq_false_iff_ne]
  omega

theorem isLineBreak_of_isBlank {c : Char} (h : isBlank c = false) : isLineBreak c = false := by
  simp only [isBlank, isLineBreak, Bool.or_eq_false_iff, Bool.and_eq_false_iff,
    decide_eq_false_iff_not, beq_eq_false_iff_ne] at h ⊢
  omega

/-- Every name of a type that was read is on one line, whatever the text was. -/
theorem TypeName.every_unbroken {text : String} {t : TypeName} (h : parse text = .ok t) :
    t.Every Unbroken := by
  refine (every_read h).mono fun name hName => ?_
  rcases hName with rfl | hName
  · exact unbroken_literal rfl
  · exact fun c hc => isLineBreak_of_isBlank (hName c hc).2

namespace Scheme

variable {s : Scheme} {d : Declared}

theorem unbroken_arrayListOf {content : TypeName} (h : content.Every Unbroken) :
    Unbroken (arrayListOf content.print) := by
  have hOpen : Unbroken ("java.util.ArrayList<" ++ content.print) :=
    over_append.mpr ⟨unbroken_literal rfl, over_print isLineBreak_of_isUsual h⟩
  exact over_append.mpr ⟨hOpen, unbroken_literal rfl⟩

theorem suffix_create (h : s.Every Unbroken) (hType : Unbroken d.type) (q : Parcel) :
    (s.create d q).Suffix := by
  have hNone : ∀ w ∈ Expr.wordsIn [], Unbroken w := List.forall_mem_nil _
  cases s with
  | object type nature =>
      have hClass := over_className isLineBreak_of_isUsual h
      cases nature with
      | parcelable => exact fun _ => .deferred _
      | interface =>
          exact .initial (Declared.unbroken_castTo hType
            (unbroken_asInterface hClass (q.unbroken_call (unbroken_literal rfl) hNone)))
      | serializable =>
          exact .initial (List.forall_mem_cons.mpr
            ⟨hType, q.unbroken_call (unbroken_literal rfl) hNone⟩)
  | array element nature =>
      have hCreator := over_creatorOf isLineBreak_of_isUsual
        (over_className isLineBreak_of_isUsual h)
      apply Emission.Suffix.ite
      cases nature with
      | parcelable =>
          exact .initial (q.unbroken_call (unbroken_literal rfl) (unbroken_wordsIn_name hCreator))
      | interface | serializable => exact fun _ _ => .deferred _
  | list content nature =>
      have hCreator := over_creatorOf isLineBreak_of_isUsual h.base
      cases nature with
      | parcelable =>
          exact .initial (q.unbroken_call (unbroken_literal rfl) (unbroken_wordsIn_name hCreator))
      | interface | serializable => exact fun _ _ => .deferred _
  | value kind =>
      have hMethod : Unbroken ("read" ++ kind) := over_append.mpr ⟨unbroken_literal rfl, h⟩
      exact .initial (q.unbroken_call hMethod hNone)
  | valueArray element kind | valueList content kind =>
      have hStart : Unbroken ("create" ++ kind) := over_append.mpr ⟨unbroken_literal rfl, h.2⟩
      exact .initial (q.unbroken_call (over_append.mpr ⟨hStart, unbroken_literal rfl⟩) hNone)
  | anyValue =>
      exact .initial (List.forall_mem_cons.mpr
        ⟨hType, q.unbroken_call (unbroken_literal rfl) unbroken_classLoader⟩)
  | intLike =>
      exact .initial (List.forall_mem_cons.mpr
        ⟨hType, q.unbroken_call (unbroken_literal rfl) hNone⟩)
  | boolean =>
      refine .initial (List.forall_mem_append.mpr
        ⟨q.unbroken_call (unbroken_literal rfl) hNone, ?_⟩)
      exact List.forall_mem_singleton.mpr (unbroken_literal rfl)
  | parcelable | untypedList | untypedMap =>
      exact .initial (q.unbroken_call (unbroken_literal rfl) unbroken_classLoader)
  | sparseBooleanArray => exact .initial (q.unbroken_call (unbroken_literal rfl) hNone)
  | uuid | uuidArray | uuidList => exact fun _ _ => .deferred _

theorem suffix_createBuffer (h : s.Every Unbroken) (hType : Unbroken d.type) (q : Parcel) :
    (s.createBuffer d q).Suffix := by
  -- Values that are made without arguments have the words of their type.
  have hNew : ∀ {type : String}, Unbroken type → ∀ w ∈ (Expr.new type []).words, Unbroken w :=
    fun hNew => List.forall_mem_singleton.mpr hNew
  cases s with
  | object type nature =>
      have hPrint := over_print isLineBreak_of_isUsual h
      cases nature with
      | interface => trivial
      | parcelable | serializable =>
          exact .initial (Declared.unbroken_castTo hType (hNew hPrint))
  | array | uuidArray => exact .ite fun _ _ => .deferred _
  | valueArray => exact fun _ _ => .deferred _
  | list | uuidList => exact .initial (hNew (unbroken_arrayListOf h))
  | valueList => exact .initial (hNew (unbroken_arrayListOf h.1))
  | untypedList | untypedMap | sparseBooleanArray =>
      exact .initial (hNew (unbroken_literal rfl))
  | parcelable | anyValue | value | intLike | boolean | uuid => trivial

/-- What declares an argument has its first value on the same line, or statements behind it. -/
theorem suffix_perform {operation : Operation}
    (hDeclares : operation = .create ∨ operation = .createBuffer) (h : s.Every Unbroken)
    (hType : Unbroken d.type) (q : Parcel) : (s.perform d q operation).Suffix := by
  rcases hDeclares with rfl | rfl
  · exact suffix_create h hType q
  · exact suffix_createBuffer h hType q

end Scheme

end BinderIdl
