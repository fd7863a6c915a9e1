import BinderIdl.Proofs.Stub.Faults

/-! A type parameter travels as its first bound does. The declared type of an argument has no
part in the scheme, only in casts: so a request for an argument whose type is a parameter
and one for an argument whose type is the bound fail together, or give the same code but
for a cast in front of a value that is read or made. -/
namespace BinderIdl

open Java

/-- A place for the first value of a variable. -/
inductive Frame where
  /-- The value follows the declaration. -/
  | initializer
  /-- The value is assigned if a condition holds, and something else is done otherwise. -/
  | flagged (condition : Expr) (otherwise : List Stmt)

/-- A value in its place. -/
def Frame.fill (x : String) (value : Expr) : Frame → Fragment
  | initializer => .initializer value
  | flagged condition otherwise =>
      .deferred [.branch condition [.assign (.name x) value] otherwise]

/-- Code that differs at most in a cast of the first value of a variable: to one type on the
left, and to another type or to none on the right. -/
inductive Recast (x type type' : String) : Fragment → Fragment → Prop
  | same (f : Fragment) : Recast x type type' f f
  | added (frame : Frame) (value : Expr) :
      Recast x type type' (frame.fill x (.cast type value)) (frame.fill x value)
  | renamed (frame : Frame) (value : Expr) :
      Recast x type type' (frame.fill x (.cast type value)) (frame.fill x (.cast type' value))

/-- Texts that differ at most in a cast. -/
def DiffersInCast (type type' text text' : String) : Prop :=
  text = text' ∨ ∃ before after, text = before ++ "(" ++ type ++ ") " ++ after ∧
    (text' = before ++ after ∨ text' = before ++ "(" ++ type' ++ ") " ++ after)

theorem Text.join_cons {separator part : String} {parts : List String} (h : parts ≠ []) :
    join separator (part :: parts) = part ++ separator ++ join separator parts := by
  cases parts with
  | nil => exact absurd rfl h
  | cons => rfl

namespace Frame

/-- The lines behind the one with the value. -/
def otherLines (otherwise : List Stmt) : List String :=
  (if otherwise.isEmpty then [] else ["\x7d else \x7b"] ++ Stmt.block 1 otherwise) ++ ["\x7d"]

/-- The text in front of the value. -/
def before (x : String) : Frame → String
  | initializer => " = "
  | flagged condition _ =>
      ";\n" ++ ("if (" ++ condition.text ++ ") \x7b") ++ "\n" ++ ("    " ++ x ++ " = ")

/-- The text behind the value. -/
def after : Frame → String
  | initializer => ";"
  | flagged _ otherwise => ";" ++ "\n" ++ Text.join "\n" (otherLines otherwise)

theorem text_fill (frame : Frame) (x : String) (value : Expr) :
    (frame.fill x value).text = frame.before x ++ value.text ++ frame.after := by
  cases frame with
  | initializer => rfl
  | flagged condition otherwise =>
      have hPad : Stmt.pad 0 = "" ∧ Stmt.pad 1 = "    " := by decide
      have hLines : Stmt.block 0 [.branch condition [.assign (.name x) value] otherwise] =
          ("if (" ++ condition.text ++ ") \x7b") :: ("    " ++ x ++ " = " ++ value.text ++ ";") ::
            otherLines otherwise := by
        simp [Stmt.block, Stmt.lines, hPad, otherLines, Expr.text]
      have hOther : otherLines otherwise ≠ [] := by simp [otherLines]
      rw [fill, Fragment.text, Stmt.text, hLines, Text.join_cons (by simp), Text.join_cons hOther]
      simp only [before, after, String.append_assoc]

end Frame

/-- Code that differs at most in a cast has a text that does. -/
theorem Recast.text {x type type' : String} {f g : Fragment} (h : Recast x type type' f g) :
    DiffersInCast type type' f.text g.text := by
  cases h with
  | same => exact .inl rfl
  | added frame value =>
      refine .inr ⟨frame.before x, value.text ++ frame.after, ?_, .inl ?_⟩
      · rw [Frame.text_fill, Expr.text]
        simp only [String.append_assoc]
      · rw [Frame.text_fill, String.append_assoc]
  | renamed frame value =>
      refine .inr ⟨frame.before x, value.text ++ frame.after, ?_, .inr ?_⟩
      · rw [Frame.text_fill, Expr.text]
        simp only [String.append_assoc]
      · rw [Frame.text_fill, Expr.text]
        simp only [String.append_assoc]

/-- What two emissions come to that differ at most in casts. -/
inductive Emission.Recast (type type' : String) : Emission → Emission → Prop
  | same (e : Emission) : Recast type type' e e
  | plain {code code' : String → Fragment}
      (h : ∀ x, BinderIdl.Recast x type type' (code x) (code' x)) :
      Recast type type' (.plain code) (.plain code')

namespace Scheme

/-- What a scheme creates depends on the declared type by a cast only. -/
theorem recast_create (s : Scheme) (type type' : String) (q : Parcel) :
    (s.create ⟨type, true⟩ q).Recast type type' (s.create ⟨type', false⟩ q) := by
  cases s with
  | object t nature =>
      cases nature with
      | parcelable => exact .plain fun x => .added (.flagged _ _) _
      | interface => exact .plain fun x => .added .initializer _
      | serializable => exact .plain fun x => .renamed .initializer _
  | anyValue | intLike => exact .plain fun x => .renamed .initializer _
  | array element nature => exact .same _
  | list content nature => cases nature <;> exact .same _
  | parcelable | value | boolean | valueArray | valueList | uuid | uuidArray | uuidList |
    untypedList | untypedMap | sparseBooleanArray => exact .same _

theorem recast_createBuffer (s : Scheme) (type type' : String) (q : Parcel) :
    (s.createBuffer ⟨type, true⟩ q).Recast type type' (s.createBuffer ⟨type', false⟩ q) := by
  cases s with
  | object t nature =>
      cases nature with
      | interface => exact .same _
      | parcelable | serializable => exact .plain fun x => .added .initializer _
  | array | list | parcelable | anyValue | intLike | value | boolean | valueArray | valueList |
    uuid | uuidArray | uuidList | untypedList | untypedMap | sparseBooleanArray => exact .same _

/-- Which code two cells have that differ in the declared type: only what declares a
variable can differ. -/
def CellRecast (operation? : Option Operation) (x type type' : String) (f g : Fragment) : Prop :=
  match operation? with
  | some .create | some .createBuffer =>
      BinderIdl.Recast x type type' f g ∧ DiffersInCast type type' f.text g.text
  | some .write | some .update | some .writeBufferInfo | none => f = g

end Scheme

namespace Emission

/-- Two emissions for a variable, with some temporaries in use: both are refused, or they have
code in a relation and the same temporaries are in use behind it. -/
def Related (R : Fragment → Fragment → Prop) (x : String) (n : Nat) (e e' : Emission) : Prop :=
  Option.Rel (fun p p' => R p.1 p'.1 ∧ p.2 = p'.2) (e.emit? x n) (e'.emit? x n)

theorem Related.refl {R : Fragment → Fragment → Prop} (hR : ∀ f, R f f) (x : String) (n : Nat)
    (e : Emission) : e.Related R x n e := by
  rw [Related]
  cases e.emit? x n with
  | none => exact .none
  | some p => exact .some ⟨hR p.1, rfl⟩

theorem Recast.related {type type' : String} {e e' : Emission} (h : e.Recast type type' e')
    (x : String) (n : Nat) :
    e.Related (fun f g => BinderIdl.Recast x type type' f g ∧
      DiffersInCast type type' f.text g.text) x n e' := by
  cases h with
  | same => exact .refl (fun f => ⟨.same f, .inl rfl⟩) x n e
  | plain hCode => exact .some ⟨⟨hCode x, (hCode x).text⟩, rfl⟩

end Emission

namespace Scheme

/-- The declared type has no part in whether a cell is refused, nor in what it counts. -/
theorem related_cell (s : Scheme) (type type' : String) (direction : Direction) (site : Site)
    (phase : Phase) (x : String) (n : Nat) :
    (s.cell ⟨type, true⟩ direction site phase).Related
      (CellRecast (Operation.of? site direction phase) x type type') x n
      (s.cell ⟨type', false⟩ direction site phase) := by
  simp only [cell]
  cases Operation.of? site direction phase with
  | none => exact .refl (fun _ => rfl) x n _
  | some operation =>
      cases operation with
      | create => exact (s.recast_create type type' _).related x n
      | createBuffer => exact (s.recast_createBuffer type type' _).related x n
      | write | update | writeBufferInfo => exact .refl (fun _ => rfl) x n _

end Scheme

namespace Writer

open Encoding

variable {w : Writer} {slot : Slot} {a : Argument} {b : Binding} {d e : Desk}

theorem bind_of_unbound (hNone : d.binding? slot = none)
    (hMake : Binding.make w.number w.context a = .ok b) :
    w.bind slot a d =
      match (if b.category ≠ .array then b.obstacle? else none) with
      | some fault => .error (.lookup fault) d
      | none => .ok b ((d.record b.report).keep slot b) := by
  rw [Writer.bind, get_bind, hNone, hMake]
  by_cases hArray : b.category = .array
  · simp only [hArray, ne_eq, not_true, if_false]
    rfl
  · simp only [ne_eq, hArray, not_false_eq_true, if_true]
    cases b.obstacle? <;> rfl

/-- Behind a binding, encoding may meet an obstacle at the elements of an array. -/
theorem encode_of_bind_ok (site : Site) (phase : Phase) (x : String)
    (hBind : w.bind slot a d = .ok b e) :
    w.encode slot a site phase x d =
      match (if e.isToExamine slot b site phase = true then b.obstacle? else none) with
      | some fault => .error (.lookup fault) e
      | none => b.finish site phase x
          (if e.isToExamine slot b site phase = true then e.examine slot b else e) := by
  refine (congrFun (encode_eq w slot a site phase x) d).trans ((bind_of_ok hBind).trans ?_)
  by_cases hExamine : e.isToExamine slot b site phase = true
  · simp only [hExamine, if_true]
    cases b.obstacle? <;> rfl
  · simp only [hExamine, Bool.false_eq_true, if_false]

end Writer

/-- The same argument, declared with another type. -/
def Argument.declaredAs (a : Argument) (type : String) : Argument := { a with type := type }

/-- Two desks at which the same was done for an argument and for one that differs from it in
its declared type. -/
structure Desk.Parallel (w : Writer) (slot : Slot) (a a' : Argument) (d d' : Desk) : Prop where
  counts : d'.counts = d.counts
  examined : d'.examined.contains slot = d.examined.contains slot
  bindings : d.binding? slot = none ∧ d'.binding? slot = none ∨
    ∃ b b', d.binding? slot = some b ∧ Binding.make w.number w.context a = .ok b ∧
      d'.binding? slot = some b' ∧ Binding.make w.number w.context a' = .ok b'

/-- Two ends of a request, for an argument and for one of another declared type: code that
differs at most in a cast, complaints that differ in the type, or the same obstacle. -/
inductive Parallel (w : Writer) (slot : Slot) (a a' : Argument) (site : Site) (phase : Phase)
    (x : String) : EStateM.Result EncodeFault Desk Fragment →
      EStateM.Result EncodeFault Desk Fragment → Prop
  | code {f g : Fragment} {e e' : Desk} (hDesks : Desk.Parallel w slot a a' e e')
      (hCode : Scheme.CellRecast (Operation.of? site a.direction phase) x a.type a'.type f g) :
      Parallel w slot a a' site phase x (.ok f e) (.ok g e')
  | refused {e e' : Desk} (hDesks : Desk.Parallel w slot a a' e e') :
      Parallel w slot a a' site phase x
        (.error (.at .unsupported
          ("Cannot marshall '" ++ a.direction.word ++ " " ++ a.type ++ "'.")
          w.context.source a.position) e)
        (.error (.at .unsupported
          ("Cannot marshall '" ++ a.direction.word ++ " " ++ a'.type ++ "'.")
          w.context.source a.position) e')
  | obstructed {e e' : Desk} (hDesks : Desk.Parallel w slot a a' e e') (fault : LookupFault) :
      Parallel w slot a a' site phase x (.error (.lookup fault) e) (.error (.lookup fault) e')

namespace Desk.Parallel

variable {w : Writer} {slot : Slot} {a a' : Argument} {d d' : Desk}

/-- Nothing was done yet for an argument that is not bound. -/
theorem of_unbound (h : d.binding? slot = none) : Parallel w slot a a' d d :=
  ⟨rfl, rfl, .inl ⟨h, h⟩⟩

theorem keep {b b' : Binding} (h : Parallel w slot a a' d d')
    (hMake : Binding.make w.number w.context a = .ok b)
    (hMake' : Binding.make w.number w.context a' = .ok b') :
    Parallel w slot a a' ((d.record b.report).keep slot b)
      ((d'.record b'.report).keep slot b') := by
  refine ⟨h.counts, h.examined, .inr ⟨b, b', ?_, hMake, ?_, hMake'⟩⟩
  · simp [Desk.binding?_keep]
  · simp [Desk.binding?_keep]

theorem examine (h : Parallel w slot a a' d d') (b b' : Binding) :
    Parallel w slot a a' (d.examine slot b) (d'.examine slot b') :=
  ⟨h.counts, by simp [Desk.examine], h.bindings⟩

theorem setCount (h : Parallel w slot a a' d d') (owner n : Nat) :
    Parallel w slot a a' (d.setCount owner n) (d'.setCount owner n) :=
  ⟨by simp only [Desk.setCount, h.counts], h.examined, h.bindings⟩

end Desk.Parallel

namespace Writer

variable {w : Writer} {slot : Slot} {a : Argument} {bound : String} {t : TypeName}
  {d d' : Desk}

/-- Arguments of one meaning are bound alike. -/
theorem bind_parallel (hType : TypeName.parse (w.context.meaning a.type) = .ok t)
    (hBound : TypeName.parse (w.context.meaning bound) = .ok t)
    (h : Desk.Parallel w slot a (a.declaredAs bound) d d') :
    (∃ fault, w.bind slot a d = .error (.lookup fault) d ∧
      w.bind slot (a.declaredAs bound) d' = .error (.lookup fault) d') ∨
    ∃ e e', w.bind slot a d = .ok ⟨w.number, w.context, a, t⟩ e ∧
      w.bind slot (a.declaredAs bound) d' =
        .ok ⟨w.number, w.context, a.declaredAs bound, t⟩ e' ∧
      Desk.Parallel w slot a (a.declaredAs bound) e e' := by
  have hMake : Binding.make w.number w.context a = .ok ⟨w.number, w.context, a, t⟩ :=
    Binding.make_eq_ok_iff.mpr ⟨t, hType, rfl⟩
  have hMake' : Binding.make w.number w.context (a.declaredAs bound) =
      .ok ⟨w.number, w.context, a.declaredAs bound, t⟩ :=
    Binding.make_eq_ok_iff.mpr ⟨t, hBound, rfl⟩
  rcases h.bindings with ⟨hNone, hNone'⟩ | ⟨b, b', hSome, hb, hSome', hb'⟩
  · have hBind := bind_of_unbound hNone hMake
    have hBind' := bind_of_unbound hNone' hMake'
    have hObstacle : (⟨w.number, w.context, a.declaredAs bound, t⟩ : Binding).obstacle? =
        (⟨w.number, w.context, a, t⟩ : Binding).obstacle? := rfl
    have hCategory : (⟨w.number, w.context, a.declaredAs bound, t⟩ : Binding).category =
        (⟨w.number, w.context, a, t⟩ : Binding).category := rfl
    rw [hCategory, hObstacle] at hBind'
    split at hBind
    · rename_i fault hFault
      rw [hFault] at hBind'
      exact .inl ⟨fault, hBind, hBind'⟩
    · rename_i hFault
      rw [hFault] at hBind'
      exact .inr ⟨_, _, hBind, hBind', h.keep hMake hMake'⟩
  · cases hb.symm.trans hMake
    cases hb'.symm.trans hMake'
    exact .inr ⟨d, d', bind_of_bound hSome, bind_of_bound hSome', h⟩

/-- Bindings of one type, one of them declared with a type parameter, have the same code up
to a cast. -/
theorem finish_parallel {e e' : Desk} (site : Site) (phase : Phase) (x : String)
    (hParameter : (w.context.parameter? a.type).isSome = true)
    (hOther : w.context.parameter? bound = none)
    (h : Desk.Parallel w slot a (a.declaredAs bound) e e') :
    Parallel w slot a (a.declaredAs bound) site phase x
      ((⟨w.number, w.context, a, t⟩ : Binding).finish site phase x e)
      ((⟨w.number, w.context, a.declaredAs bound, t⟩ : Binding).finish site phase x e') := by
  generalize hb : (⟨w.number, w.context, a, t⟩ : Binding) = b
  generalize hb' : (⟨w.number, w.context, a.declaredAs bound, t⟩ : Binding) = b'
  have hDeclared : b.declared = ⟨a.type, true⟩ := by
    rw [← hb, Binding.declared, hParameter]
  have hDeclared' : b'.declared = ⟨bound, false⟩ := by
    simp [← hb', Binding.declared, Argument.declaredAs, hOther]
  have hScheme : b'.scheme = b.scheme := by rw [← hb, ← hb']; rfl
  have hDirection : b.argument.direction = a.direction ∧ b'.argument.direction = a.direction := by
    rw [← hb, ← hb']
    exact ⟨rfl, rfl⟩
  have hOwner : b.owner = w.number ∧ b'.owner = w.number := by
    rw [← hb, ← hb']
    exact ⟨rfl, rfl⟩
  have hCells := b.scheme.related_cell a.type bound a.direction site phase x (e.counts w.number)
  rw [Binding.finish, Binding.finish, Binding.code, Binding.code, hDeclared, hDeclared', hScheme,
    hDirection.1, hDirection.2, hOwner.1, hOwner.2, h.counts]
  rw [Emission.Related] at hCells
  generalize (b.scheme.cell ⟨a.type, true⟩ a.direction site phase).emit? x _ = code at hCells ⊢
  generalize (b.scheme.cell ⟨bound, false⟩ a.direction site phase).emit? x _ = code' at hCells ⊢
  cases hCells with
  | none =>
      rw [← hb, ← hb']
      exact .refused h
  | @some p p' hAnswers =>
      obtain ⟨f, n⟩ := p
      obtain ⟨g, n'⟩ := p'
      obtain ⟨hCode, rfl⟩ : _ ∧ n = n' := hAnswers
      exact .code (h.setCount _ _) hCode

/-- Requests for arguments of one meaning, one of them declared with a type parameter, end
alike. -/
theorem encode_parallel (site : Site) (phase : Phase) (x : String)
    (hType : TypeName.parse (w.context.meaning a.type) = .ok t)
    (hBound : TypeName.parse (w.context.meaning bound) = .ok t)
    (hParameter : (w.context.parameter? a.type).isSome = true)
    (hOther : w.context.parameter? bound = none)
    (h : Desk.Parallel w slot a (a.declaredAs bound) d d') :
    Parallel w slot a (a.declaredAs bound) site phase x (w.encode slot a site phase x d)
      (w.encode slot (a.declaredAs bound) site phase x d') := by
  rcases bind_parallel hType hBound h with ⟨fault, hBind, hBind'⟩ | ⟨e, e', hBind, hBind', he⟩
  · rw [encode, Encoding.bind_of_error hBind, encode, Encoding.bind_of_error hBind']
    exact .obstructed h fault
  · have hObstacle : (⟨w.number, w.context, a.declaredAs bound, t⟩ : Binding).obstacle? =
        (⟨w.number, w.context, a, t⟩ : Binding).obstacle? := rfl
    have hExamine : e'.isToExamine slot ⟨w.number, w.context, a.declaredAs bound, t⟩ site phase =
        e.isToExamine slot ⟨w.number, w.context, a, t⟩ site phase := by
      rw [Desk.isToExamine, Desk.isToExamine, he.examined]
      rfl
    rw [encode_of_bind_ok site phase x hBind, encode_of_bind_ok site phase x hBind', hExamine,
      hObstacle]
    split
    · exact .obstructed he _
    · apply finish_parallel site phase x hParameter hOther
      split
      · exact he.examine _ _
      · exact he

end Writer

theorem Context.meaning_of_parameter {c : Context} {type bound : String} {p : TypeParameter}
    (hParameter : c.parameter? type = some p)
    (hBound : p.upperBound.getD "java.lang.Object" = bound) (hNonempty : bound ≠ "") :
    c.meaning type = bound := by
  rw [meaning, hParameter]
  cases hUpper : p.upperBound with
  | none => simpa [hUpper] using hBound
  | some b =>
      rw [hUpper, Option.getD_some] at hBound
      simp [hUpper, hBound, hNonempty]

/-- An argument whose type is a type parameter travels as one whose type is its first bound,
in every cell. The desks at which the two are encoded stay parallel, so this holds of any
number of cells one after another. -/
theorem parameter_travels_as_bound (w : Writer) (a : Argument) (p : TypeParameter) (bound : String)
    (hParameter : w.context.parameter? a.type = some p)
    (hBound : p.upperBound.getD "java.lang.Object" = bound)
    (hParsed : ∃ t, TypeName.parse bound = .ok t) (hOther : w.context.parameter? bound = none)
    (slot : Slot) (d d' : Desk) (hDesks : Desk.Parallel w slot a (a.declaredAs bound) d d')
    (site : Site) (phase : Phase) (x : String) :
    Parallel w slot a (a.declaredAs bound) site phase x (w.encode slot a site phase x d)
      (w.encode slot (a.declaredAs bound) site phase x d') := by
  obtain ⟨t, hParse⟩ := hParsed
  have hNonempty : bound ≠ "" := by
    rintro rfl
    have hFault : (TypeName.parse "").isOk = false := by decide +kernel
    rw [hParse] at hFault
    cases hFault
  have hType : w.context.meaning a.type = bound :=
    Context.meaning_of_parameter hParameter hBound hNonempty
  have hSelf : w.context.meaning bound = bound := by rw [Context.meaning, hOther]
  exact Writer.encode_parallel site phase x (hType ▸ hParse) (hSelf.symm ▸ hParse)
    (by rw [hParameter]; rfl) hOther hDesks

/-- An interface whose parameter stands for a parcelable class. -/
private def crates : Context :=
  { package := "demo", typeParameters := [⟨"T", ["demo.Crate"]⟩], known := ["demo.Crate"] }

private def crate : Argument := ⟨.into, "T", "crate", some 4⟩

theorem parameter_travels_as_bound_crate :
    crates.parameter? "T" = some ⟨"T", ["demo.Crate"]⟩ ∧
    crates.parameter? "demo.Crate" = none ∧
    Parallel ⟨0, crates⟩ ⟨0, some 0⟩ crate (crate.declaredAs "demo.Crate") .dispatcher .pre "_arg0"
      (Writer.encode ⟨0, crates⟩ ⟨0, some 0⟩ crate .dispatcher .pre "_arg0" {})
      (Writer.encode ⟨0, crates⟩ ⟨0, some 0⟩ (crate.declaredAs "demo.Crate") .dispatcher .pre
        "_arg0" {}) := by
  have hParameter : crates.parameter? "T" = some ⟨"T", ["demo.Crate"]⟩ := by decide +kernel
  have hOther : crates.parameter? "demo.Crate" = none := by decide +kernel
  have hParsed : TypeName.parse "demo.Crate" = .ok (.mk "demo.Crate" [] 0 none) := by
    decide +kernel
  exact ⟨hParameter, hOther, parameter_travels_as_bound ⟨0, crates⟩ crate _ "demo.Crate"
    hParameter rfl ⟨_, hParsed⟩ hOther _ _ _ (.of_unbound rfl) .dispatcher .pre "_arg0"⟩

end BinderIdl
