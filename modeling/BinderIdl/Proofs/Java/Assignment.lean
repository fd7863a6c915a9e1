import BinderIdl.Java.Stmt
import Mathlib.Computability.RegularExpressions

/-! Definite assignment. Running a piece of code comes to a sequence of accesses to a
variable, and the sequences of all runs are a regular language: blocks are products, branches
are sums and loops are stars. The rule by which a final variable may be used is decided along
the expression of that language, and code that keeps the rule assigns the variable once, in
front of everything else, on every path. -/
namespace BinderIdl.Java

/-- What code does with a variable. -/
inductive Access where
  | read
  | assign
  deriving DecidableEq, Repr

/-- A variable is assigned only as long as it has no value, and read only once it has one. -/
def Access.step? : Access → Bool → Option Bool
  | assign, false => some true
  | read, true => some true
  | assign, true | read, false => none

/-- Whether a variable has a value at the end of a path, if the path may be taken. -/
def follow? : Bool → List Access → Option Bool
  | hasValue, [] => some hasValue
  | hasValue, a :: path => (a.step? hasValue).bind (follow? · path)

theorem follow?_append (hasValue : Bool) (path path' : List Access) :
    follow? hasValue (path ++ path') = (follow? hasValue path).bind (follow? · path') := by
  induction path generalizing hasValue with
  | nil => rfl
  | cons a path ih =>
      cases hStep : a.step? hasValue with
      | none => simp [follow?, hStep]
      | some after => simp [follow?, hStep, ih]

/-- Behind its assignment a variable is only read. -/
theorem eq_replicate_of_follow? {path : List Access} {hasValue : Bool}
    (h : follow? true path = some hasValue) : path = List.replicate path.length .read := by
  induction path with
  | nil => rfl
  | cons a path ih =>
      cases a with
      | assign => cases h
      | read =>
          rw [List.length_cons, List.replicate_succ, ← ih h]

/-- A path that gives a variable its value assigns it before all else. -/
theorem exists_of_follow? {path : List Access} (h : follow? false path = some true) :
    ∃ n, path = .assign :: List.replicate n .read := by
  cases path with
  | nil => cases h
  | cons a path =>
      cases a with
      | read => cases h
      | assign => exact ⟨path.length, congrArg _ (eq_replicate_of_follow? h)⟩

/-- What is known of a variable at a place in the code. -/
inductive Status where
  | unassigned
  | assigned
  /-- Some paths to the place assign the variable and some do not. -/
  | unsettled
  deriving DecidableEq, Repr

namespace Status

/-- The status allows a variable to have a value or not. -/
def Allows : Status → Bool → Prop
  | unassigned, hasValue => hasValue = false
  | assigned, hasValue => hasValue = true
  | unsettled, _ => True

/-- What is known where two paths meet. -/
def meet (s s' : Status) : Status := if s = s' then s else unsettled

/-- What is known behind an access. -/
def after? : Status → Access → Option Status
  | unassigned, .assign => some assigned
  | assigned, .read => some assigned
  | _, _ => none

@[simp] theorem meet_self (s : Status) : s.meet s = s := if_pos rfl

@[simp] theorem after?_assign : unassigned.after? .assign = some assigned := rfl

@[simp] theorem after?_read : assigned.after? .read = some assigned := rfl

@[simp] theorem after?_read_unassigned : unassigned.after? .read = none := rfl

theorem Allows.meet_left {s : Status} {hasValue : Bool} (h : s.Allows hasValue) (s' : Status) :
    (s.meet s').Allows hasValue := by
  rw [meet]
  split
  · exact h
  · trivial

theorem Allows.meet_right {s' : Status} {hasValue : Bool} (h : s'.Allows hasValue) (s : Status) :
    (s.meet s').Allows hasValue := by
  rw [meet]
  split
  · rename_i hEq
    exact hEq ▸ h
  · trivial

theorem Allows.step? {s s' : Status} {a : Access} {hasValue : Bool} (h : s.Allows hasValue)
    (hAfter : s.after? a = some s') : ∃ hasValue', a.step? hasValue = some hasValue' ∧
      s'.Allows hasValue' := by
  cases s with
  | unsettled => cases hAfter
  | unassigned =>
      cases a with
      | read => cases hAfter
      | assign =>
          cases hAfter
          rw [show hasValue = false from h]
          exact ⟨true, rfl, rfl⟩
  | assigned =>
      cases a with
      | assign => cases hAfter
      | read =>
          cases hAfter
          rw [show hasValue = true from h]
          exact ⟨true, rfl, rfl⟩

end Status

/-- The paths through a piece of code, as accesses to a variable. -/
abbrev Paths := RegularExpression Access

namespace Paths

/-- What is known behind a piece of code, if the code keeps the rule for final variables. No
pass of a loop may change what is known. -/
def flow? : Paths → Status → Option Status
  | .zero, _ => none
  | .epsilon, s => some s
  | .char a, s => s.after? a
  | .plus P Q, s => (flow? P s).bind fun s' => (flow? Q s).map s'.meet
  | .comp P Q, s => (flow? P s).bind (flow? Q)
  | .star P, s => if flow? P s = some s then some s else none

@[simp] theorem flow?_one (s : Status) : flow? 1 s = some s := rfl

@[simp] theorem flow?_char (a : Access) (s : Status) : flow? (.char a) s = s.after? a := rfl

@[simp] theorem flow?_add (P Q : Paths) (s : Status) :
    flow? (P + Q) s = (flow? P s).bind fun s' => (flow? Q s).map s'.meet := rfl

@[simp] theorem flow?_mul (P Q : Paths) (s : Status) :
    flow? (P * Q) s = (flow? P s).bind fun s' => flow? Q s' := rfl

@[simp] theorem flow?_star (P : Paths) (s : Status) :
    flow? P.star s = if flow? P s = some s then some s else none := rfl

/-- Code that keeps the rule has no path that breaks it. -/
theorem exists_follow? {P : Paths} {s s' : Status} {hasValue : Bool} {path : List Access}
    (h : flow? P s = some s') (hStart : s.Allows hasValue) (hPath : path ∈ P.matches') :
    ∃ hasValue', follow? hasValue path = some hasValue' ∧ s'.Allows hasValue' := by
  induction P generalizing s s' hasValue path with
  | zero => cases h
  | epsilon =>
      cases h
      rw [show path = [] from hPath]
      exact ⟨hasValue, rfl, hStart⟩
  | char a =>
      obtain ⟨hasValue', hStep, hEnd⟩ := hStart.step? h
      rw [show path = [a] from hPath, follow?, hStep]
      exact ⟨hasValue', rfl, hEnd⟩
  | plus P Q ihP ihQ =>
      obtain ⟨s₁, hP, hRest⟩ := Option.bind_eq_some_iff.mp h
      obtain ⟨s₂, hQ, rfl⟩ := Option.map_eq_some_iff.mp hRest
      rcases (Language.mem_add _ _ _).mp hPath with hLeft | hRight
      · obtain ⟨hasValue', hFollow, hEnd⟩ := ihP hP hStart hLeft
        exact ⟨hasValue', hFollow, hEnd.meet_left s₂⟩
      · obtain ⟨hasValue', hFollow, hEnd⟩ := ihQ hQ hStart hRight
        exact ⟨hasValue', hFollow, hEnd.meet_right s₁⟩
  | comp P Q ihP ihQ =>
      obtain ⟨s₁, hP, hQ⟩ := Option.bind_eq_some_iff.mp h
      obtain ⟨first, hFirst, second, hSecond, rfl⟩ := Language.mem_mul.mp hPath
      obtain ⟨middle, hFollow, hMiddle⟩ := ihP hP hStart hFirst
      obtain ⟨hasValue', hFollow', hEnd⟩ := ihQ hQ hMiddle hSecond
      refine ⟨hasValue', ?_, hEnd⟩
      rw [follow?_append, hFollow, Option.bind_some, hFollow']
  | star P ih =>
      rw [flow?] at h
      split at h
      · rename_i hPass
        cases h
        obtain ⟨passes, rfl, hPasses⟩ := Language.mem_kstar.mp hPath
        clear hPath
        -- Each pass of the loop starts and ends with what is known in front of it.
        induction passes generalizing hasValue with
        | nil => exact ⟨hasValue, rfl, hStart⟩
        | cons pass passes ihPasses =>
            rw [List.forall_mem_cons] at hPasses
            obtain ⟨middle, hFollow, hMiddle⟩ := ih hPass hStart hPasses.1
            obtain ⟨hasValue', hFollow', hEnd⟩ := ihPasses hMiddle hPasses.2
            refine ⟨hasValue', ?_, hEnd⟩
            rw [List.flatten_cons, follow?_append, hFollow, Option.bind_some, hFollow']
      · cases h

end Paths

/-- A variable as code refers to it: the name by which it is assigned, and the names, as they
are written, that read it. -/
structure Variable where
  name : String
  reads : String → Bool
  reads_name : reads name = true

namespace Variable

/-- A variable that is read by its name alone. -/
def whole (x : String) : Variable := ⟨x, (· == x), by simp⟩

/-- A variable that is also read by its name in front of a dot, as a variable in scope hides
the classes and packages of its name. -/
def leading (x : String) : Variable :=
  ⟨x, fun y => y == x || (x ++ ".").toList.isPrefixOf y.toList, by simp⟩

/-- The access of a name that is evaluated. -/
def reading (v : Variable) (y : String) : Paths := if v.reads y then .char .read else 1

/-- The access of a name that is declared or assigned. -/
def assigning (v : Variable) (y : String) : Paths :=
  if y = v.name then .char .assign else v.reading y

variable {v : Variable} {y : String}

theorem ne_name (h : v.reads y = false) : y ≠ v.name := by
  rintro rfl
  rw [v.reads_name] at h
  cases h

@[simp] theorem reading_of_other (h : v.reads y = false) : v.reading y = 1 := by
  rw [reading, h]
  rfl

@[simp] theorem reading_name : v.reading v.name = .char .read := by
  rw [reading, v.reads_name]
  rfl

/-- Once a variable has its value, every name may be evaluated. -/
@[simp] theorem flow?_reading (v : Variable) (y : String) :
    (v.reading y).flow? .assigned = some .assigned := by
  rw [reading]
  split <;> rfl

@[simp] theorem assigning_of_other (h : v.reads y = false) : v.assigning y = 1 := by
  rw [assigning, if_neg (ne_name h), reading_of_other h]

@[simp] theorem assigning_name : v.assigning v.name = .char .assign := if_pos rfl

end Variable

namespace Expr

/-- The access by which an expression is given a value. -/
def written (v : Variable) : Expr → Paths
  | name y => v.assigning y
  | _ => 1

mutual

/-- The paths through an expression. The right side of a conjunction may be left out. -/
def accesses (v : Variable) : Expr → Paths
  | null | int _ => 1
  | name y => v.reading y
  | field e _ | cast _ e | newArray _ e | paren e => e.accesses v
  | preIncrement e | postIncrement e => e.accesses v * e.written v
  | binary operator e e' =>
      e.accesses v * if operator = .and then 1 + e'.accesses v else e'.accesses v
  | index e e' => e.accesses v * e'.accesses v
  | conditional e yes no => e.accesses v * (yes.accesses v + no.accesses v)
  | call target _ arguments => target.accesses v * accessesIn v arguments
  | callSelf _ arguments | new _ arguments => accessesIn v arguments

/-- The paths through expressions, one after another. -/
def accessesIn (v : Variable) : List Expr → Paths
  | [] => 1
  | e :: es => e.accesses v * accessesIn v es

end

/-- The paths through what is evaluated to find the place for a value. -/
def located (v : Variable) : Expr → Paths
  | name _ => 1
  | e => e.accesses v

end Expr

namespace Stmt

mutual

/-- The paths through a statement. To declare a variable again counts as an assignment. -/
def accesses (v : Variable) : Stmt → Paths
  | declare _ _ name none => v.assigning name
  | declare _ _ name (some value) => value.accesses v * v.assigning name
  | assign target value => target.located v * value.accesses v * target.written v
  | run e => e.accesses v
  | branch condition yes no => condition.accesses v * (accessesIn v yes + accessesIn v no)
  | count start condition step body =>
      (start.map fun p => p.2.accesses v * v.assigning p.1).prod * condition.accesses v *
        .star (accessesIn v body * step.accesses v * condition.accesses v)
  | each _ _ name elements body =>
      elements.accesses v * .star (v.assigning name * accessesIn v body)
  | loop body condition =>
      accessesIn v body * condition.accesses v *
        .star (accessesIn v body * condition.accesses v)
  | inset body => accessesIn v body

/-- The paths through a block. -/
def accessesIn (v : Variable) : List Stmt → Paths
  | [] => 1
  | s :: ss => s.accesses v * accessesIn v ss

end

end Stmt

namespace Fragment

/-- The paths through the code of a declaration, of which a first value is a part. -/
def accesses (v : Variable) : Fragment → Paths
  | nothing => 1
  | initializer value => value.accesses v * .char .assign
  | deferred body | statements body => Stmt.accessesIn v body

/-- Behind the declaration of a final variable without a value, the code keeps the rule for
such variables and gives it one: each path assigns it once and does not read it before. -/
structure Definite (v : Variable) (f : Fragment) : Prop where
  rule : (f.accesses v).flow? .unassigned = some .assigned
  path : ∀ path ∈ (f.accesses v).matches', ∃ n, path = .assign :: List.replicate n .read

theorem definite_iff {v : Variable} {f : Fragment} :
    f.Definite v ↔ (f.accesses v).flow? .unassigned = some .assigned := by
  refine ⟨Definite.rule, fun h => ⟨h, fun path hPath => ?_⟩⟩
  have hStart : Status.unassigned.Allows false := rfl
  obtain ⟨hasValue, hFollow, hEnd⟩ := Paths.exists_follow? h hStart hPath
  rw [show hasValue = true from hEnd] at hFollow
  exact exists_of_follow? hFollow

end Fragment

attribute [simp] Expr.written Expr.accesses Expr.accessesIn Expr.located Stmt.accesses
  Stmt.accessesIn Fragment.accesses

end BinderIdl.Java
