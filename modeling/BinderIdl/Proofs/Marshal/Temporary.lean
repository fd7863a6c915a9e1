import BinderIdl.Stub.Code

/-! Names of temporaries tell their role and their number: without the digits at
its end a name shows the role, and the digits are the number. So temporaries of
different roles or numbers never share a name, as long as no role ends in a digit
itself, and none has a name that generated code uses for something else. -/
namespace BinderIdl

/-- A name without the digits at its end. -/
def nameStem (name : String) : List Char :=
  (name.toList.reverse.dropWhile Char.isDigit).reverse

/-- The number that the digits at the end of a name stand for. -/
def nameNumber (name : String) : Nat :=
  Nat.ofDigitChars 10 (name.toList.reverse.takeWhile Char.isDigit).reverse 0

/-- Digits at the end do not change what is before them. -/
theorem nameStem_append_digits (name digits : String) (h : ∀ c ∈ digits.toList, c.isDigit = true) :
    nameStem (name ++ digits) = nameStem name := by
  rw [nameStem, String.toList_append, List.reverse_append,
    List.dropWhile_append_of_pos fun c hc => h c (List.mem_reverse.mp hc), nameStem]

/-- A name that does not end in a digit is its own stem. -/
theorem nameStem_of_no_digit (name : String) (h : name.toList.getLast?.any Char.isDigit = false) :
    nameStem name = name.toList := by
  rw [nameStem]
  cases hr : name.toList.reverse with
  | nil => simpa using hr.symm
  | cons c cs =>
      have hc : c.isDigit = false := by
        rwa [← List.head?_reverse, hr] at h
      rw [List.dropWhile_cons, hc, if_neg (by decide), ← hr, List.reverse_reverse]

/-- Whether a text ends in an ASCII digit. -/
def endsInDigit (text : String) : Bool := text.toList.getLast?.any Char.isDigit

/-- The low line in front of a role is never mistaken for its end. -/
theorem endsInDigit_low_line (role : String) : endsInDigit ("_" ++ role) = endsInDigit role := by
  rw [endsInDigit, String.toList_append, List.getLast?_append, endsInDigit]
  cases role.toList.getLast? <;> rfl

/-- The digits of a number are digits. -/
theorem isDigit_of_mem_toString {n : Nat} {c : Char} (h : c ∈ (toString n).toList) :
    c.isDigit = true := by
  rw [Nat.toString_eq_repr, Nat.toList_repr] at h
  exact Nat.isDigit_of_mem_toDigits (by decide) (by decide) h

/-- The digits behind a name that does not end in one are its number. -/
theorem nameNumber_append_digits (name digits : String) (hName : endsInDigit name = false)
    (h : ∀ c ∈ digits.toList, c.isDigit = true) :
    nameNumber (name ++ digits) = Nat.ofDigitChars 10 digits.toList 0 := by
  have hStop : name.toList.reverse.takeWhile Char.isDigit = [] := by
    rw [endsInDigit, ← List.head?_reverse] at hName
    cases hr : name.toList.reverse with
    | nil => rfl
    | cons c cs =>
        rw [hr] at hName
        exact List.takeWhile_cons_of_neg (by simpa using hName)
  rw [nameNumber, String.toList_append, List.reverse_append, List.takeWhile_append_of_pos
    fun c hc => h c (List.mem_reverse.mp hc), hStop, List.append_nil, List.reverse_reverse]

theorem nameNumber_append_toString (name : String) (n : Nat) (h : endsInDigit name = false) :
    nameNumber (name ++ toString n) = n := by
  rw [nameNumber_append_digits _ _ h fun c hc => isDigit_of_mem_toString hc, Nat.toString_eq_repr,
    Nat.toList_repr, Nat.ofDigitChars_toDigits (by decide) (by decide)]

/-- The dispatcher's variables all have one stem. -/
theorem nameStem_argumentLocal (i : Nat) : nameStem (argumentLocal i) = "_arg".toList := by
  rw [argumentLocal, nameStem_append_digits _ _ fun c hc => isDigit_of_mem_toString hc]
  decide

namespace Role

/-- The role with a word. -/
def ofWord? (word : String) : Option Role :=
  [array, binder, binders, bits, curSize, hasNull, i, interface, item, j, key, length, lsb, msb,
    nullLsb, nullMsb, nullUuid, size, uuid, value].find? fun r => r.word == word

theorem ofWord?_word (r : Role) : ofWord? r.word = some r := by
  cases r <;> decide

theorem word_inj {r r' : Role} (h : r.word = r'.word) : r = r' := by
  have hRole := congrArg ofWord? h
  rw [ofWord?_word, ofWord?_word] at hRole
  exact Option.some.inj hRole

theorem endsInDigit_word (r : Role) : endsInDigit r.word = false := by
  cases r <;> decide

end Role

namespace Temporaries

/-- The number in a name, as it is written. -/
theorem named_after (count : Nat) (role : String) :
    (after count).named role =
      "_" ++ role ++ if count = 0 then "" else toString (count + 1) := by
  have hIndex : (after count).index = ((count + 1 : Nat) : Int) := rfl
  rw [named, hIndex]
  by_cases h : count = 0
  · rw [if_pos (by omega), if_pos h]
  · rw [if_neg (by omega), if_neg h, Int.toString_eq_repr, Int.repr_eq_if, if_pos (by omega),
      Int.toNat_natCast, Nat.toString_eq_repr]

/-- The stem of a temporary's name shows its role. -/
theorem nameStem_named {role : String} (count : Nat) (h : endsInDigit role = false) :
    nameStem ((after count).named role) = ("_" ++ role).toList := by
  rw [named_after, nameStem_append_digits,
    nameStem_of_no_digit _ ((endsInDigit_low_line role).trans h)]
  intro c hc
  split at hc
  · simp at hc
  · exact isDigit_of_mem_toString hc

/-- The number of a temporary's name. The first temporaries have none. -/
theorem nameNumber_named {role : String} (count : Nat) (h : endsInDigit role = false) :
    nameNumber ((after count).named role) = if count = 0 then 0 else count + 1 := by
  have hName := (endsInDigit_low_line role).trans h
  rw [named_after]
  split
  · exact nameNumber_append_digits _ _ hName (by simp)
  · exact nameNumber_append_toString _ _ hName

/-- Names of roles that do not end in a digit tell the role and the number. -/
theorem named_inj {m n : Nat} {r s : String} (hr : endsInDigit r = false)
    (hs : endsInDigit s = false) : (after m).named r = (after n).named s ↔ m = n ∧ r = s := by
  constructor
  · intro h
    have hStem := congrArg nameStem h
    rw [nameStem_named m hr, nameStem_named n hs, String.toList_inj,
      String.append_right_inj] at hStem
    have hNumber := congrArg nameNumber h
    rw [nameNumber_named m hr, nameNumber_named n hs] at hNumber
    exact ⟨by split at hNumber <;> split at hNumber <;> omega, hStem⟩
  · rintro ⟨rfl, rfl⟩
    rfl

theorem nameStem_name (count : Nat) (r : Role) :
    nameStem ((after count).name r) = ("_" ++ r.word).toList :=
  nameStem_named count r.endsInDigit_word

/-- A name whose stem is no role is no temporary. -/
theorem name_ne_of_stem {x : String} (count : Nat) (r : Role)
    (h : ∀ r : Role, nameStem x ≠ ("_" ++ r.word).toList) : (after count).name r ≠ x := by
  intro he
  exact h r (by rw [← he, nameStem_name])

/-- Temporaries share a name only if they have one role and one number. -/
theorem name_inj {m n : Nat} {r r' : Role} :
    (after m).name r = (after n).name r' ↔ m = n ∧ r = r' := by
  have hWords : r.word = r'.word ↔ r = r' := ⟨Role.word_inj, congrArg Role.word⟩
  rw [name, name, named_inj r.endsInDigit_word r'.endsInDigit_word, hWords]

@[simp] theorem name_role_inj {n : Nat} {r r' : Role} :
    (after n).name r = (after n).name r' ↔ r = r' := by
  simp [name_inj]

@[simp] theorem name_ne_parcel (n : Nat) (r : Role) (q : Parcel) : (after n).name r ≠ q.name :=
  name_ne_of_stem n r (by cases q <;> intro r <;> cases r <;> decide)

@[simp] theorem parcel_ne_name (n : Nat) (r : Role) (q : Parcel) : q.name ≠ (after n).name r :=
  (name_ne_parcel n r q).symm

theorem name_ne_argumentLocal (n i : Nat) (r : Role) : (after n).name r ≠ argumentLocal i :=
  name_ne_of_stem n r (by rw [nameStem_argumentLocal]; intro r; cases r <;> decide)

theorem name_ne_resultName (n : Nat) (r : Role) : (after n).name r ≠ Argument.resultName :=
  name_ne_of_stem n r (by intro r; cases r <;> decide)

theorem name_ne_task (n : Nat) (r : Role) : (after n).name r ≠ "_task" :=
  name_ne_of_stem n r (by intro r; cases r <;> decide)

/-- No temporary has the name of a class of another package. -/
theorem dot_not_mem_name (n : Nat) (r : Role) : '.' ∉ ((after n).name r).toList := by
  rw [name, named_after, String.toList_append, List.mem_append, not_or]
  constructor
  · cases r <;> decide
  · intro h
    split at h
    · simp at h
    · exact absurd (isDigit_of_mem_toString h) (by decide)

/-- A number from one on is that of a next piece of code. -/
theorem exists_after {i : Int} (h : 1 ≤ i) : ∃ count, (⟨i⟩ : Temporaries) = after count := by
  obtain ⟨count, hCount⟩ := Int.le.dest h
  refine ⟨count, congrArg mk ?_⟩
  rw [← hCount, Int.add_comm]

/-- The temporaries of several pieces of code, one after the other. -/
def allocations : Nat → Nat → List Temporaries
  | _, 0 => []
  | count, n + 1 =>
      let (t, count) := allocate count
      t :: allocations count n

/-- The pieces have the numbers behind the count in order. -/
theorem allocations_eq_map (count n : Nat) :
    allocations count n = (List.range' count n).map after := by
  induction n generalizing count with
  | zero => rfl
  | succ n ih =>
      rw [List.range'_succ, List.map_cons, ← ih]
      rfl

/-- The name of a temporary tells its number and its role, if the role does not end in a digit.
So different pieces of code that took their temporaries from one count, which was not set back
in between, share no name. -/
theorem named_injective :
    (∀ (i j : Int) (r s : String), 1 ≤ i → 1 ≤ j → endsInDigit r = false → endsInDigit s = false →
      (⟨i⟩ : Temporaries).named r = (⟨j⟩ : Temporaries).named s → i = j ∧ r = s) ∧
    ∀ count n : Nat, (allocations count n).Pairwise fun t t' => ∀ r s : String,
      endsInDigit r = false → endsInDigit s = false → t.named r ≠ t'.named s := by
  constructor
  · intro i j r s hi hj hr hs hNames
    obtain ⟨m, hm⟩ := exists_after hi
    obtain ⟨n, hn⟩ := exists_after hj
    rw [hm, hn, named_inj hr hs] at hNames
    obtain ⟨rfl, hRoles⟩ := hNames
    exact ⟨congrArg index (hm.trans hn.symm), hRoles⟩
  · intro count n
    rw [allocations_eq_map, List.pairwise_map]
    refine (List.pairwise_lt_range' 1).imp fun {k l} hLess r s hr hs hNames => ?_
    exact absurd ((named_inj hr hs).mp hNames).1 (Nat.ne_of_lt hLess)

/-- The number one is not written, and the digits of ten and eleven start with it. -/
theorem named_injective_size :
    (⟨1⟩ : Temporaries).named "size" ≠ (⟨11⟩ : Temporaries).named "size" ∧
      allocations 9 2 = [⟨10⟩, ⟨11⟩] ∧
      (⟨10⟩ : Temporaries).named "size" ≠ (⟨11⟩ : Temporaries).named "i" := by
  have hTaken : allocations 9 2 = [⟨10⟩, ⟨11⟩] := by decide
  refine ⟨fun hNames => ?_, hTaken, ?_⟩
  · have hNumbers := named_injective.1 1 11 "size" "size" (by decide) (by decide) (by decide)
      (by decide) hNames
    exact absurd hNumbers.1 (by decide)
  · have hNames := named_injective.2 9 2
    rw [hTaken, List.pairwise_pair] at hNames
    exact hNames "size" "i" (by decide) (by decide)

-- A digit at the end of a role could be the first one of a number.
example : (⟨2⟩ : Temporaries).named "a1" = (⟨12⟩ : Temporaries).named "a" := by decide

end Temporaries

end BinderIdl
