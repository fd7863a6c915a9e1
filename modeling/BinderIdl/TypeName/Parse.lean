import BinderIdl.Brackets
import BinderIdl.Text.Blank
import BinderIdl.TypeName

/-! Reading type names. Blanks do not matter between the parts of a name, so
one type has many spellings and one tree. -/
namespace BinderIdl

/-- Why a text is not a type name. Each fault keeps the faulty part as written. -/
inductive TypeFault where
  | array (text : String)
  | wildcard (text : String)
  | arguments (text : String)
  | name (text : String)
  deriving DecidableEq, Repr

/-- The words for a fault in a type name. -/
def TypeFault.message : TypeFault → String
  | .array text => "Malformed array type '" ++ text ++ "'"
  | .wildcard text => "Malformed wildcard '" ++ text ++ "'"
  | .arguments text => "Malformed generic type '" ++ text ++ "'"
  | .name text => "Malformed type name '" ++ text ++ "'"

namespace TypeName

/-- Take the array suffixes off the end of a text, given in reverse. The text is
faulty when a closing bracket has no opening one. -/
def cutSuffixes (depth : Nat) : List Char → Option (Nat × List Char)
  | ']' :: cs =>
      match h : cs.dropWhile Text.isBlank with
      | '[' :: rest => cutSuffixes (depth + 1) (rest.dropWhile Text.isBlank)
      | _ => none
  | cs => some (depth, cs)
termination_by cs => cs.length
decreasing_by
  have h1 := (List.dropWhile_sublist Text.isBlank (l := cs)).length_le
  have h2 := (List.dropWhile_sublist Text.isBlank (l := rest)).length_le
  rw [h] at h1
  simp only [List.length_cons] at h1 ⊢
  omega

theorem length_cutSuffixes {depth n : Nat} {cs rest : List Char}
    (h : cutSuffixes depth cs = some (n, rest)) : rest.length ≤ cs.length := by
  fun_induction cutSuffixes depth cs with
  | case1 depth cs inner hi ih =>
      have h0 := ih h
      have h1 := (List.dropWhile_sublist Text.isBlank (l := cs)).length_le
      have h2 := (List.dropWhile_sublist Text.isBlank (l := inner)).length_le
      rw [hi] at h1
      simp only [List.length_cons] at h1 ⊢
      omega
  | case2 => cases h
  | case3 depth cs hne =>
      simp only [Option.some.injEq, Prod.mk.injEq] at h
      exact h.2 ▸ Nat.le_refl _

/-- Two dots in a row, somewhere in a text. -/
def hasEmptyPart : List Char → Bool
  | '.' :: '.' :: _ => true
  | _ :: cs => hasEmptyPart cs
  | [] => false

/-- A base: not empty, and with a name before, between and behind its dots. -/
def isBase (cs : List Char) : Bool :=
  !cs.isEmpty && cs.head? != some '.' && cs.getLast? != some '.' && !hasEmptyPart cs

/-- The name in front of a text's type arguments, if it is a base. -/
def readBase (text name : List Char) : Except TypeFault String :=
  let base := Text.squeeze name
  if isBase base then .ok (String.ofList base) else .error (.name (String.ofList text))

/-- The word of a wildcard with a bound. -/
def boundWord? (word : List Char) : Option Wildcard :=
  if word = "extends".toList then some .extends
  else if word = "super".toList then some .super
  else none

/-- The bound of a wildcard is shorter than the text that has the wildcard. -/
theorem length_bound_lt {text reversed bound : List Char} {depth : Nat}
    (hs : cutSuffixes 0 (Text.strip text).reverse = some (depth, reversed))
    (hr : reversed.reverse = '?' :: bound) :
    (Text.cutWord (Text.strip bound)).2.length < text.length := by
  have h1 := length_cutSuffixes hs
  have h2 := Text.length_strip_le text
  have h3 := congrArg List.length hr
  have h4 := Text.length_strip_le bound
  have h5 := Text.length_cutWord_snd_le (Text.strip bound)
  simp only [List.length_reverse, List.length_cons] at h1 h3
  omega

/-- A type argument is shorter than the text that has the arguments. -/
theorem length_argument_lt {text reversed inner part : List Char} {depth : Nat} {c : Char}
    (hs : cutSuffixes 0 (Text.strip text).reverse = some (depth, reversed))
    (hd : reversed.reverse.dropWhile (· != '<') = c :: inner)
    (hp : part ∈ Brackets.split ',' inner.dropLast) : part.length < text.length := by
  have h1 := length_cutSuffixes hs
  have h2 := Text.length_strip_le text
  have h3 := (List.dropWhile_sublist (· != '<') (l := reversed.reverse)).length_le
  have h4 := Brackets.length_le_of_mem_split hp
  rw [hd] at h3
  simp only [List.length_reverse, List.length_cons, List.length_dropLast] at h1 h3 h4
  omega

/-- Read the characters of a type name. Array suffixes behind a wildcard belong
to its bound, and a bare wildcard has none. -/
def read (text : List Char) : Except TypeFault TypeName :=
  match hs : cutSuffixes 0 (Text.strip text).reverse with
  | none => .error (.array (String.ofList text))
  | some (depth, reversed) =>
      match hr : reversed.reverse with
      | '?' :: bound =>
          let words := Text.cutWord (Text.strip bound)
          if words.1.isEmpty then .ok (mk "?" [] 0 (some .any))
          else
            match boundWord? words.1 with
            | none => .error (.wildcard (String.ofList text))
            | some w =>
                if words.2.isEmpty then .error (.wildcard (String.ofList text))
                else
                  have : words.2.length < text.length := length_bound_lt hs hr
                  match read words.2 with
                  | .error fault => .error fault
                  | .ok t => .ok (mk t.base t.arguments (t.depth + depth) (some w))
      | rest =>
          match hd : rest.dropWhile (· != '<') with
          | [] =>
              match readBase text rest with
              | .error fault => .error fault
              | .ok base => .ok (mk base [] depth none)
          | _ :: inner =>
              if rest.getLast? != some '>' then .error (.arguments (String.ofList text))
              else
                have : ∀ part ∈ Brackets.split ',' inner.dropLast, part.length < text.length :=
                  fun _ => length_argument_lt hs (hr ▸ hd)
                match (Brackets.split ',' inner.dropLast).attach.mapM fun part => read part.1 with
                | .error fault => .error fault
                | .ok arguments =>
                    match readBase text (rest.takeWhile (· != '<')) with
                    | .error fault => .error fault
                    | .ok base => .ok (mk base arguments depth none)
termination_by text.length
decreasing_by
  · assumption
  · exact this _ part.2

/-- Read a type name. -/
def parse (text : String) : Except TypeFault TypeName := read text.toList

end TypeName

end BinderIdl
