/-! Cutting a text at the separators that stand outside angle brackets. The
depth is signed: a text may close brackets that it never opened, and then only
separators after as many openings are at the top level again. -/
namespace BinderIdl.Brackets

/-- The change of depth at a character. -/
def weight (c : Char) : Int :=
  if c = '<' then 1 else if c = '>' then -1 else 0

/-- The parts of a text that stands at a depth. A bracket counts before it is
compared with the separator. -/
def splitAtDepth (separator : Char) (depth : Int) : List Char → List (List Char)
  | [] => [[]]
  | c :: cs =>
      let depth := depth + weight c
      if c = separator ∧ depth = 0 then [] :: splitAtDepth separator depth cs
      else
        match splitAtDepth separator depth cs with
        | [] => [[c]]
        | part :: parts => (c :: part) :: parts

/-- The parts of a text between the separators outside angle brackets. -/
def split (separator : Char) (cs : List Char) : List (List Char) :=
  splitAtDepth separator 0 cs

/-- The parts of a string. A separator that is not one character stands
nowhere, so the whole string is the only part. -/
def splitOn (separator text : String) : List String :=
  match separator.toList with
  | [c] => (split c text.toList).map String.ofList
  | _ => [text]

/-- No part is longer than the text. -/
theorem length_le_of_mem_splitAtDepth {separator : Char} {depth : Int} {cs part : List Char}
    (h : part ∈ splitAtDepth separator depth cs) : part.length ≤ cs.length := by
  induction cs generalizing depth part with
  | nil => simp_all [splitAtDepth]
  | cons c cs ih =>
      simp only [splitAtDepth] at h
      split at h
      · rcases List.mem_cons.mp h with rfl | h
        · simp
        · exact Nat.le_succ_of_le (ih h)
      · split at h
        · rcases List.mem_singleton.mp h with rfl
          simp
        · rename_i first parts hs
          rcases List.mem_cons.mp h with rfl | h
          · simpa using ih (hs ▸ List.mem_cons_self)
          · exact Nat.le_succ_of_le (ih (hs ▸ List.mem_cons_of_mem _ h))

theorem length_le_of_mem_split {separator : Char} {cs part : List Char}
    (h : part ∈ split separator cs) : part.length ≤ cs.length :=
  length_le_of_mem_splitAtDepth h

end BinderIdl.Brackets
