/-! Text on the console. Texts that are shown to a reader lose the sequences that
would steer a terminal: the escape character and a bracket, parameters, intermediate
characters and a final one. -/
namespace BinderIdl.Text

/-- A parameter in a sequence that steers a terminal. -/
def isParameter (c : Char) : Bool := '0' ≤ c && c ≤ '?'

/-- An intermediate character in such a sequence. -/
def isIntermediate (c : Char) : Bool := ' ' ≤ c && c ≤ '/'

/-- A final character of such a sequence. -/
def isFinal (c : Char) : Bool := '@' ≤ c && c ≤ '~'

/-- What follows the rest of a sequence, if there is such a rest. -/
def behindSequence? (cs : List Char) : Option (List Char) :=
  match (cs.dropWhile isParameter).dropWhile isIntermediate with
  | c :: rest => if isFinal c then some rest else none
  | [] => none

theorem length_behindSequence? {cs rest : List Char} (h : behindSequence? cs = some rest) :
    rest.length < cs.length := by
  have first := (List.dropWhile_sublist isParameter (l := cs)).length_le
  have second := (List.dropWhile_sublist isIntermediate (l := cs.dropWhile isParameter)).length_le
  unfold behindSequence? at h
  split at h
  case h_1 c found same =>
    split at h
    · cases h
      rw [same, List.length_cons] at second
      omega
    · cases h
  case h_2 => cases h

/-- A text without the sequences that steer a terminal. -/
def withoutSequences (cs : List Char) : List Char :=
  match cs with
  | [] => []
  | c :: rest =>
      if c = '\x1b' ∧ rest.head? = some '[' then
        match h : behindSequence? rest.tail with
        | some later =>
            have := length_behindSequence? h
            withoutSequences later
        | none => c :: withoutSequences rest
      else c :: withoutSequences rest
termination_by cs.length
decreasing_by
  all_goals simp_all only [List.length_cons, List.length_tail]
  all_goals omega

end BinderIdl.Text
