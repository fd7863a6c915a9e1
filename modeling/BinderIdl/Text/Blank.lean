/-! Blank characters and the word operations built on them. Every reader in
this library that skips space, trims text or cuts it into words uses this one
class, so two readers never disagree about where a word ends. -/
namespace BinderIdl.Text

/-- The blank characters: the ASCII controls from tab to carriage return and
from the file separator to space, and the Unicode spaces and separators. The
zero-width space and the byte order mark are not blank. -/
def isBlank (c : Char) : Bool :=
  let n := c.toNat
  (9 ≤ n && n ≤ 13) || (28 ≤ n && n ≤ 32) || n == 0x85 || n == 0xA0 || n == 0x1680 ||
    (0x2000 ≤ n && n ≤ 0x200A) || n == 0x2028 || n == 0x2029 || n == 0x202F || n == 0x205F ||
    n == 0x3000

/-- The text without its leading blanks. -/
def stripLeft (cs : List Char) : List Char :=
  cs.dropWhile isBlank

/-- The text without its trailing blanks. -/
def stripRight (cs : List Char) : List Char :=
  (cs.reverse.dropWhile isBlank).reverse

/-- The text without blanks at either end. -/
def strip (cs : List Char) : List Char :=
  stripRight (stripLeft cs)

/-- The text with every blank removed, also those inside it. -/
def squeeze (cs : List Char) : List Char :=
  cs.filter fun c => !isBlank c

/-- Cut off the first word. The second part is what follows the word and the
blanks after it. The word is empty exactly when the text is all blank. -/
def cutWord (cs : List Char) : List Char × List Char :=
  let cs := stripLeft cs
  (cs.takeWhile fun c => !isBlank c, stripLeft (cs.dropWhile fun c => !isBlank c))

theorem length_stripLeft_le (cs : List Char) : (stripLeft cs).length ≤ cs.length :=
  (List.dropWhile_sublist isBlank).length_le

theorem length_stripRight_le (cs : List Char) : (stripRight cs).length ≤ cs.length := by
  simpa [stripRight] using (List.dropWhile_sublist isBlank (l := cs.reverse)).length_le

theorem length_strip_le (cs : List Char) : (strip cs).length ≤ cs.length :=
  Nat.le_trans (length_stripRight_le _) (length_stripLeft_le cs)

/-- What follows the first word is no longer than the text. -/
theorem length_cutWord_snd_le (cs : List Char) : (cutWord cs).2.length ≤ cs.length :=
  Nat.le_trans (length_stripLeft_le _)
    (Nat.le_trans (List.dropWhile_sublist _).length_le (length_stripLeft_le cs))

/-- The string without blanks at either end. -/
def trim (s : String) : String :=
  String.ofList (strip s.toList)

end BinderIdl.Text
