import UmlDraft.Text.Units

/-!
# Suggestions

For a word that is not known, the known words nearest to it. The distance of two words is the least
number of insertions, deletions, replacements and swaps of neighbours that turns one into the other,
no place being edited twice; words whose lengths differ by more than three are as far apart as the
longer one is long. A word is suggested if its distance is at most three, less than three fifths of
the longer word has changed, and no other word is nearer.
-/

namespace UmlDraft.Suggestion

/-- The distance beyond which words are strangers. -/
def maxDistance : Nat :=
  3

/-- The next row of the table of distances: `above` is the row before, `twoAbove` the one before
that with the unit that it belongs to, `a` the unit of the new row, and the list the columns with
the unit before each. -/
def nextRow (a : Nat) (above : List Nat) (before : Option (Nat × List Nat)) (word : List Nat) :
    List Nat :=
  let rec go (left : Nat) (above : List Nat) (twoAbove : List Nat) (previous : Option Nat) :
      List Nat → List Nat
    | [] => [left]
    | b :: rest =>
      let diagonal := above.headD 0
      let up := above.tail.headD 0
      let plain := min (min (up + 1) (left + 1)) (diagonal + if a = b then 0 else 1)
      let swapped :=
        match before, previous with
        | some (a', _), some b' =>
          if a = b' ∧ a' = b then min plain (twoAbove.headD 0 + 1) else plain
        | _, _ => plain
      left :: go swapped above.tail (if previous.isSome then twoAbove.tail else twoAbove) (some b)
        rest
  go (above.headD 0 + 1) above ((before.map Prod.snd).getD []) none word

/-- The last row of the table of distances. -/
def lastRow (word : List Nat) (above : List Nat) (before : Option (Nat × List Nat)) :
    List Nat → List Nat
  | [] => above
  | a :: rest => lastRow word (nextRow a above before word) (some (a, above)) rest

/-- The least number of edits between two words. -/
def edits (v w : List Nat) : Nat :=
  (lastRow w (List.range (w.length + 1)) none v).getLastD 0

/-- The distance of two words. -/
def distance (v w : List Nat) : Nat :=
  if v.length + maxDistance < w.length ∨ w.length + maxDistance < v.length then
    max v.length w.length
  else edits v w

/-- Whether enough of the longer word is left unchanged at a distance. -/
def similar (v w : List Nat) (d : Nat) : Bool :=
  2 * max v.length w.length < 5 * (max v.length w.length - d)

/-- The units of a word. -/
def unitsOf (word : String) : List Nat :=
  word.toList.flatMap Text.codeUnits

/-- The candidates that are near a word, with their distances. -/
def near (word : String) (candidates : List String) : List (String × Nat) :=
  (candidates.map fun c => (c, distance (unitsOf word) (unitsOf c))).filter fun c =>
    1 < (unitsOf c.1).length && c.2 ≤ maxDistance &&
      similar (unitsOf word) (unitsOf c.1) c.2

/-- The nearest candidates in alphabetical order. -/
def nearest (word : String) (candidates : List String) : List String :=
  let found := near word candidates.eraseDups
  ((found.filter fun c => found.all fun e => c.2 ≤ e.2).map Prod.fst).mergeSort (· ≤ ·)

end UmlDraft.Suggestion
