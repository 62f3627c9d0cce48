import UmlDraft.Text.Classes

/-!
# Scanning

The few operations on character lists that every reader of the diagram text uses: cutting off
blanks, collapsing them, taking a leading word, and looking for one text inside another.
-/

namespace UmlDraft.Text

/-- The text without its leading blanks. -/
def skipBlanks (s : List Char) : List Char :=
  s.dropWhile isBlank

/-- The text without the blanks at either end. -/
def trim (s : List Char) : List Char :=
  ((skipBlanks s).reverse.dropWhile isBlank).reverse

/-- Every run of blanks becomes one space. -/
def collapse : List Char → List Char
  | [] => []
  | c :: rest =>
    if isBlank c then
      if rest.head?.any isBlank then collapse rest else ' ' :: collapse rest
    else c :: collapse rest

/-- The longest leading word, empty where the text does not begin with a word character. -/
def leadingWord (s : List Char) : List Char :=
  s.takeWhile isWord

/-- What follows the longest leading word. -/
def afterWord (s : List Char) : List Char :=
  s.dropWhile isWord

@[simp] theorem leadingWord_append_afterWord (s : List Char) :
    leadingWord s ++ afterWord s = s :=
  List.takeWhile_append_dropWhile

theorem length_dropWhile_le (p : Char → Bool) (s : List Char) :
    (s.dropWhile p).length ≤ s.length :=
  (List.dropWhile_suffix p).length_le

theorem length_skipBlanks_le (s : List Char) : (skipBlanks s).length ≤ s.length :=
  length_dropWhile_le isBlank s

theorem length_afterWord_le (s : List Char) : (afterWord s).length ≤ s.length :=
  length_dropWhile_le isWord s

/-- What follows a given beginning of the text. -/
def dropLeading? : List Char → List Char → Option (List Char)
  | [], s => some s
  | _ :: _, [] => none
  | p :: ps, c :: cs => if p = c then dropLeading? ps cs else none

theorem dropLeading?_eq_some_iff {p s rest : List Char} :
    dropLeading? p s = some rest ↔ s = p ++ rest := by
  induction p generalizing s with
  | nil => simp [dropLeading?, eq_comm]
  | cons a p ih =>
    cases s with
    | nil => simp [dropLeading?]
    | cons c s =>
      by_cases h : a = c
      · simp [dropLeading?, h, ih]
      · have : ¬ c = a := fun e => h e.symm
        simp [dropLeading?, h, this]

/-- The needle stands somewhere in the text. -/
def occursIn (needle : List Char) : List Char → Bool
  | [] => needle.isEmpty
  | c :: rest => needle.isPrefixOf (c :: rest) || occursIn needle rest

theorem occursIn_iff {needle s : List Char} : occursIn needle s = true ↔ needle <:+: s := by
  induction s with
  | nil => simp [occursIn]
  | cons c rest ih =>
    rw [occursIn, Bool.or_eq_true, ih, List.isPrefixOf_iff_prefix, List.infix_cons_iff]

end UmlDraft.Text
