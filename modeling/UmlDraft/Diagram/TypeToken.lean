import UmlDraft.Text.Scan

/-!
# Type tokens

The text of a type is a dotted word, then at most one level of arguments in angle brackets, then any
number of `[]`. Main statement: what was read and what is left make up the text.
-/

namespace UmlDraft.TypeToken

open Text

/-- Dotted words consist of word characters and dots. -/
def isNameChar (c : Char) : Bool :=
  isWord c || c == '.'

/-- Arguments hold anything but angle brackets and parentheses. -/
def isArgumentChar (c : Char) : Bool :=
  c != '<' && c != '>' && c != '(' && c != ')'

/-- Reads as many `[]` as there are. -/
def readArrays : List Char → List Char × List Char
  | '[' :: ']' :: rest => ('[' :: ']' :: (readArrays rest).1, (readArrays rest).2)
  | s => ([], s)

/-- Reads the arguments of a type, if it has some. An angle bracket that opens no arguments is no
part of a type. -/
def readArguments? (s : List Char) : Option (List Char × List Char) :=
  match s with
  | '<' :: rest =>
    match rest.dropWhile isArgumentChar with
    | '>' :: after => some ('<' :: (rest.takeWhile isArgumentChar ++ ['>']), after)
    | _ => none
  | _ => some ([], s)

/-- Reads a type token and gives it with the text behind it. -/
def read? (s : List Char) : Option (List Char × List Char) :=
  if s.takeWhile isNameChar = [] then none
  else
    match readArguments? (s.dropWhile isNameChar) with
    | none => none
    | some (arguments, rest) =>
      some (s.takeWhile isNameChar ++ arguments ++ (readArrays rest).1, (readArrays rest).2)

/-- The whole of a text is one type token. -/
def isToken (s : List Char) : Bool :=
  match read? s with
  | some (_, []) => true
  | _ => false

theorem readArrays_append (s : List Char) : (readArrays s).1 ++ (readArrays s).2 = s := by
  fun_induction readArrays s with
  | case1 rest ih => rw [List.cons_append, List.cons_append, ih]
  | case2 => rfl

theorem eq_of_readArguments? {s arguments rest : List Char}
    (h : readArguments? s = some (arguments, rest)) : s = arguments ++ rest := by
  unfold readArguments? at h
  split at h
  · next r =>
    split at h
    · next after ha =>
      simp only [Option.some.injEq, Prod.mk.injEq] at h
      have := List.takeWhile_append_dropWhile (p := isArgumentChar) (l := r)
      rw [← h.1, ← h.2, List.cons_append, List.append_assoc, List.singleton_append, ← ha, this]
    · cases h
  · cases h
    rfl

/-- The token that was read and what is left make up the text. -/
theorem eq_of_read? {s token rest : List Char} (h : read? s = some (token, rest)) :
    s = token ++ rest := by
  unfold read? at h
  split at h
  · cases h
  · split at h
    · cases h
    · next arguments r hr =>
      simp only [Option.some.injEq, Prod.mk.injEq] at h
      have h1 := eq_of_readArguments? hr
      have h2 := List.takeWhile_append_dropWhile (p := isNameChar) (l := s)
      rw [← h.1, ← h.2, List.append_assoc, readArrays_append, List.append_assoc, ← h1, h2]

end UmlDraft.TypeToken
