import UmlDraft.Text.CaseTable

/-!
# Letter case

Full case mapping: one character may become several (`ß` becomes `SS`), and a capital sigma becomes
the final form `ς` where it ends a word. A name is capitalised by putting its first UTF-16 unit in
upper case and all that follows in lower case, so a leading character of two units stays as it is.
-/

namespace UmlDraft.Text

private def ofCodePoints (ns : List Nat) : List Char :=
  ns.map Char.ofNat

/-- The upper case of one character. -/
def upper (c : Char) : List Char :=
  match upperExpansions.lookup c.toNat with
  | some ns => ofCodePoints ns
  | none => [Char.ofNat (CaseRun.map upperRuns c.toNat)]

/-- The lower case of one character, taken out of context. -/
def lower (c : Char) : List Char :=
  match lowerExpansions.lookup c.toNat with
  | some ns => ofCodePoints ns
  | none => [Char.ofNat (CaseRun.map lowerRuns c.toNat)]

/-- Characters that are passed over when the neighbours of a sigma are looked for. -/
def isCaseIgnorable (c : Char) : Bool :=
  inSpans caseIgnorableSpans c.toNat

/-- The next character that is not passed over has case. -/
def meetsCased (s : List Char) : Bool :=
  (s.dropWhile isCaseIgnorable).head?.any fun c => inSpans casedSpans c.toNat

/-- Lower case with the characters before it, nearest first: a capital sigma is final when a cased
letter comes before it and none after. -/
def lowerAfter (before : List Char) : List Char → List Char
  | [] => []
  | c :: rest =>
    (if c == 'Σ' && meetsCased before && !meetsCased rest then ['ς'] else lower c) ++
      lowerAfter (c :: before) rest

/-- The lower case of a text. -/
def toLower (s : List Char) : List Char :=
  lowerAfter [] s

/-- First UTF-16 unit in upper case, the rest in lower case: `unitPrice` becomes `Unitprice`. A
character beyond U+FFFF is two units, and half of it has no case. -/
def capitalize (s : List Char) : List Char :=
  match s with
  | [] => []
  | c :: rest => (if c.toNat < 0x10000 then upper c else [c]) ++ toLower rest

@[simp] theorem capitalize_nil : capitalize [] = [] := rfl

@[simp] theorem toLower_nil : toLower [] = [] := rfl

end UmlDraft.Text
