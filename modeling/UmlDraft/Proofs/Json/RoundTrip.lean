import UmlDraft.Json.Printer
import UmlDraft.Proofs.Json.Number
import UmlDraft.Proofs.Table

/-!
# Reading what was printed

The text of a value has no blanks and is on one line. Every part of it is read back by the reader of
its kind, wherever something follows that ends it. Main statement: a value in which no object names
a member twice is read back from its text.
-/

namespace UmlDraft.Json

open Text

variable {v : Json} {items : List Json} {members : List (String × Json)} {rest : List Char}
  {budget : Nat}

theorem skipSpace_cons {c : Char} (h : isSpace c = false) (s : List Char) :
    skipSpace (c :: s) = c :: s :=
  dropWhile_of_stops (stops_cons.mpr h)

/-! ### Texts -/

theorem hexValue?_hexDigit : ∀ n < 16, hexValue? (hexDigit n) = some n := by
  decide

/-- An escape is read as the character that it stands for. -/
theorem readText?_backslash {c : Char} {s : List Char} (h : readEscape? s = some (c, rest)) :
    readText? ('\\' :: s) = (readText? rest).map fun r => (c :: r.1, r.2) := by
  rw [readText?]
  split
  · next hnone => cases h.symm.trans hnone
  · next hsome =>
    cases h.symm.trans hsome
    rfl

/-- A control character is read back from its four digits. -/
theorem readEscape?_control {c : Char} (h : c.toNat < 0x20) (s : List Char) :
    readEscape? ('u' :: '0' :: '0' :: hexDigit (c.toNat / 16) :: hexDigit (c.toNat % 16) :: s) =
      some (c, s) := by
  have hhigh := hexValue?_hexDigit (c.toNat / 16) (by omega)
  have hlow := hexValue?_hexDigit (c.toNat % 16) (by omega)
  have hzero : hexValue? '0' = some 0 := by decide
  have hvalue : c.toNat / 16 * 16 + c.toNat % 16 = c.toNat := by omega
  have hhex : readHex? ('0' :: '0' :: hexDigit (c.toNat / 16) :: hexDigit (c.toNat % 16) :: s) =
      some (c.toNat, s) := by
    simp [readHex?, hhigh, hlow, hzero, hvalue]
  rw [readEscape?, hhex]
  dsimp only
  rw [if_neg (by omega), if_neg (by omega), Char.ofNat_toNat]

/-- A character is read back as it is written inside quotes. -/
theorem readText?_escape (c : Char) (s : List Char) :
    readText? (escape c ++ s) = (readText? s).map fun r => (c :: r.1, r.2) := by
  unfold escape
  -- Seven characters have an escape of their own.
  iterate 7
    split
    · next h =>
      rw [h]
      exact readText?_backslash rfl
  split
  · next h => exact readText?_backslash (readEscape?_control h s)
  · next hquote hbackslash _ _ _ _ _ hcontrol =>
    rw [List.singleton_append, readText?]
    · rw [if_neg hcontrol]
    · exact hquote
    · exact hbackslash

/-- A text is read back up to its closing quote. -/
theorem readText?_flatMap_escape (s rest : List Char) :
    readText? (s.flatMap escape ++ '"' :: rest) = some (s, rest) := by
  induction s with
  | nil => simp [readText?]
  | cons c s ih => rw [List.flatMap_cons, List.append_assoc, readText?_escape, ih, Option.map_some]

/-- The name of a member is read back with its colon. -/
theorem readName?_quote (name : String) (rest : List Char) :
    readName? (quote name ++ ':' :: rest) = some (name, rest) := by
  have htext := readText?_flatMap_escape name.toList (':' :: rest)
  have hcolon : skipSpace (':' :: rest) = ':' :: rest := skipSpace_cons (by decide) rest
  simp only [quote, List.cons_append, List.append_assoc, List.nil_append, readName?, htext, hcolon,
    String.ofList_toList]

/-! ### Values that are neither arrays nor objects -/

/-- What a number begins with. -/
theorem exists_head_written (d : Decimal) :
    ∃ c s, d.written = c :: s ∧ (c.isDigit = true ∨ c ∈ ['-', '.', 'e', '+']) := by
  cases hd : d.written with
  | nil =>
    -- Nothing is no number.
    have hread := readNumber?_written d (@stops_nil isNumberChar)
    rw [hd] at hread
    cases hread
  | cons c s => exact ⟨c, s, rfl, Decimal.mem_written (d := d) (hd ▸ List.mem_cons_self)⟩

theorem head_of_written_append {d : Decimal} {c : Char} {s : List Char}
    (h : d.written ++ rest = c :: s) : c.isDigit = true ∨ c ∈ ['-', '.', 'e', '+'] := by
  obtain ⟨c', s', hd, hc⟩ := exists_head_written d
  rw [hd, List.cons_append, List.cons.injEq] at h
  exact h.1 ▸ hc

theorem readScalar?_written (d : Decimal) (hrest : Stops isNumberChar rest) :
    readScalar? (d.written ++ rest) = some (.number d, rest) := by
  unfold readScalar?
  split
  · next heq => exact absurd (head_of_written_append heq) (by decide)
  · next heq => exact absurd (head_of_written_append heq) (by decide)
  · next heq => exact absurd (head_of_written_append heq) (by decide)
  · next heq => exact absurd (head_of_written_append heq) (by decide)
  · exact readNumber?_written d hrest

/-- A value begins neither with a blank nor with a closing bracket. -/
theorem exists_head_print (v : Json) :
    ∃ c s, print v = c :: s ∧ isSpace c = false ∧ c ≠ ']' := by
  cases v with
  | null => exact ⟨_, _, rfl, by decide, by decide⟩
  | bool b =>
    cases b with
    | false => exact ⟨_, _, rfl, by decide, by decide⟩
    | true => exact ⟨_, _, rfl, by decide, by decide⟩
  | number d =>
    obtain ⟨c, s, hd, hc⟩ := exists_head_written d
    refine ⟨c, s, hd, Bool.eq_false_iff.mpr fun hspace => ?_, ?_⟩
    · simp only [isSpace, Bool.or_eq_true, beq_iff_eq, or_assoc] at hspace
      rcases hspace with rfl | rfl | rfl | rfl
      all_goals exact absurd hc (by decide)
    · rintro rfl
      exact absurd hc (by decide)
  | string s => exact ⟨_, _, rfl, by decide, by decide⟩
  | array items => exact ⟨_, _, rfl, by decide, by decide⟩
  | object members => exact ⟨_, _, rfl, by decide, by decide⟩

/-- No blanks are skipped before a value. -/
theorem skipSpace_print (v : Json) (rest : List Char) :
    skipSpace (print v ++ rest) = print v ++ rest := by
  obtain ⟨c, s, hv, hspace, -⟩ := exists_head_print v
  rw [hv, List.cons_append, skipSpace_cons hspace]

/-! ### All values -/

/-- No object in a value names a member twice. -/
inductive Proper : Json → Prop where
  /-- The value `null`. -/
  | null : Proper .null
  /-- A truth value. -/
  | bool (b : Bool) : Proper (.bool b)
  /-- A number. -/
  | number (d : Decimal) : Proper (.number d)
  /-- A text. -/
  | string (s : String) : Proper (.string s)
  /-- A list of such values. -/
  | array {items : List Json} (hitems : ∀ v ∈ items, Proper v) : Proper (.array items)
  /-- Such values under different names. -/
  | object {members : List (String × Json)} (hnames : (members.map Prod.fst).Nodup)
    (hmembers : ∀ m ∈ members, Proper m.2) : Proper (.object members)

/-- A value is read back from its text, on a budget of the length of the text. -/
def Reads (v : Json) : Prop :=
  ∀ budget rest, (print v).length ≤ budget → Stops isNumberChar rest →
    readValue? budget (print v ++ rest) = some (v, rest)

theorem length_print_pos (v : Json) : 0 < (print v).length := by
  obtain ⟨c, s, hv, -⟩ := exists_head_print v
  rw [hv]
  exact Nat.succ_pos _

/-- A value is read back if it is read as a value that is neither array nor object. -/
theorem Reads.of_readScalar?
    (h : ∀ rest, Stops isNumberChar rest → readScalar? (print v ++ rest) = some (v, rest)) :
    Reads v := by
  intro budget rest hbudget hrest
  have hscalar := h rest hrest
  obtain ⟨budget, rfl⟩ := Nat.exists_eq_add_of_lt (Nat.lt_of_lt_of_le (length_print_pos v) hbudget)
  rw [Nat.zero_add, readValue?, skipSpace_print]
  split
  · next heq =>
    rw [heq] at hscalar
    cases hscalar
  · next heq =>
    rw [heq] at hscalar
    cases hscalar
  · exact hscalar

theorem readItems?_last {s : List Char} (h : readValue? budget s = some (v, ']' :: rest)) :
    readItems? (budget + 1) s = some ([v], rest) := by
  rw [readItems?, h]
  dsimp only
  rw [skipSpace_cons (by decide)]
  rfl

theorem readItems?_more {s : List Char} (h : readValue? budget s = some (v, ',' :: rest)) :
    readItems? (budget + 1) s = (readItems? budget rest).map fun r => (v :: r.1, r.2) := by
  rw [readItems?, h]
  dsimp only
  rw [skipSpace_cons (by decide)]
  rfl

/-- Items that are read back one by one are read back together. -/
theorem readItems?_printItems (hv : Reads v) (hitems : ∀ w ∈ items, Reads w)
    (hbudget : (printItems (v :: items)).length ≤ budget) :
    readItems? budget (printItems (v :: items) ++ rest) = some (v :: items, rest) := by
  induction items generalizing v budget with
  | nil =>
    rw [printItems, printMoreItems, List.length_append, List.length_singleton] at hbudget
    obtain ⟨budget, rfl⟩ := Nat.exists_eq_add_of_le' (Nat.le_trans (Nat.le_add_left 1 _) hbudget)
    rw [printItems, printMoreItems, List.append_assoc, List.singleton_append]
    exact readItems?_last (hv budget (']' :: rest) (by omega) (by simp [isNumberChar]))
  | cons w items ih =>
    obtain ⟨hw, hitems⟩ := List.forall_mem_cons.mp hitems
    have hmore : printItems (v :: w :: items) = print v ++ ',' :: printItems (w :: items) := rfl
    rw [hmore, List.length_append, List.length_cons] at hbudget
    obtain ⟨budget, rfl⟩ := Nat.exists_eq_add_of_le' (Nat.le_trans (Nat.le_add_left 1 _) hbudget)
    -- The value is not empty, so one unit less is enough for what is left.
    have hpos := length_print_pos v
    have hread := hv budget (',' :: (printItems (w :: items) ++ rest)) (by omega)
      (by simp [isNumberChar])
    have hrest : readItems? budget (printItems (w :: items) ++ rest) = some (w :: items, rest) :=
      ih hw hitems (by omega)
    rw [hmore, List.append_assoc, List.cons_append, readItems?_more hread, hrest, Option.map_some]

section Members

variable {name : String} {s : List Char}

/-- The name and the colon of a member come before its value. -/
theorem readName?_skipSpace_quote (name : String) (s : List Char) :
    readName? (skipSpace (quote name ++ ':' :: s)) = some (name, s) := by
  have hquote : skipSpace (quote name ++ ':' :: s) = quote name ++ ':' :: s :=
    skipSpace_cons (by decide) _
  rw [hquote, readName?_quote]

theorem readMembers?_last (h : readValue? budget s = some (v, '}' :: rest)) :
    readMembers? (budget + 1) (quote name ++ ':' :: s) = some ([(name, v)], rest) := by
  rw [readMembers?, readName?_skipSpace_quote]
  dsimp only
  rw [h]
  dsimp only
  rw [skipSpace_cons (by decide)]
  rfl

theorem readMembers?_more (h : readValue? budget s = some (v, ',' :: rest)) :
    readMembers? (budget + 1) (quote name ++ ':' :: s) =
      (readMembers? budget rest).map fun r => ((name, v) :: r.1, r.2) := by
  rw [readMembers?, readName?_skipSpace_quote]
  dsimp only
  rw [h]
  dsimp only
  rw [skipSpace_cons (by decide)]
  rfl

/-- Members whose values are read back are read back together. -/
theorem readMembers?_printMembers (hv : Reads v) (hmembers : ∀ m ∈ members, Reads m.2)
    (hbudget : (printMembers ((name, v) :: members)).length ≤ budget) :
    readMembers? budget (printMembers ((name, v) :: members) ++ rest) =
      some ((name, v) :: members, rest) := by
  induction members generalizing name v budget with
  | nil =>
    rw [printMembers, printMoreMembers, List.length_append, List.length_append, List.length_cons,
      List.length_singleton] at hbudget
    obtain ⟨budget, rfl⟩ := Nat.exists_eq_add_of_le' (Nat.le_trans (Nat.le_add_left 1 _) hbudget)
    rw [printMembers, printMoreMembers, List.append_assoc, List.append_assoc, List.cons_append,
      List.singleton_append]
    exact readMembers?_last (hv budget ('}' :: rest) (by omega) (by simp [isNumberChar]))
  | cons m members ih =>
    obtain ⟨other, w⟩ := m
    obtain ⟨hw, hmembers⟩ := List.forall_mem_cons.mp hmembers
    have hmore : printMembers ((name, v) :: (other, w) :: members) =
        quote name ++ ':' :: (print v ++ ',' :: printMembers ((other, w) :: members)) := by
      simp [printMembers, printMoreMembers]
    rw [hmore, List.length_append, List.length_cons, List.length_append, List.length_cons]
      at hbudget
    obtain ⟨budget, rfl⟩ := Nat.exists_eq_add_of_le' (Nat.le_trans (by omega) hbudget : 1 ≤ budget)
    have hread := hv budget (',' :: (printMembers ((other, w) :: members) ++ rest)) (by omega)
      (by simp [isNumberChar])
    have hrest : readMembers? budget (printMembers ((other, w) :: members) ++ rest) =
        some ((other, w) :: members, rest) := ih hw hmembers (by omega)
    rw [hmore, List.append_assoc, List.cons_append, List.append_assoc, List.cons_append,
      readMembers?_more hread, hrest, Option.map_some]

end Members

/-- Behind its bracket an array is closed at once, or items follow. -/
theorem readValue?_bracket (s : List Char) :
    readValue? (budget + 1) ('[' :: s) =
      match skipSpace s with
      | ']' :: after => some (.array [], after)
      | _ => (readItems? budget s).map fun r => (.array r.1, r.2) := by
  rw [readValue?, skipSpace_cons (by decide)]
  rfl

/-- Behind its brace an object is closed at once, or members follow. -/
theorem readValue?_brace (s : List Char) :
    readValue? (budget + 1) ('{' :: s) =
      match skipSpace s with
      | '}' :: after => some (.object [], after)
      | _ => (readMembers? budget s).map fun r => (.object (Table.ofList r.1).entries, r.2) := by
  rw [readValue?, skipSpace_cons (by decide)]
  rfl

/-- An array is read back if its items are. -/
theorem reads_array (h : ∀ v ∈ items, Reads v) : Reads (.array items) := by
  intro budget rest hbudget hrest
  rw [print, List.length_cons] at hbudget
  obtain ⟨budget, rfl⟩ := Nat.exists_eq_add_of_le' (Nat.le_trans (Nat.le_add_left 1 _) hbudget)
  rw [print, List.cons_append, readValue?_bracket]
  cases items with
  | nil =>
    rw [printItems, List.singleton_append, skipSpace_cons (by decide)]
    rfl
  | cons v items =>
    obtain ⟨hv, hitems⟩ := List.forall_mem_cons.mp h
    have hread : readItems? budget (printItems (v :: items) ++ rest) = some (v :: items, rest) :=
      readItems?_printItems hv hitems (by omega)
    obtain ⟨c, s, hprint, hspace, hbracket⟩ := exists_head_print v
    have hskip : skipSpace (printItems (v :: items) ++ rest) = printItems (v :: items) ++ rest := by
      rw [printItems, List.append_assoc]
      exact skipSpace_print v _
    rw [hskip, hread]
    split
    · next heq =>
      -- The first item does not begin like the end of the array.
      rw [printItems, hprint] at heq
      exact absurd (List.cons.inj heq).1 hbracket
    · rfl

/-- An object with different names is read back if its members are. -/
theorem reads_object (hnames : (members.map Prod.fst).Nodup) (h : ∀ m ∈ members, Reads m.2) :
    Reads (.object members) := by
  intro budget rest hbudget hrest
  rw [print, List.length_cons] at hbudget
  obtain ⟨budget, rfl⟩ := Nat.exists_eq_add_of_le' (Nat.le_trans (Nat.le_add_left 1 _) hbudget)
  rw [print, List.cons_append, readValue?_brace]
  cases members with
  | nil =>
    rw [printMembers, List.singleton_append, skipSpace_cons (by decide)]
    rfl
  | cons m members =>
    obtain ⟨name, v⟩ := m
    obtain ⟨hv, hmembers⟩ := List.forall_mem_cons.mp h
    have hread : readMembers? budget (printMembers ((name, v) :: members) ++ rest) =
        some ((name, v) :: members, rest) := readMembers?_printMembers hv hmembers (by omega)
    have hskip : skipSpace (printMembers ((name, v) :: members) ++ rest) =
        printMembers ((name, v) :: members) ++ rest := by
      rw [printMembers, List.append_assoc]
      exact skipSpace_cons (by decide) _
    rw [hskip, hread, Option.map_some, Table.entries_ofList hnames]
    rfl

/-- A value in which no object names a member twice is read back. -/
theorem Proper.reads (h : Proper v) : Reads v := by
  induction h with
  | null => exact .of_readScalar? fun rest _ => rfl
  | bool b =>
    refine .of_readScalar? fun rest _ => ?_
    cases b with
    | false => rfl
    | true => rfl
  | number d => exact .of_readScalar? fun rest hrest => readScalar?_written d hrest
  | string s =>
    refine .of_readScalar? fun rest _ => ?_
    rw [print, quote, List.append_assoc, List.singleton_append]
    simp only [List.cons_append, readScalar?, readText?_flatMap_escape, Option.map_some,
      String.ofList_toList]
  | array _ ih => exact reads_array ih
  | object hnames _ ih => exact reads_object hnames ih

/-- The text of a value in which no object names a member twice is read back to the value. -/
theorem parse?_compress (h : Proper v) : parse? v.compress = some v := by
  have hread := h.reads (2 * (print v).length + 1) [] (by omega) stops_nil
  rw [List.append_nil] at hread
  simp only [parse?, compress, String.toList_ofList, hread]
  rfl

/-- Values in which no object names a member twice have different texts. -/
theorem compress_inj {w : Json} (hv : Proper v) (hw : Proper w) (h : v.compress = w.compress) :
    v = w := by
  rw [← Option.some_inj, ← parse?_compress hv, h, parse?_compress hw]

/-! ### The line of a value -/

theorem newline_not_mem_quote (s : String) : '\n' ∉ quote s := by
  simp only [quote, List.cons_append, List.mem_cons, List.mem_append, List.mem_flatMap, not_or]
  refine ⟨by decide, ?_, by decide, List.not_mem_nil⟩
  rintro ⟨c, -, hc⟩
  exact newline_not_mem_escape c hc

/-- What is printed of items behind another one is made of their texts. -/
theorem mem_printMoreItems {c : Char} (h : c ∈ printMoreItems items) :
    c ∈ [',', ']'] ∨ ∃ v ∈ items, c ∈ print v := by
  induction items with
  | nil => exact .inl (List.mem_cons_of_mem _ h)
  | cons v items ih =>
    rw [printMoreItems, List.cons_append, List.mem_cons, List.mem_append] at h
    rcases h with rfl | h | h
    · exact .inl List.mem_cons_self
    · exact .inr ⟨v, List.mem_cons_self, h⟩
    · exact (ih h).imp_right fun ⟨w, hw, hc⟩ => ⟨w, List.mem_cons_of_mem v hw, hc⟩

theorem mem_printItems {c : Char} (h : c ∈ printItems items) :
    c ∈ [',', ']'] ∨ ∃ v ∈ items, c ∈ print v := by
  -- A comma before the first item changes nothing but the comma.
  cases items with
  | nil => exact .inl (List.mem_cons_of_mem _ h)
  | cons v items => exact mem_printMoreItems (List.mem_cons_of_mem ',' h)

/-- What is printed of members behind another one is made of their names and values. -/
theorem mem_printMoreMembers {c : Char} (h : c ∈ printMoreMembers members) :
    c ∈ [',', ':', '}'] ∨ ∃ m ∈ members, c ∈ quote m.1 ∨ c ∈ print m.2 := by
  induction members with
  | nil => exact .inl (List.mem_cons_of_mem _ (List.mem_cons_of_mem _ h))
  | cons m members ih =>
    obtain ⟨name, v⟩ := m
    simp only [printMoreMembers, List.cons_append, List.append_assoc, List.mem_cons,
      List.mem_append] at h
    rcases h with rfl | h | rfl | h | h
    · exact .inl (by simp)
    · exact .inr ⟨_, List.mem_cons_self, .inl h⟩
    · exact .inl (by simp)
    · exact .inr ⟨_, List.mem_cons_self, .inr h⟩
    · exact (ih h).imp_right fun ⟨other, hother, hc⟩ => ⟨other, List.mem_cons_of_mem _ hother, hc⟩

theorem mem_printMembers {c : Char} (h : c ∈ printMembers members) :
    c ∈ [',', ':', '}'] ∨ ∃ m ∈ members, c ∈ quote m.1 ∨ c ∈ print m.2 := by
  cases members with
  | nil => exact .inl (List.mem_cons_of_mem _ (List.mem_cons_of_mem _ h))
  | cons m members => exact mem_printMoreMembers (List.mem_cons_of_mem ',' h)

/-- The text of a value is on one line. -/
theorem Proper.newline_not_mem_print (h : Proper v) : '\n' ∉ print v := by
  induction h with
  | null => decide
  | bool b => cases b <;> decide
  | number d => exact fun hmem => absurd (Decimal.mem_written hmem) (by decide)
  | string s => exact newline_not_mem_quote s
  | array _ ih =>
    rw [print, List.mem_cons, not_or]
    refine ⟨by decide, fun hmem => ?_⟩
    rcases mem_printItems hmem with hmark | ⟨v, hv, hc⟩
    · exact absurd hmark (by decide)
    · exact ih v hv hc
  | object _ _ ih =>
    rw [print, List.mem_cons, not_or]
    refine ⟨by decide, fun hmem => ?_⟩
    rcases mem_printMembers hmem with hmark | ⟨m, hm, hname | hc⟩
    · exact absurd hmark (by decide)
    · exact newline_not_mem_quote m.1 hname
    · exact ih m hm hc

end UmlDraft.Json
