import UmlDraft.Proofs.Diagram.DrawnArrow
import UmlDraft.Proofs.Text.Join

/-!
# Printed relations

A line with an arrow between two names is found by the search for its own form and passed by the
three others. So a search finds, line by line, exactly the links that were printed with its form,
each at the offset of its line.
-/

namespace UmlDraft

open Text

namespace Arrow

/-- The shortest arrow of a form. -/
def text (a : Arrow) : List Char :=
  match a.head with
  | .left => ['<', '|', a.stroke.char, a.stroke.char]
  | .right => [a.stroke.char, a.stroke.char, '|', '>']

theorem mem_text {b : Arrow} {c : Char} (h : c ∈ ' ' :: (b.text ++ [' '])) :
    c ∈ [' ', '<', '>', '|', '-', '.'] := by
  have hall : ((' ' :: (b.text ++ [' '])).all [' ', '<', '>', '|', '-', '.'].contains) = true := by
    obtain ⟨stroke, head⟩ := b
    cases stroke <;> cases head <;> decide
  exact List.contains_iff_mem.mp (List.all_eq_true.mp hall c h)

/-- An arrow between spaces joins two words. -/
theorem joins_text (a : Arrow) : a.Joins (' ' :: (a.text ++ [' '])) := by
  refine ⟨[' '], 2, [' '], isGap_space.blank, Nat.le_refl 2, isGap_space.blank, ?_⟩
  obtain ⟨stroke, head⟩ := a
  cases head with
  | left | right => rfl

end Arrow

/-- A line that joins two names by an arrow. -/
structure Link where
  /-- The form of the arrow. -/
  arrow : Arrow
  /-- The name on the left. -/
  left : String
  /-- The name on the right. -/
  right : String

namespace Link

/-- The line of a link. -/
def print (k : Link) : List Char :=
  k.left.toList ++ (' ' :: (k.arrow.text ++ (' ' :: k.right.toList)))

/-- The edge of a link at an offset. -/
def edge (k : Link) (offset : Nat) : Edge :=
  k.arrow.edge k.left.toList k.right.toList offset

/-- A link of names. -/
structure Named (k : Link) : Prop where
  /-- The name on the left is a word. -/
  left : IsName k.left.toList
  /-- The name on the right is a word. -/
  right : IsName k.right.toList

/-- The links of printed lines with the offsets of the lines. -/
def placed (offset : Nat) : List Link → List (Nat × Link)
  | [] => []
  | k :: ks => (offset, k) :: placed (offset + (units k.print + 1)) ks

variable {a : Arrow} {k : Link} {ks : List Link} {offset : Nat} {rest : List Char}

/-- A printed link consists of its names, its arrow and spaces. -/
theorem Named.mem_print (hk : k.Named) {c : Char} (hc : c ∈ k.print) :
    isWord c = true ∨ c ∈ [' ', '<', '>', '|', '-', '.'] := by
  have hline : k.print = k.left.toList ++ ((' ' :: (k.arrow.text ++ [' '])) ++ k.right.toList) := by
    simp only [print, List.append_assoc, List.cons_append, List.nil_append]
  rw [hline, List.mem_append, List.mem_append] at hc
  rcases hc with hc | hc | hc
  · exact .inl (hk.left.word c hc)
  · exact .inr (Arrow.mem_text hc)
  · exact .inl (hk.right.word c hc)

/-- No arrow begins behind a line feed, if the next line begins with a word. -/
theorem rightWord?_feed (hr : ∀ c ∈ rest.head?, isWord c = true) :
    a.rightWord? ('\n' :: rest) = none := by
  have hstop : Stops isBlank rest := fun c hc => isBlank_of_isWord (hr c hc)
  have hfeed : ∀ c ∈ ['\n'], isBlank c = true := fun c hc => List.mem_singleton.mp hc ▸ isBlank_feed
  have hskip : skipBlanks ('\n' :: rest) = rest := skipBlanks_run hfeed hstop
  exact Arrow.rightWord?_eq_none (by rwa [hskip])

/-- The search for one form finds a line of that form and passes any other. -/
theorem scan_print (hk : k.Named) (hr : ∀ c ∈ rest.head?, isWord c = true) :
    a.scan offset (k.print ++ '\n' :: rest) =
      (if a = k.arrow then [k.edge offset] else []) ++
        a.scan (offset + (units k.print + 1)) rest := by
  have hline : ∀ t, k.print ++ t =
      k.left.toList ++ ((' ' :: (k.arrow.text ++ [' '])) ++ (k.right.toList ++ t)) := fun t => by
    simp only [print, List.append_assoc, List.cons_append, List.nil_append]
  have hprint := hline []
  rw [List.append_nil, List.append_nil] at hprint
  have hfeed : ∀ {o : Nat}, a.scan o ('\n' :: rest) = a.scan (o + 1) rest :=
    Arrow.scan_of_not_word (by decide)
  rw [hline, Arrow.scan_joins hk.left k.arrow.joins_text hk.right (stops_cons.mpr (by decide))
    (rightWord?_feed hr), hfeed, ← hprint, edge, Nat.add_assoc]

/-- Printed links begin with a name. -/
theorem isWord_of_head?_lines (hks : ∀ k ∈ ks, k.Named) :
    ∀ c ∈ (lines (ks.map print)).head?, isWord c = true := by
  intro c hc
  cases ks with
  | nil => cases hc
  | cons k ks =>
    have hname := (hks k List.mem_cons_self).left
    rw [List.map_cons, lines_cons, print, List.append_assoc] at hc
    cases hleft : k.left.toList with
    | nil => exact absurd hleft hname.ne_nil
    | cons d w =>
      rw [hleft] at hc
      cases hc
      exact hname.word c (hleft ▸ List.mem_cons_self)

/-- The search for one form finds the lines of that form. -/
theorem scan_lines (hks : ∀ k ∈ ks, k.Named) :
    a.scan offset (lines (ks.map print)) =
      ((placed offset ks).filter (a = ·.2.arrow)).map fun p => p.2.edge p.1 := by
  induction ks generalizing offset with
  | nil => exact Arrow.scan_nil a offset
  | cons k ks ih =>
    have hks' : ∀ k ∈ ks, k.Named := fun j hj => hks j (List.mem_cons_of_mem k hj)
    rw [List.map_cons, lines_cons,
      scan_print (hks k List.mem_cons_self) (isWord_of_head?_lines hks'), ih hks', placed,
      List.filter_cons]
    by_cases h : a = k.arrow
    · simp [h]
    · simp [h]

theorem placed_append (offset : Nat) (ks js : List Link) :
    placed offset (ks ++ js) =
      placed offset ks ++ placed (offset + units (lines (ks.map print))) js := by
  induction ks generalizing offset with
  | nil => rfl
  | cons k ks ih =>
    have hoffset : offset + (units k.print + 1) + units (lines (ks.map print)) =
        offset + units (lines ((k :: ks).map print)) := by
      rw [List.map_cons, lines_cons, units_append, units_cons, show width '\n' = 1 from rfl]
      omega
    rw [List.cons_append, placed, placed, ih, List.cons_append, hoffset]

theorem mem_of_mem_placed {p : Nat × Link} (h : p ∈ placed offset ks) :
    offset ≤ p.1 ∧ p.2 ∈ ks := by
  induction ks generalizing offset with
  | nil => cases h
  | cons k ks ih =>
    rcases List.mem_cons.mp h with rfl | h
    · exact ⟨Nat.le_refl _, List.mem_cons_self⟩
    · obtain ⟨hle, hmem⟩ := ih h
      exact ⟨by omega, List.mem_cons_of_mem k hmem⟩

/-- Links are placed in the order of their lines. -/
theorem placed_pairwise (offset : Nat) (ks : List Link) :
    (placed offset ks).Pairwise fun p q => p.1 ≤ q.1 := by
  induction ks generalizing offset with
  | nil => exact .nil
  | cons k ks ih =>
    refine List.pairwise_cons.mpr ⟨fun p hp => ?_, ih _⟩
    have hle := (mem_of_mem_placed hp).1
    omega

/-- Of links that share a form, the search for a form finds all or none. -/
theorem filter_placed {b : Arrow} (h : ∀ k ∈ ks, k.arrow = b) :
    (placed offset ks).filter (a = ·.2.arrow) = if a = b then placed offset ks else [] := by
  split
  · next hab =>
    rw [List.filter_eq_self]
    intro p hp
    rw [h p.2 (mem_of_mem_placed hp).2]
    exact decide_eq_true hab
  · next hab =>
    rw [List.filter_eq_nil_iff]
    intro p hp
    rw [h p.2 (mem_of_mem_placed hp).2]
    simpa using hab

end Link

end UmlDraft
