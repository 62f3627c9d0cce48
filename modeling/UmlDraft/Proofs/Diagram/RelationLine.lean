import Mathlib.Data.List.Pairwise
import Mathlib.Data.List.TakeWhile
import UmlDraft.Proofs.Diagram.ArrowPlace
import UmlDraft.Proofs.Diagram.EdgeOrder
import UmlDraft.Proofs.Text.Join

/-!
# Relation lines

A line relates two words by an arrow, which may be drawn with any number of strokes from two on and
stand between any blanks. Between the word on the right of one line and the word on the left of the
next there are blanks only, so no arrow reaches from one line into another, and within a line only
the search for the form of its arrow finds it. Hence the arrows of such lines are found line by
line. What a line says does not depend on how it is drawn: a line with the mirrored arrow between
the same words in the other order says the same, and so do other blanks and another number of
strokes.
-/

namespace UmlDraft

open Text

/-- Sorted into heaps by a key, a list has the same members, if there is one heap for every key. -/
theorem flatMap_filter_perm {α β : Type} [DecidableEq β] (key : α → β) {keys : List β}
    (hkeys : keys.Nodup) (l : List α) (hall : ∀ x ∈ l, key x ∈ keys) :
    (keys.flatMap fun k => l.filter (k = key ·)).Perm l := by
  induction keys generalizing l with
  | nil =>
    rw [List.eq_nil_iff_forall_not_mem.mpr fun x hx => List.not_mem_nil (hall x hx)]
    exact .refl []
  | cons k keys ih =>
    obtain ⟨hk, hkeys⟩ := List.nodup_cons.mp hkeys
    -- The heaps of the other keys are those of what is left without the first heap.
    have hrest : (keys.flatMap fun k' => l.filter (k' = key ·)) =
        keys.flatMap fun k' => (l.filter fun x => !decide (k = key x)).filter (k' = key ·) := by
      refine List.flatMap_congr fun k' hk' => ?_
      rw [List.filter_filter]
      refine List.filter_congr fun x _ => ?_
      by_cases hx : k' = key x
      · have hne : k ≠ key x := fun he => hk (he ▸ hx ▸ hk')
        simp [hx, hne]
      · simp [hx]
    have hleft := ih hkeys (l.filter fun x => !decide (k = key x)) fun x hx => by
      obtain ⟨hx, hne⟩ := List.mem_filter.mp hx
      have hmem := List.mem_cons.mp (hall x hx)
      exact hmem.resolve_left fun he => by simp [he] at hne
    rw [List.flatMap_cons, hrest]
    exact (hleft.append_left _).trans (List.filter_append_perm _ l)

/-- A line that relates two words by an arrow. -/
structure RelationLine where
  /-- The blanks before the word on the left. -/
  indent : List Char
  /-- The word on the left. -/
  left : List Char
  /-- The blanks before the arrow. -/
  gap : List Char
  /-- The form of the arrow. -/
  arrow : Arrow
  /-- The number of strokes that the arrow is drawn with. -/
  strokes : Nat
  /-- The blanks behind the arrow. -/
  gap' : List Char
  /-- The word on the right. -/
  right : List Char
  /-- The blanks behind the word on the right. -/
  trail : List Char
  /-- Nothing but blanks stands before the word on the left. -/
  blank_indent : ∀ c ∈ indent, isBlank c = true
  /-- The word on the left is one. -/
  isName_left : IsName left
  /-- Nothing but blanks stands before the arrow. -/
  blank_gap : ∀ c ∈ gap, isBlank c = true
  /-- An arrow has two strokes or more. -/
  two_le_strokes : 2 ≤ strokes
  /-- Nothing but blanks stands behind the arrow. -/
  blank_gap' : ∀ c ∈ gap', isBlank c = true
  /-- The word on the right is one. -/
  isName_right : IsName right
  /-- Nothing but blanks stands behind the word on the right. -/
  blank_trail : ∀ c ∈ trail, isBlank c = true

/-- The form with the same shaft and the head at the other end. -/
def Arrow.mirrored (a : Arrow) : Arrow :=
  match a.head with
  | .left => { a with head := .right }
  | .right => { a with head := .left }

namespace RelationLine

/-- What stands between the words of a line. -/
def middle (l : RelationLine) : List Char :=
  l.gap ++ (l.arrow.drawn l.strokes ++ l.gap')

/-- The text of a line. -/
def print (l : RelationLine) : List Char :=
  l.indent ++ (l.left ++ (l.middle ++ (l.right ++ l.trail)))

/-- The lines with line feeds between them. -/
def text (ls : List RelationLine) : String :=
  .ofList (['\n'].intercalate (ls.map print))

/-- What a line says, found at an offset: a solid arrow is a generalization and a dotted one a
realization, its source is the word opposite the head and its target the word at the head. -/
def edge (l : RelationLine) (offset : Nat) : Edge where
  relation :=
    match l.arrow.stroke with
    | .solid => .generalization
    | .dotted => .realization
  source :=
    match l.arrow.head with
    | .left => .ofList l.right
    | .right => .ofList l.left
  target :=
    match l.arrow.head with
    | .left => .ofList l.left
    | .right => .ofList l.right
  offset := offset

/-- The lines of a text that begins at an offset, with the offsets of their words on the left. -/
def placed (offset : Nat) : List RelationLine → List (Nat × RelationLine)
  | [] => []
  | l :: ls => (offset + units l.indent, l) :: placed (offset + (units l.print + 1)) ls

/-- The edges of the lines of a text, in the order of the lines. -/
def edges (ls : List RelationLine) : List Edge :=
  (placed 0 ls).map fun p => p.2.edge p.1

/-- A line drawn in another way: with the same arrow between the same words, or with the mirrored
arrow between the words in the other order. Its blanks and the number of its strokes may differ. -/
inductive Redrawn (l l' : RelationLine) : Prop
  /-- The words keep their sides. -/
  | kept (arrow : l'.arrow = l.arrow) (left : l'.left = l.left) (right : l'.right = l.right)
  /-- The words change their sides, and the head does too. -/
  | mirrored (arrow : l'.arrow = l.arrow.mirrored) (left : l'.left = l.right)
    (right : l'.right = l.left)

variable {a : Arrow} {l l' : RelationLine} {ls ls' : List RelationLine} {offset : Nat}

theorem joins (l : RelationLine) : l.arrow.Joins l.middle :=
  ⟨l.gap, l.strokes, l.gap', l.blank_gap, l.two_le_strokes, l.blank_gap', rfl⟩

theorem edge_eq (l : RelationLine) (offset : Nat) :
    l.edge offset = l.arrow.edge l.left l.right offset := by
  obtain ⟨indent, left, gap, ⟨stroke, head⟩⟩ := l
  cases stroke <;> cases head <;> rfl

/-! ### What the search finds -/

/-- The first character of lines other than a blank is that of a word. -/
theorem isWord_of_head?_skipBlanks (l : RelationLine) {g : List Char}
    (hg : ∀ c ∈ g, isBlank c = true) (rest : List Char) :
    ∀ c ∈ (skipBlanks (g ++ (l.print ++ rest))).head?, isWord c = true := by
  obtain ⟨d, w, hw⟩ := List.exists_cons_of_ne_nil l.isName_left.ne_nil
  have hd : isWord d = true := l.isName_left.word d (hw ▸ List.mem_cons_self)
  have hskip : skipBlanks (g ++ (l.print ++ rest)) =
      l.left ++ (l.middle ++ (l.right ++ l.trail) ++ rest) := by
    rw [print, List.append_assoc, ← List.append_assoc g, List.append_assoc l.left]
    refine skipBlanks_run (fun c hc => ?_) l.isName_left.stops_isBlank
    exact (List.mem_append.mp hc).elim (hg c) (l.blank_indent c)
  intro c hc
  rw [hskip, hw] at hc
  cases hc
  exact hd

/-- What is blank up to the end or to the next line holds no arrow. -/
theorem rightWord?_trail (l : RelationLine) (ls : List RelationLine) :
    a.rightWord? (l.trail ++ ls.flatMap fun k => '\n' :: k.print) = none := by
  refine Arrow.rightWord?_eq_none ?_
  cases ls with
  | nil =>
    have hblank : skipBlanks (l.trail ++ []) = [] := by
      rw [List.append_nil]
      exact List.dropWhile_eq_nil_iff.mpr l.blank_trail
    rw [List.flatMap_nil, hblank]
    nofun
  | cons k ks =>
    have hg : ∀ c ∈ l.trail ++ ['\n'], isBlank c = true := by
      intro c hc
      rcases List.mem_append.mp hc with hc | hc
      · exact l.blank_trail c hc
      · exact List.mem_singleton.mp hc ▸ isBlank_feed
    have hline := k.isWord_of_head?_skipBlanks hg (ks.flatMap fun k => '\n' :: k.print)
    rwa [List.append_assoc, List.singleton_append] at hline

/-- No word goes on behind the word on the right. -/
theorem stops_trail (l : RelationLine) (ls : List RelationLine) :
    Stops isWord (l.trail ++ ls.flatMap fun k => '\n' :: k.print) := by
  refine stops_append (fun c hc => ?_) fun _ => ?_
  · exact isWord_of_isBlank (l.blank_trail c (List.mem_of_mem_head? hc))
  · cases ls with
    | nil => exact stops_nil
    | cons k ks => exact stops_cons.mpr rfl

/-- The search for one form finds a line of that form, passes any other, and goes on behind it. -/
theorem scan_print (a : Arrow) (l : RelationLine) (ls : List RelationLine) (offset : Nat) :
    a.scan offset (l.print ++ ls.flatMap fun k => '\n' :: k.print) =
      (if a = l.arrow then [l.edge (offset + units l.indent)] else []) ++
        a.scan (offset + units l.print) (ls.flatMap fun k => '\n' :: k.print) := by
  have hindent : ∀ c ∈ l.indent, isWord c = false := fun c hc =>
    isWord_of_isBlank (l.blank_indent c hc)
  have htrail : ∀ c ∈ l.trail, isWord c = false := fun c hc =>
    isWord_of_isBlank (l.blank_trail c hc)
  have hstop := l.stops_trail ls
  have hnone := l.rightWord?_trail (a := a) ls
  generalize (ls.flatMap fun k => '\n' :: k.print) = rest at hstop hnone ⊢
  have hline : l.print ++ rest =
      l.indent ++ (l.left ++ (l.middle ++ (l.right ++ (l.trail ++ rest)))) := by
    simp only [print, List.append_assoc]
  rw [hline, Arrow.scan_append_of_wordless hindent,
    Arrow.scan_joins l.isName_left l.joins l.isName_right hstop hnone,
    Arrow.scan_append_of_wordless htrail, edge_eq]
  apply congrArg (_ ++ a.scan · rest)
  simp only [print, units_append]
  omega

/-- Of the lines of one form, the first is found first. -/
theorem filter_placed_cons (a : Arrow) (offset : Nat) (l : RelationLine) (ls : List RelationLine) :
    ((placed offset (l :: ls)).filter (a = ·.2.arrow)).map (fun p => p.2.edge p.1) =
      (if a = l.arrow then [l.edge (offset + units l.indent)] else []) ++
        ((placed (offset + (units l.print + 1)) ls).filter (a = ·.2.arrow)).map
          fun p => p.2.edge p.1 := by
  rw [placed, List.filter_cons]
  by_cases h : a = l.arrow
  · simp [h]
  · simp [h]

/-- The search for one form finds the lines of that form, one after the other. -/
theorem scan_lines (a : Arrow) (l : RelationLine) (ls : List RelationLine) (offset : Nat) :
    a.scan offset (l.print ++ ls.flatMap fun k => '\n' :: k.print) =
      ((placed offset (l :: ls)).filter (a = ·.2.arrow)).map fun p => p.2.edge p.1 := by
  induction ls generalizing l offset with
  | nil =>
    rw [scan_print, filter_placed_cons, List.flatMap_nil, Arrow.scan_nil]
    rfl
  | cons k ks ih =>
    have hfeed : ∀ o s, a.scan o ('\n' :: s) = a.scan (o + 1) s := fun _ _ =>
      Arrow.scan_of_not_word rfl
    rw [scan_print, filter_placed_cons, List.flatMap_cons, List.cons_append, hfeed, ih,
      Nat.add_assoc]

/-- The text of lines begins with the first line, and each of the others stands behind a line feed.
-/
theorem toList_text_cons (l : RelationLine) (ls : List RelationLine) :
    (text (l :: ls)).toList = l.print ++ ls.flatMap fun k => '\n' :: k.print := by
  have hfeed := cons_intercalate_feed l.print (ls.map print)
  rw [List.flatMap_cons, List.cons_append, List.cons.injEq, List.flatMap_map] at hfeed
  rw [text, String.toList_ofList, List.map_cons]
  exact hfeed.2

/-- The searches for all forms find the lines, if not in their order. -/
theorem edges_text_perm (ls : List RelationLine) : (Arrow.edges (text ls)).Perm (edges ls) := by
  have hscan : ∀ a : Arrow, a.scan 0 (text ls).toList =
      ((placed 0 ls).filter (a = ·.2.arrow)).map fun p => p.2.edge p.1 := by
    intro a
    cases ls with
    | nil => exact a.scan_nil 0
    | cons l ls => rw [toList_text_cons, scan_lines]
  have hall : Arrow.all.Nodup := by decide
  have hperm := flatMap_filter_perm (fun p : Nat × RelationLine => p.2.arrow) hall (placed 0 ls)
    fun p _ => p.2.arrow.mem_all
  rw [Arrow.edges, edges]
  simp only [hscan]
  rw [← List.map_flatMap]
  exact hperm.map _

theorem le_of_mem_placed {p : Nat × RelationLine} (h : p ∈ placed offset ls) : offset ≤ p.1 := by
  induction ls generalizing offset with
  | nil => cases h
  | cons l ls ih =>
    rcases List.mem_cons.mp h with rfl | h
    · exact Nat.le_add_right _ _
    · have hle := ih h
      omega

/-- The lines stand in their order. -/
theorem pairwise_edges (ls : List RelationLine) :
    (edges ls).Pairwise fun d e => d.offset < e.offset := by
  rw [edges, List.pairwise_map]
  generalize 0 = offset
  induction ls generalizing offset with
  | nil => exact .nil
  | cons l ls ih =>
    refine List.pairwise_cons.mpr ⟨fun p hp => ?_, ih _⟩
    have hle := le_of_mem_placed hp
    have hprint : units l.indent ≤ units l.print := by
      rw [print, units_append]
      exact Nat.le_add_right _ _
    exact Int.ofNat_lt.mpr (by omega)

/-- Sorted by their offsets, the edges of lines are those of the lines in their order. -/
theorem mergeSort_edges (ls : List RelationLine) :
    (Arrow.edges (text ls)).mergeSort (fun d e => d.offset ≤ e.offset) = edges ls := by
  have hlt := pairwise_edges ls
  have hsorted : (edges ls).Pairwise fun d e => d.offset ≤ e.offset := hlt.imp Int.le_of_lt
  have hperm := (List.mergeSort_perm (Arrow.edges (text ls)) fun d e => d.offset ≤ e.offset).trans
    (edges_text_perm ls)
  have horder := (Edge.InOrder.mergeSort (Arrow.edges (text ls))).ascending
  -- No two of the edges have the same offset.
  have hunique := List.Pairwise.forall_of_forall_of_flip
    (R := fun d e : Edge => d.offset ≤ e.offset → e.offset ≤ d.offset → d = e)
    (fun _ _ _ _ => rfl) (hlt.imp fun h _ hge => absurd h (Int.not_lt.mpr hge))
    (hlt.imp fun h hle _ => absurd h (Int.not_lt.mpr hle))
  exact hperm.eq_of_pairwise (fun d e hd he => hunique (hperm.mem_iff.mp hd) he) horder hsorted

/-! ### What the lines say -/

/-- However it is drawn, a line says the same. -/
theorem Redrawn.says (h : Redrawn l l') (o o' : Nat) : (l.edge o).SaysSame (l'.edge o') := by
  cases h with
  | kept arrow left right =>
    unfold edge
    rw [arrow, left, right]
    exact ⟨rfl, rfl, rfl⟩
  | mirrored arrow left right =>
    unfold edge
    rw [arrow, left, right]
    obtain ⟨indent, left, gap, ⟨stroke, head⟩⟩ := l
    cases head with
    | left | right => exact ⟨rfl, rfl, rfl⟩

/-- Lines that are drawn in another way say the same, one after the other. -/
theorem forall₂_edges (h : List.Forall₂ Redrawn ls ls') :
    List.Forall₂ Edge.SaysSame (edges ls) (edges ls') := by
  have hplaced : ∀ o o', List.Forall₂ (fun p q => Redrawn p.2 q.2) (placed o ls) (placed o' ls') := by
    induction h with
    | nil => exact fun _ _ => .nil
    | cons h _ ih => exact fun _ _ => .cons h (ih _ _)
  rw [edges, edges, List.forall₂_map_left_iff, List.forall₂_map_right_iff]
  exact (hplaced 0 0).imp fun p q h => h.says p.1 q.1

/-- Sorted by their offsets, the arrows of relation lines are one for each line in the order of the
lines, each with the relation that its shaft stands for, from the word opposite its head to the word
at its head. The relations between declared names are the same however the lines are drawn. -/
theorem mergeSort_edges_text (ls : List RelationLine) :
    (Arrow.edges (text ls)).mergeSort (fun d e => d.offset ≤ e.offset) = edges ls ∧
      ∀ ls', List.Forall₂ Redrawn ls ls' → ∀ declared,
        Relationships.ofText (text ls) declared [] = Relationships.ofText (text ls') declared [] := by
  refine ⟨mergeSort_edges ls, fun ls' h declared => ?_⟩
  have hsort : ∀ ks, Relationships.ofText (text ks) declared [] =
      ((edges ks).filter fun e => declared e.source && declared e.target).foldl
        Relationships.apply {} := by
    intro ks
    rw [Relationships.ofText, List.nil_append, Relationships.ofEdges, Relationships.effective,
      mergeSort_edges]
  rw [hsort, hsort]
  exact Relationships.foldl_filter_congr declared (forall₂_edges h)

/-- Two lines that are redrawn, the first with the mirrored arrow: the relations are the same. -/
theorem mergeSort_edges_text_mirrored : ∃ ls ls' : List RelationLine,
    text ls = "A <|-- B\nC ..|> D" ∧ text ls' = " B ---|>A \nC....|> D" ∧
      List.Forall₂ Redrawn ls ls' ∧ ∀ declared,
        Relationships.ofText "A <|-- B\nC ..|> D" declared [] =
          Relationships.ofText " B ---|>A \nC....|> D" declared [] := by
  have hname : ∀ {c : Char}, isWord c = true → IsName [c] := fun hc =>
    ⟨List.cons_ne_nil _ _, fun d hd => List.mem_singleton.mp hd ▸ hc⟩
  have hnil : ∀ c ∈ ([] : List Char), isBlank c = true := fun _ hc => absurd hc List.not_mem_nil
  have hspace := isGap_space.blank
  let first : RelationLine := ⟨[], ['A'], [' '], ⟨.solid, .left⟩, 2, [' '], ['B'], [],
    hnil, hname rfl, hspace, Nat.le_refl 2, hspace, hname rfl, hnil⟩
  let first' : RelationLine := ⟨[' '], ['B'], [' '], ⟨.solid, .right⟩, 3, [], ['A'], [' '],
    hspace, hname rfl, hspace, by decide, hnil, hname rfl, hspace⟩
  let second : RelationLine := ⟨[], ['C'], [' '], ⟨.dotted, .right⟩, 2, [' '], ['D'], [],
    hnil, hname rfl, hspace, Nat.le_refl 2, hspace, hname rfl, hnil⟩
  let second' : RelationLine := ⟨[], ['C'], [], ⟨.dotted, .right⟩, 4, [' '], ['D'], [],
    hnil, hname rfl, hnil, by decide, hspace, hname rfl, hnil⟩
  have hredrawn : List.Forall₂ Redrawn [first, second] [first', second'] :=
    .cons (.mirrored rfl rfl rfl) (.cons (.kept rfl rfl rfl) .nil)
  have htext : text [first, second] = "A <|-- B\nC ..|> D" := rfl
  have htext' : text [first', second'] = " B ---|>A \nC....|> D" := rfl
  refine ⟨[first, second], [first', second'], htext, htext', hredrawn, fun declared => ?_⟩
  rw [← htext, ← htext']
  exact (mergeSort_edges_text [first, second]).2 _ hredrawn declared

end RelationLine

end UmlDraft
