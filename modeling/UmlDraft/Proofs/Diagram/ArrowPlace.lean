import UmlDraft.Proofs.Diagram.DrawnArrow

/-!
# Where arrows stand

An arrow stands in a text where nothing but the arrow and blanks is between two whole words. All
that a search finds stands in the text. The search goes on behind the word on the right of an arrow
that it has found, and that word is not read again: an arrow is found unless the word on its left is
the word on the right of an arrow of the same form that is found. So of a chain of arrows of one
form every second one is passed.
-/

namespace UmlDraft

open Text

theorem units_pos {s : List Char} (h : s ≠ []) : 0 < units s := by
  obtain ⟨c, t, rfl⟩ := List.exists_cons_of_ne_nil h
  exact Nat.add_pos_left (width_pos c) _

/-- Two beginnings of a text are the same if they measure the same. -/
theorem eq_of_units_eq {x y z w : List Char} (h : x ++ y = z ++ w) (hu : units x = units z) :
    x = z := by
  rcases List.append_eq_append_iff.mp h with ⟨v, rfl, -⟩ | ⟨v, rfl, -⟩
  all_goals
    cases v with
    | nil => simp
    | cons c v =>
      have hv := units_pos (List.cons_ne_nil c v)
      rw [units_append] at hu
      omega

/-- A word character alone is a name. -/
theorem isName_singleton {c : Char} (h : isWord c = true) : IsName [c] :=
  ⟨List.cons_ne_nil c [], fun _ hd => List.mem_singleton.mp hd ▸ h⟩

/-- A text that is cut before and behind two words. -/
structure Place where
  /-- What stands before the words. -/
  front : List Char
  /-- The word on the left. -/
  left : List Char
  /-- What stands between the words. -/
  middle : List Char
  /-- The word on the right. -/
  right : List Char
  /-- What stands behind the words. -/
  back : List Char

namespace Place

/-- In a text, two whole words stand at the place, joined by an arrow of the form. -/
structure Stands (p : Place) (a : Arrow) (s : List Char) : Prop where
  /-- The text consists of the parts of the place. -/
  parts : s = p.front ++ (p.left ++ (p.middle ++ (p.right ++ p.back)))
  /-- The word on the left is one. -/
  left : IsName p.left
  /-- The word on the left does not begin earlier. -/
  begins : ∀ c ∈ p.front.getLast?, isWord c = false
  /-- Between the words are the arrow and blanks. -/
  joins : a.Joins p.middle
  /-- The word on the right is one. -/
  right : IsName p.right
  /-- The word on the right does not end later. -/
  ends : Stops isWord p.back

/-- The edge of the arrow at a place of a text that begins at the given offset. -/
def edge (p : Place) (a : Arrow) (offset : Nat) : Edge :=
  a.edge p.left p.right (offset + units p.front)

/-- No word leads from one text into another. -/
def Parted (x y : List Char) : Prop :=
  (∀ c ∈ x.getLast?, isWord c = false) ∨ Stops isWord y

/-- The word on the right of one place is that on the left of another. -/
def Meets (q p : Place) : Prop :=
  p.front = q.front ++ (q.left ++ q.middle)

/-- The part of the text from the word on the left to the word on the right. -/
def span (p : Place) : List Char :=
  p.left ++ (p.middle ++ p.right)

/-- The place in the text with something in front of it. -/
def behind (x : List Char) (p : Place) : Place :=
  { p with front := x ++ p.front }

variable {a b : Arrow} {o : Nat} {p q : Place} {s t w x y : List Char}

theorem offset_edge (p : Place) (a : Arrow) (o : Nat) :
    (p.edge a o).offset = (o + units p.front : Nat) := by
  unfold edge Arrow.edge
  cases a.head with
  | left | right => rfl

theorem edge_behind (p : Place) (a : Arrow) (o : Nat) (x : List Char) :
    (p.behind x).edge a o = p.edge a (o + units x) := by
  rw [edge, edge, behind, units_append, Nat.add_assoc]

theorem meets_behind : (q.behind x).Meets (p.behind x) ↔ q.Meets p := by
  rw [Meets, Meets, behind, behind, List.append_assoc, List.append_right_inj]

namespace Stands

theorem stops_middle (h : p.Stands a s) : Stops isWord (p.middle ++ (p.right ++ p.back)) :=
  h.joins.stops _

/-- No word begins where none of its characters does. -/
theorem front_ne_nil (h : p.Stands a s) (hs : Stops isWord s) : p.front ≠ [] := by
  intro hf
  obtain ⟨c, w, hw⟩ := List.exists_cons_of_ne_nil h.left.ne_nil
  rw [h.parts, hf, hw] at hs
  have hc := h.left.word c (hw ▸ List.mem_cons_self)
  rw [stops_cons.mp hs] at hc
  cases hc

/-- A place stands behind any text from which no word leads into its own. -/
theorem behind (h : p.Stands a y) (hx : Parted x y) :
    (p.behind x).Stands a (x ++ y) where
  parts := by
    rw [h.parts]
    exact (List.append_assoc _ _ _).symm
  left := h.left
  begins := by
    cases hf : p.front.getLast? with
    | none =>
      rw [List.getLast?_eq_none_iff] at hf
      rw [Place.behind, hf, List.append_nil]
      exact hx.resolve_right fun hy => h.front_ne_nil hy hf
    | some d =>
      rw [Place.behind, List.getLast?_append, hf, Option.some_or, ← hf]
      exact h.begins
  joins := h.joins
  right := h.right
  ends := h.ends

/-- A place with a given text in front of it stands in what follows that text. -/
theorem of_prefix (h : p.Stands a (x ++ y)) (hx : x <+: p.front) :
    ∃ q : Place, q.Stands a y ∧ p = q.behind x := by
  obtain ⟨front, hfront⟩ := hx
  refine ⟨{ p with front := front }, ⟨?_, h.left, ?_, h.joins, h.right, h.ends⟩, ?_⟩
  · have hparts := h.parts
    rw [← hfront, List.append_assoc, List.append_right_inj] at hparts
    exact hparts
  · exact fun c hc => h.begins c (mem_getLast?_of_suffix ⟨x, hfront⟩ hc)
  · rw [Place.behind, hfront]

/-- No place begins in a part without words. -/
theorem of_wordless (h : p.Stands a (x ++ y)) (hx : ∀ c ∈ x, isWord c = false) :
    ∃ q : Place, q.Stands a y ∧ p = q.behind x := by
  refine h.of_prefix ?_
  rcases List.append_eq_append_iff.mp h.parts.symm with ⟨z, hz, he⟩ | ⟨z, hz, -⟩
  · cases z with
    | nil => exact ⟨[], by simpa using hz⟩
    | cons c z =>
      obtain ⟨d, w, hw⟩ := List.exists_cons_of_ne_nil h.left.ne_nil
      rw [hw, List.cons_append, List.cons_append, List.cons.injEq] at he
      have hd := h.left.word d (hw ▸ List.mem_cons_self)
      rw [he.1, hx c (hz ▸ List.mem_append_right _ List.mem_cons_self)] at hd
      cases hd
  · exact ⟨z, hz.symm⟩

/-- A place begins at the first word of a text or behind it. -/
theorem of_word (h : p.Stands a (w ++ t)) (hw : ∀ c ∈ w, isWord c = true) :
    p.front = [] ∨ ∃ q : Place, q.Stands a t ∧ p = q.behind w := by
  rcases List.append_eq_append_iff.mp h.parts.symm with ⟨z, hz, -⟩ | ⟨z, hz, -⟩
  · refine .inl ?_
    cases hf : p.front.getLast? with
    | none => exact List.getLast?_eq_none_iff.mp hf
    | some c =>
      have hc := hw c (hz ▸ List.mem_append_left z (List.mem_of_getLast? hf))
      rw [h.begins c hf] at hc
      cases hc
  · exact .inr (h.of_prefix ⟨z, hz.symm⟩)

/-- The word on the left is the first of the text where nothing stands before it. -/
theorem eq_of_front (h : p.Stands a (w ++ t)) (hw : ∀ c ∈ w, isWord c = true)
    (ht : Stops isWord t) (hf : p.front = []) : t = p.middle ++ (p.right ++ p.back) := by
  have hparts := congrArg afterWord h.parts
  rwa [afterWord_run hw ht, hf, List.nil_append, afterWord_run h.left.word h.stops_middle]
    at hparts

theorem span_ne_nil (h : p.Stands a s) : p.span ≠ [] :=
  List.append_ne_nil_of_left_ne_nil h.left.ne_nil _

theorem eq_span_append (h : p.Stands a s) (hf : p.front = []) : s = p.span ++ p.back := by
  rw [h.parts, hf, span, List.nil_append, List.append_assoc, List.append_assoc]

theorem length_back_lt (h : p.Stands a s) (hf : p.front = []) : p.back.length < s.length := by
  rw [h.eq_span_append hf]
  exact length_lt_append h.span_ne_nil p.back

/-- A place in what follows the words of the first place stands in the text. -/
theorem behind_span (h : p.Stands a s) (hf : p.front = []) (hq : q.Stands a p.back) :
    (q.behind p.span).Stands a s := by
  rw [h.eq_span_append hf]
  exact hq.behind (.inr h.ends)

/-- Where a place begins, it has one form and one pair of words. -/
theorem unique (hp : p.Stands a s) (hq : q.Stands b s) (hf : p.front = q.front) :
    a = b ∧ p = q := by
  have hparts := hp.parts.symm.trans hq.parts
  rw [hf, List.append_right_inj] at hparts
  have hleft := congrArg leadingWord hparts
  rw [leadingWord_run hp.left.word hp.stops_middle, leadingWord_run hq.left.word hq.stops_middle]
    at hleft
  rw [hleft, List.append_right_inj] at hparts
  have hmiddle := congrArg (List.takeWhile fun c => !isWord c) hparts
  rw [hp.joins.takeWhile_eq hp.right, hq.joins.takeWhile_eq hq.right] at hmiddle
  rw [hmiddle, List.append_right_inj] at hparts
  have hright := congrArg leadingWord hparts
  rw [leadingWord_run hp.right.word hp.ends, leadingWord_run hq.right.word hq.ends] at hright
  rw [hright, List.append_right_inj] at hparts
  refine ⟨hp.joins.unique (hmiddle ▸ hq.joins), ?_⟩
  obtain ⟨front, left, middle, right, back⟩ := p
  cases hf
  cases hleft
  cases hmiddle
  cases hright
  cases hparts
  rfl

end Stands

/-! ### What the search finds -/

/-- A step of the search for a form in a text. -/
inductive Step (a : Arrow) (s : List Char) : Prop where
  /-- It passes a part of the text in which no place begins. -/
  | passes {x y : List Char} (hs : s = x ++ y) (hx : x ≠ []) (hparted : Parted x y)
    (hscan : ∀ o, a.scan o s = a.scan (o + units x) y)
    (hplaces : ∀ p : Place, p.Stands a s → ∃ q : Place, q.Stands a y ∧ p = q.behind x)
  /-- It finds a place where the text begins, and the search goes on behind the words. -/
  | finds {q : Place} (hq : q.Stands a s) (hfront : q.front = [])
    (hscan : ∀ o, a.scan o s = q.edge a o :: a.scan (o + units q.span) q.back)

/-- The search takes such steps until the text ends. -/
theorem step_of_ne_nil (a : Arrow) (hs : s ≠ []) : Step a s := by
  obtain ⟨c, rest, rfl⟩ := List.exists_cons_of_ne_nil hs
  cases hc : isWord c with
  | false =>
    have hx : ∀ d ∈ [c], isWord d = false := fun d hd => List.mem_singleton.mp hd ▸ hc
    exact .passes (x := [c]) rfl (List.cons_ne_nil c [])
      (.inl fun d hd => hx d (List.mem_of_getLast? hd)) (fun o => Arrow.scan_of_not_word hc)
      fun p hp => Stands.of_wordless hp hx
  | true =>
    have hcut := (leadingWord_append_afterWord (c :: rest)).symm
    have hname : IsName (leadingWord (c :: rest)) := by
      apply isName_leadingWord
      rw [leadingWord, List.takeWhile_cons_of_pos hc]
      exact List.cons_ne_nil c _
    have hstop : Stops isWord (afterWord (c :: rest)) := stops_dropWhile isWord _
    generalize leadingWord (c :: rest) = w, afterWord (c :: rest) = t at hcut hname hstop
    rw [hcut]
    cases hr : a.rightWord? t with
    | none =>
      refine .passes rfl hname.ne_nil (.inr hstop) (fun o => Arrow.scan_of_none hname hstop hr)
        fun p hp => (hp.of_word hname.word).resolve_left fun hf => ?_
      rw [hp.eq_of_front hname.word hstop hf, Arrow.rightWord?_of_joins hp.joins hp.right] at hr
      cases hr
    | some r =>
      obtain ⟨middle, rfl, hjoins, hright⟩ := Arrow.exists_joins_of_rightWord? hr
      have hback : Stops isWord (afterWord r) := stops_dropWhile isWord r
      have hcut' := (leadingWord_append_afterWord r).symm
      generalize leadingWord r = v, afterWord r = u at hcut' hright hback
      subst hcut'
      refine .finds (q := ⟨[], w, middle, v, u⟩) ⟨rfl, hname, by simp, hjoins, hright, hback⟩ rfl
        fun o => ?_
      have hspan : w ++ (middle ++ (v ++ u)) = (w ++ (middle ++ v)) ++ u := by
        simp only [List.append_assoc]
      rw [Arrow.scan_of_some hname hstop hr hright hback, hspan, units_append, Nat.add_sub_cancel]
      rfl

/-- All that a search finds stands in the text. -/
theorem exists_of_mem_scan {e : Edge} (he : e ∈ a.scan o s) :
    ∃ p : Place, p.Stands a s ∧ e = p.edge a o := by
  induction hn : s.length using Nat.strongRecOn generalizing s o with
  | ind n ih =>
    have hs : s ≠ [] := by
      rintro rfl
      rw [Arrow.scan_nil] at he
      cases he
    cases step_of_ne_nil a hs with
    | @passes x y hs hx hparted hscan =>
      subst hs
      rw [hscan] at he
      obtain ⟨p, hp, rfl⟩ := ih _ (hn ▸ length_lt_append hx y) he rfl
      exact ⟨p.behind x, hp.behind hparted, (edge_behind p a o x).symm⟩
    | @finds q hq hf hscan =>
      rw [hscan] at he
      rcases List.mem_cons.mp he with rfl | he
      · exact ⟨q, hq, rfl⟩
      · obtain ⟨p, hp, rfl⟩ := ih _ (hn ▸ hq.length_back_lt hf) he rfl
        exact ⟨p.behind q.span, hq.behind_span hf hp, (edge_behind p a o q.span).symm⟩

/-- What a search finds, it finds no earlier than where it begins. -/
theorem le_offset_of_mem_scan {e : Edge} (he : e ∈ a.scan o s) : (o : Int) ≤ e.offset := by
  obtain ⟨p, -, rfl⟩ := exists_of_mem_scan he
  rw [offset_edge]
  omega

/-- A place begins with the first one of a text, at its word on the right or behind its words. -/
theorem Stands.cases_of_first (hp : p.Stands a s) (hq : q.Stands a s) (hf : q.front = []) :
    p = q ∨ q.Meets p ∨ ∃ r : Place, r.Stands a q.back ∧ p = r.behind q.span := by
  have hs := hq.parts
  rw [hf, List.nil_append] at hs
  rcases (hs ▸ hp : p.Stands a _).of_word hq.left.word with hfront | ⟨p₁, hp₁, rfl⟩
  · exact .inl (hp.unique hq (hfront.trans hf.symm)).2
  · obtain ⟨p₂, hp₂, rfl⟩ := hp₁.of_wordless hq.joins.wordless
    rcases hp₂.of_word hq.right.word with hfront | ⟨r, hr, rfl⟩
    · refine .inr (.inl ?_)
      simp only [Meets, Place.behind, hf, hfront, List.nil_append, List.append_nil]
    · refine .inr (.inr ⟨r, hr, ?_⟩)
      simp only [Place.behind, span, List.append_assoc]

/-- A word that has been read on the right is not read again on the left. -/
theorem not_mem_scan_of_meets (hq : q.Stands a s) (hf : q.front = []) (hm : q.Meets p)
    (hscan : a.scan o s = q.edge a o :: a.scan (o + units q.span) q.back) :
    p.edge a o ∉ a.scan o s := by
  have hleft := units_pos hq.left.ne_nil
  have hright := units_pos hq.right.ne_nil
  have hfront := congrArg units hm
  rw [hf, List.nil_append, units_append] at hfront
  rw [hscan, List.mem_cons, not_or]
  constructor
  · intro he
    have hoffset := congrArg Edge.offset he
    rw [offset_edge, offset_edge, hf, units_nil] at hoffset
    omega
  · intro he
    have hle := le_offset_of_mem_scan he
    rw [offset_edge, span, units_append, units_append] at hle
    omega

/-- Behind the words of the first arrow, the search finds what it finds in the rest of the text. -/
theorem Stands.mem_scan_behind (hq : q.Stands a s) (hf : q.front = [])
    (hscan : a.scan o s = q.edge a o :: a.scan (o + units q.span) q.back) :
    (p.behind q.span).edge a o ∈ a.scan o s ↔
      p.edge a (o + units q.span) ∈ a.scan (o + units q.span) q.back := by
  rw [edge_behind, hscan, List.mem_cons, or_iff_right]
  intro he
  have hspan := units_pos hq.span_ne_nil
  have hoffset := congrArg Edge.offset he
  rw [offset_edge, offset_edge, hf, units_nil] at hoffset
  omega

/-- No place behind the words of another meets it. -/
theorem Stands.not_meets_behind (hq : q.Stands a s) (hf : q.front = []) :
    ¬ q.Meets (p.behind q.span) := by
  intro hm
  have hright := List.length_pos_iff.mpr hq.right.ne_nil
  have hlength := congrArg List.length hm
  simp only [Place.behind, span, hf, List.nil_append, List.length_append] at hlength
  omega

/-- The search finds a place unless it finds one that the place meets. -/
theorem mem_scan_iff (hp : p.Stands a s) (o : Nat) :
    p.edge a o ∈ a.scan o s ↔
      ∀ q : Place, q.Stands a s → q.Meets p → q.edge a o ∉ a.scan o s := by
  induction hn : s.length using Nat.strongRecOn generalizing s o p with
  | ind n ih =>
    have hs : s ≠ [] := by
      rintro rfl
      have hnil := hp.parts
      simp [hp.left.ne_nil] at hnil
    cases step_of_ne_nil a hs with
    | @passes x y hs hx hparted hscan hskip =>
      -- No place begins in the part that is passed, so all of them begin behind it.
      subst hs
      obtain ⟨p, hp', rfl⟩ := hskip p hp
      rw [edge_behind, hscan, ih _ (hn ▸ length_lt_append hx y) hp' _ rfl]
      constructor
      · intro h q hq hm
        obtain ⟨q, hq', rfl⟩ := hskip q hq
        rw [edge_behind]
        exact h q hq' (meets_behind.mp hm)
      · intro h q hq hm
        rw [← edge_behind]
        exact h (q.behind x) (hq.behind hparted) (meets_behind.mpr hm)
    | @finds r hr hf hscan =>
      have hfound : r.edge a o ∈ a.scan o s := hscan o ▸ List.mem_cons_self
      rcases hp.cases_of_first hr hf with rfl | hm | ⟨p, hp', rfl⟩
      · refine iff_of_true hfound fun q hq hm => ?_
        have hnil := hf.symm.trans hm
        simp [hq.left.ne_nil] at hnil
      · exact iff_of_false (not_mem_scan_of_meets hr hf hm (hscan o)) fun h => h r hr hm hfound
      · have hback := fun q => hr.mem_scan_behind (p := q) hf (hscan o)
        rw [hback, ih _ (hn ▸ hr.length_back_lt hf) hp' _ rfl]
        constructor
        · intro h q hq hm
          rcases hq.cases_of_first hr hf with rfl | hm' | ⟨q, hq', rfl⟩
          · exact absurd hm (hr.not_meets_behind hf)
          · exact not_mem_scan_of_meets hr hf hm' (hscan o)
          · rw [hback]
            exact h q hq' (meets_behind.mp hm)
        · intro h q hq hm
          rw [← hback]
          exact h (q.behind r.span) (hr.behind_span hf hq) (meets_behind.mpr hm)

end Place

namespace Arrow

theorem mem_all (a : Arrow) : a ∈ all := by
  obtain ⟨stroke, head⟩ := a
  cases stroke <;> cases head <;> decide

/-- The arrow at a place is found by the search for its form only. -/
theorem mem_edges_iff_mem_scan {source : String} {p : Place} (hp : p.Stands a source.toList) :
    p.edge a 0 ∈ edges source ↔ p.edge a 0 ∈ a.scan 0 source.toList := by
  constructor
  · intro he
    obtain ⟨b, -, hb⟩ := List.mem_flatMap.mp he
    obtain ⟨q, hq, heq⟩ := Place.exists_of_mem_scan hb
    have hoffset := congrArg Edge.offset heq
    rw [Place.offset_edge, Place.offset_edge] at hoffset
    have hfront : p.front = q.front :=
      eq_of_units_eq (hp.parts.symm.trans hq.parts) (by omega)
    obtain ⟨rfl, -⟩ := hp.unique hq hfront
    exact hb
  · exact fun he => List.mem_flatMap.mpr ⟨a, a.mem_all, he⟩

/-- An arrow is found exactly if the word on its left is not the word on the right of an arrow of
the same form that is found. -/
theorem mem_edges_iff {source : String} {p : Place} (hp : p.Stands a source.toList) :
    p.edge a 0 ∈ edges source ↔
      ∀ q : Place, q.Stands a source.toList → q.Meets p → q.edge a 0 ∉ edges source := by
  rw [mem_edges_iff_mem_scan hp, Place.mem_scan_iff hp]
  refine forall_congr' fun q => forall_congr' fun hq => ?_
  rw [mem_edges_iff_mem_scan hq]

/-- Three names in a chain of two arrows. -/
def chain : String :=
  "A <|-- B <|-- C"

/-- An arrow of the chain, between spaces. -/
def chainMiddle : List Char :=
  [' '] ++ (drawn ⟨.solid, .left⟩ 2 ++ [' '])

/-- The place of the first arrow of the chain. -/
def chainFirst : Place where
  front := []
  left := ['A']
  middle := chainMiddle
  right := ['B']
  back := chainMiddle ++ ['C']

/-- The place of the second arrow of the chain. -/
def chainSecond : Place where
  front := 'A' :: chainMiddle
  left := ['B']
  middle := chainMiddle
  right := ['C']
  back := []

theorem joins_chainMiddle : Joins ⟨.solid, .left⟩ chainMiddle :=
  ⟨[' '], 2, [' '], isGap_space.blank, Nat.le_refl 2, isGap_space.blank, rfl⟩

theorem stands_chainFirst : chainFirst.Stands ⟨.solid, .left⟩ chain.toList where
  parts := rfl
  left := isName_singleton rfl
  begins := nofun
  joins := joins_chainMiddle
  right := isName_singleton rfl
  ends := joins_chainMiddle.stops ['C']

theorem stands_chainSecond : chainSecond.Stands ⟨.solid, .left⟩ chain.toList where
  parts := rfl
  left := isName_singleton rfl
  begins := by
    rintro c ⟨⟩
    rfl
  joins := joins_chainMiddle
  right := isName_singleton rfl
  ends := stops_nil

/-- The first arrow of a chain is found, so the second is passed. -/
theorem not_mem_edges_chain :
    chainSecond.Stands ⟨.solid, .left⟩ chain.toList ∧
      chainSecond.edge ⟨.solid, .left⟩ 0 ∉ edges chain := by
  have hfirst : chainFirst.edge ⟨.solid, .left⟩ 0 ∈ edges chain := by
    refine (mem_edges_iff stands_chainFirst).mpr fun q hq hm => ?_
    have hnil : [] = q.front ++ (q.left ++ q.middle) := hm
    simp [hq.left.ne_nil] at hnil
  exact ⟨stands_chainSecond, fun he =>
    (mem_edges_iff stands_chainSecond).mp he chainFirst stands_chainFirst rfl hfirst⟩

/-- An arrow that stands in a text need not be found at all. -/
theorem exists_arrow_missed :
    ¬ ∀ (a : Arrow) (source : String) (p : Place), p.Stands a source.toList →
      ∃ offset, a.edge p.left p.right offset ∈ edges source := by
  intro h
  have hedges : edges chain = [⟨.generalization, "B", "A", 0⟩] := by decide +kernel
  obtain ⟨offset, he⟩ := h ⟨.solid, .left⟩ chain chainSecond stands_chainSecond
  rw [hedges, List.mem_singleton] at he
  have hsource : "C" = "B" := congrArg Edge.source he
  exact absurd hsource (by decide)

end Arrow

end UmlDraft
