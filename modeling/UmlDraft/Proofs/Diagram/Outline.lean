import Mathlib.Data.List.Forall2
import UmlDraft.Proofs.Diagram.ClauseGrammar
import UmlDraft.Proofs.Diagram.Comment
import UmlDraft.Proofs.Table

/-!
# Outlines by place

What an outline says can be told from the places of its text: a header occurs at a place, its
opening brace stands at another, and the span of a declaration runs from the first to the brace
that balances the second. Main statement: an outline is what one list of disjoint spans gives, and
no header outside those spans has a body that ends.
-/

namespace UmlDraft.Outline

open Text

/-- The part of a text from one place up to another. -/
def slice (s : List Char) (p q : Nat) : List Char :=
  (s.take q).drop p

/-- A header occurs at a place and has its opening brace at another. -/
structure HeaderAt (s : List Char) (p o : Nat) : Prop where
  /-- No word is under way where the header begins. -/
  free : ∀ c ∈ (s.take p).getLast?, isWord c = false
  /-- The opening brace stands in the text. -/
  lt_length : o < s.length
  /-- The text from the one place up to and including the other is a header text. -/
  divides : ∃ h : Header, h.Divides (slice s p (o + 1))

/-- No later brace closes what a brace at the given place opens. -/
def Unclosed (s : List Char) (o : Nat) : Prop :=
  ∀ c, o < c → s[c]? = some '}' → ¬ Balanced (slice s (o + 1) c)

/-- The places of a declaration and what its header says. -/
structure Span where
  /-- Where the header begins. -/
  start : Nat
  /-- Where the opening brace stands. -/
  opening : Nat
  /-- Where the closing brace stands. -/
  closing : Nat
  /-- What the header says. -/
  header : Header
  deriving DecidableEq, Repr

namespace Span

/-- The text between the braces. -/
def body (s : List Char) (x : Span) : List Char :=
  slice s (x.opening + 1) x.closing

/-- The declared name. -/
def name (x : Span) : String :=
  .ofList x.header.name

/-- The declaration that a span gives. Its line counts the line feeds before the span. -/
def declaration (s : List Char) (x : Span) : Declaration where
  name := x.name
  kind := x.header.kind
  body := .ofList (x.body s)
  attributes := []
  methods := []
  line := (1 + (s.take x.start).count '\n' : Nat)

/-- The clauses of the header declare edges, all from the declared name and at the place where the
span begins: one to the name that they extend, and behind it one to each name that they implement,
in order. -/
inductive ClauseEdges (s : List Char) (x : Span) : List Edge → Prop
  /-- The edges to the name that is extended, if any, and to those that are implemented. -/
  | intro {parent : Option (List Char)} {interfaces : List (List Char)}
      (hp : Header.Extends x.header.clauses parent)
      (hi : Header.Implements x.header.clauses interfaces) :
      ClauseEdges s x
        (parent.toList.map (fun target =>
            ⟨.generalization, x.name, .ofList target, units (s.take x.start)⟩) ++
          interfaces.map fun target =>
            ⟨.realization, x.name, .ofList target, units (s.take x.start)⟩)

/-- A span of a text runs from a header to the first brace that balances its opening one. -/
structure IsIn (s : List Char) (x : Span) : Prop where
  /-- A header occurs where the span begins. -/
  headerAt : HeaderAt s x.start x.opening
  /-- The header is what its text captures. -/
  captures : x.header.Captures (slice s x.start (x.opening + 1))
  /-- The opening brace comes before the closing one. -/
  lt : x.opening < x.closing
  /-- The last character of the span is a closing brace. -/
  closes : s[x.closing]? = some '}'
  /-- What stands between the braces is balanced. -/
  balanced : Balanced (x.body s)
  /-- No earlier brace closes the body. -/
  first : ∀ c, x.opening < c → c < x.closing → s[c]? = some '}' →
    ¬ Balanced (slice s (x.opening + 1) c)

end Span

/-- The entries of a list that occur earlier in it, or among those seen before. -/
def repeated (seen : List String) : List String → List String
  | [] => []
  | n :: rest => if n ∈ seen then n :: repeated seen rest else repeated (n :: seen) rest

/-- The entries of a list whose name no later entry has. -/
def latest {α : Type} (name : α → String) : List α → List α
  | [] => []
  | x :: rest => if name x ∈ rest.map name then latest name rest else x :: latest name rest

section Places

variable {s : List Char} {o : Occurrence} {before text after : List Char}

/-- The places of an occurrence in the text that it was found in. -/
def Occurrence.span (s : List Char) (o : Occurrence) : Span where
  start := s.length - o.start.length
  opening := s.length - o.start.length + o.start.idxOf '{'
  closing := s.length - o.start.length + o.start.idxOf '{' + 1 + o.body.length
  header := o.header

theorem slice_append (a b c : List Char) :
    slice (a ++ (b ++ c)) a.length (a.length + b.length) = b := by
  rw [slice, ← List.append_assoc, ← List.length_append, List.take_left, List.drop_left]

/-- The places of an occurrence count the characters of the parts that it divides the text into. -/
theorem Occurrence.Stands.span_eq (h : o.Stands text after) (hs : s = before ++ o.start) :
    ∃ t, text = t ++ ['{'] ∧ o.span s =
      ⟨before.length, before.length + t.length, before.length + t.length + 1 + o.body.length,
        o.header⟩ := by
  obtain ⟨t, rfl, ht⟩ := h.captures.divides.eq_append_open
  have hidx : o.start.idxOf '{' = t.length := by
    rw [h.start_eq, List.append_assoc, List.idxOf_append, if_neg ht, List.singleton_append,
      List.idxOf_cons_self, Nat.zero_add]
  have hlen : s.length - o.start.length = before.length := by
    rw [hs, List.length_append, Nat.add_sub_cancel]
  exact ⟨t, rfl, by rw [Occurrence.span, hidx, hlen]⟩

/-- A slice up to a later place continues one up to an earlier place. -/
theorem slice_concat_prefix {p c d : Nat} {a : Char} (hp : p ≤ c) (hc : c < d)
    (ha : s[c]? = some a) : slice s p c ++ [a] <+: slice s p d := by
  obtain ⟨hlen, rfl⟩ := List.getElem?_eq_some_iff.mp ha
  have hle : p ≤ (s.take c).length := by
    rw [List.length_take]
    omega
  have hle' : p ≤ (s.take (c + 1)).length := by
    rw [List.length_take]
    omega
  have hnext : slice s p c ++ [s[c]] = (s.take (c + 1)).drop p := by
    rw [slice, List.take_add_one, ha, List.drop_append_of_le_length hle]
    rfl
  obtain ⟨x, hx⟩ := List.take_prefix_take_left (l := s) hc
  refine ⟨x, ?_⟩
  rw [hnext, slice, ← hx, List.drop_append_of_le_length hle']

theorem Occurrence.Stands.body_span (h : o.Stands text after) (hs : s = before ++ o.start) :
    (o.span s).body s = o.body := by
  obtain ⟨t, rfl, hspan⟩ := h.span_eq hs
  have hlist : s = before ++ (t ++ ['{']) ++ (o.body ++ '}' :: after) := by
    rw [hs, h.start_eq, List.append_assoc before]
  have hlen : (before ++ (t ++ ['{'])).length = before.length + t.length + 1 := by
    simp only [List.length_append, List.length_singleton, Nat.add_assoc]
  have hbody := slice_append (before ++ (t ++ ['{'])) o.body ('}' :: after)
  rw [← hlist, hlen] at hbody
  rw [hspan]
  exact hbody

/-- The span of a declaration that stands in a text is a span of the text. -/
theorem Occurrence.Stands.isIn (h : o.Stands text after) (hs : s = before ++ o.start)
    (hw : wordBehind false before = false) : (o.span s).IsIn s := by
  have hbody := h.body_span hs
  obtain ⟨t, rfl, hspan⟩ := h.span_eq hs
  have hheader : slice s before.length (before.length + t.length + 1) = t ++ ['{'] := by
    have := slice_append before (t ++ ['{']) (o.body ++ '}' :: after)
    rw [List.length_append, ← h.start_eq, ← hs] at this
    exact this
  have hlist : s = before ++ (t ++ ['{']) ++ (o.body ++ '}' :: after) := by
    rw [hs, h.start_eq, List.append_assoc before]
  have hlen : (before ++ (t ++ ['{'])).length = before.length + t.length + 1 := by
    simp only [List.length_append, List.length_singleton, Nat.add_assoc]
  have hclose : s[before.length + t.length + 1 + o.body.length]? = some '}' := by
    rw [hlist, ← List.append_assoc, ← hlen, ← List.length_append,
      List.getElem?_append_right (Nat.le_refl _), Nat.sub_self]
    rfl
  rw [hspan] at hbody ⊢
  refine ⟨⟨?_, ?_, ?_⟩, ?_, ?_, hclose, ?_, ?_⟩
  · rw [hs, List.take_left]
    exact wordBehind_false_iff.mp hw
  · have := congrArg List.length hlist
    simp only [List.length_append, List.length_cons, List.length_nil] at this ⊢
    omega
  · exact ⟨o.header, by simpa only [hheader] using h.captures.divides⟩
  · simpa only [hheader] using h.captures
  · simp only
    omega
  · rw [hbody]
    exact h.balanced
  · intro c ho hc ha hb
    -- The brace would stand behind a balanced beginning of the balanced body.
    apply hb.not_prefix h.balanced
    rw [← hbody]
    exact slice_concat_prefix ho hc ha

theorem Occurrence.Stands.start_add (h : o.Stands text after) (hs : s = before ++ o.start) :
    (o.span s).start + o.start.length = s.length := by
  obtain ⟨t, -, hspan⟩ := h.span_eq hs
  rw [hspan, hs, List.length_append]

theorem Occurrence.Stands.closing_add (h : o.Stands text after) (hs : s = before ++ o.start) :
    (o.span s).closing + 1 + after.length = s.length := by
  obtain ⟨t, rfl, hspan⟩ := h.span_eq hs
  rw [hspan, hs, h.start_eq]
  simp only [List.length_append, List.length_cons, List.length_nil]
  omega

theorem drop_eq_slice_append {p q : Nat} (hp : p ≤ q) (hq : q ≤ s.length) :
    s.drop p = slice s p q ++ s.drop q := by
  have hle : p ≤ (s.take q).length := by
    rw [List.length_take]
    omega
  rw [slice, ← List.drop_append_of_le_length hle, List.take_append_drop]

/-- A header that occurs at a place is read there. -/
theorem HeaderAt.read? {p q : Nat} (h : HeaderAt s p q) :
    p ≤ q ∧ ∃ g, Header.read? (s.drop p) = some (g, s.drop (q + 1)) := by
  obtain ⟨g, hd⟩ := h.divides
  obtain ⟨t, ht, -⟩ := hd.eq_append_open
  have hpq : p ≤ q := by
    have := congrArg List.length ht
    simp only [slice, List.length_drop, List.length_take, List.length_append,
      List.length_singleton] at this
    omega
  refine ⟨hpq, ?_⟩
  rw [drop_eq_slice_append (Nat.le_succ_of_le hpq) h.lt_length]
  exact hd.read? _

end Places

/-- The spans of a text in order. -/
def spans (s : List Char) : List Span :=
  (occurrences false s).map (Occurrence.span s)

section Spans

variable {s : List Char}

theorem isIn_of_mem_spans {x : Span} (hx : x ∈ spans s) : x.IsIn s := by
  obtain ⟨o, ho, rfl⟩ := List.mem_map.mp hx
  obtain ⟨before, text, after, hs, hw, hst⟩ := exists_stands_of_mem ho
  exact hst.isIn hs hw

/-- A span ends before the next one begins. -/
theorem spans_pairwise (s : List Char) : (spans s).Pairwise fun x y => x.closing < y.start := by
  refine List.pairwise_map.mpr ((occurrences_pairwise false s).imp_of_mem ?_)
  rintro o o' ho ho' ⟨text, after, hst, hsuf⟩
  obtain ⟨before, -, -, hs, -, -⟩ := exists_stands_of_mem ho
  obtain ⟨before', text', after', hs', -, hst'⟩ := exists_stands_of_mem ho'
  have hclose := hst.closing_add hs
  have hstart := hst'.start_add hs'
  have hlen := hsuf.length_le
  omega

/-- A header that no span covers has a body that never ends. -/
theorem unclosed_of_outside {p q : Nat} (h : HeaderAt s p q)
    (hout : ∀ x ∈ spans s, p < x.start ∨ x.closing < p) : Unclosed s q := by
  intro c hq hc hb
  obtain ⟨hpq, g, hr⟩ := h.read?
  obtain ⟨hlen, hget⟩ := List.getElem?_eq_some_iff.mp hc
  have hbody : bodyEnd? 0 (s.drop (q + 1)) = some (slice s (q + 1) c, s.drop (c + 1)) := by
    refine bodyEnd?_eq_some_iff.mpr ⟨?_, hb⟩
    rw [drop_eq_slice_append hq (Nat.le_of_lt hlen), List.drop_eq_getElem_cons hlen, hget]
  obtain ⟨o, ho, text, after, hst, hsuf, hlt⟩ := exists_covering
    (List.take_append_drop p s).symm (wordBehind_false_iff.mpr h.free) hr hbody
  obtain ⟨before, -, -, hs, -, -⟩ := exists_stands_of_mem ho
  have hclose := hst.closing_add hs
  have hstart := hst.start_add hs
  have hle := hsuf.length_le
  rw [List.length_drop] at hlt hle
  rcases hout _ (List.mem_map_of_mem ho) with hlow | hhigh
  · omega
  · omega

end Spans

section Names

variable {α β : Type} {name : α → String}

/-- Names that differ are not repeated. -/
theorem repeated_of_nodup {seen names : List String} (h : names.Nodup)
    (hs : ∀ n ∈ names, n ∉ seen) : repeated seen names = [] := by
  induction names generalizing seen with
  | nil => rfl
  | cons n names ih =>
    obtain ⟨hn, hnames⟩ := List.nodup_cons.mp h
    rw [repeated, if_neg (hs n List.mem_cons_self)]
    refine ih hnames fun m hm => ?_
    rw [List.mem_cons, not_or]
    refine ⟨?_, hs m (List.mem_cons_of_mem n hm)⟩
    rintro rfl
    exact hn hm

theorem repeated_congr {seen seen' : List String} (h : ∀ n, n ∈ seen ↔ n ∈ seen')
    (l : List String) : repeated seen l = repeated seen' l := by
  induction l generalizing seen seen' with
  | nil => rfl
  | cons n l ih =>
    have hcons : ∀ m, m ∈ n :: seen ↔ m ∈ n :: seen' := fun m => by
      rw [List.mem_cons, List.mem_cons, h]
    rw [repeated, repeated, if_congr (h n) rfl rfl, ih h, ih hcons]

/-- Among the entries of a longer list, those of its front count as seen before. -/
theorem repeated_append (seen l r : List String) :
    repeated seen (l ++ r) = repeated seen l ++ repeated (l ++ seen) r := by
  induction l generalizing seen with
  | nil => rfl
  | cons n l ih =>
    have hmiddle : ∀ m, m ∈ l ++ n :: seen ↔ m ∈ n :: l ++ seen := fun m => by
      simp only [List.mem_append, List.mem_cons, List.cons_append]
      exact or_left_comm
    rw [List.cons_append, repeated, repeated]
    by_cases hn : n ∈ seen
    · have hseen : ∀ m, m ∈ l ++ seen ↔ m ∈ n :: l ++ seen := fun m => by
        rw [List.cons_append, List.mem_cons]
        constructor
        · exact Or.inr
        · rintro (rfl | hm)
          · exact List.mem_append_right l hn
          · exact hm
      rw [if_pos hn, if_pos hn, ih, List.cons_append, repeated_congr hseen]
    · rw [if_neg hn, if_neg hn, ih, repeated_congr hmiddle]

theorem repeated_concat (seen l : List String) (n : String) :
    repeated seen (l ++ [n]) = repeated seen l ++ if n ∈ seen ∨ n ∈ l then [n] else [] := by
  have hiff : n ∈ l ++ seen ↔ n ∈ seen ∨ n ∈ l := by rw [List.mem_append, or_comm]
  rw [repeated_append, repeated, repeated, repeated, if_congr hiff rfl rfl]

/-- An entry is repeated as often as it occurs, but once less if it was not seen before. -/
theorem count_repeated (seen l : List String) (n : String) :
    (repeated seen l).count n = if n ∈ seen then l.count n else l.count n - 1 := by
  induction l generalizing seen with
  | nil => simp [repeated]
  | cons m l ih =>
    rw [repeated]
    by_cases hm : m ∈ seen
    · rw [if_pos hm, List.count_cons, ih, List.count_cons]
      by_cases hn : n ∈ seen
      · rw [if_pos hn, if_pos hn]
      · have hne : ¬ (m == n) = true := fun he => hn (beq_iff_eq.mp he ▸ hm)
        rw [if_neg hn, if_neg hn, if_neg hne, Nat.add_zero, Nat.add_zero]
    · rw [if_neg hm, ih, List.count_cons]
      by_cases he : m = n
      · subst he
        rw [if_pos List.mem_cons_self, if_neg hm, if_pos (beq_self_eq_true m), Nat.add_sub_cancel]
      · have hne : ¬ (m == n) = true := fun hb => he (beq_iff_eq.mp hb)
        have hiff : n ∈ m :: seen ↔ n ∈ seen := by
          rw [List.mem_cons, or_iff_right (Ne.symm he)]
        rw [if_neg hne, Nat.add_zero, if_congr hiff rfl rfl]

/-- Of the entries of a front, those count whose name no entry behind it has. -/
theorem latest_append (l r : List α) :
    latest name (l ++ r) = (latest name l).filter (name · ∉ r.map name) ++ latest name r := by
  induction l with
  | nil => rfl
  | cons x l ih =>
    have hmem : name x ∈ (l ++ r).map name ↔ name x ∈ l.map name ∨ name x ∈ r.map name := by
      rw [List.map_append, List.mem_append]
    rw [List.cons_append, latest, latest, ih, if_congr hmem rfl rfl]
    by_cases hl : name x ∈ l.map name
    · rw [if_pos (.inl hl), if_pos hl]
    · by_cases hr : name x ∈ r.map name
      · rw [if_pos (.inr hr), if_neg hl, List.filter_cons_of_neg (by simpa using hr)]
      · rw [if_neg (not_or.mpr ⟨hl, hr⟩), if_neg hl, List.filter_cons_of_pos (by simpa using hr),
          List.cons_append]

theorem latest_concat (l : List α) (x : α) :
    latest name (l ++ [x]) = (latest name l).filter (name · ≠ name x) ++ [x] := by
  simp only [latest_append, latest, List.map_cons, List.map_nil, List.mem_singleton,
    List.not_mem_nil, if_false, ne_eq]

theorem latest_map (f : β → α) (l : List β) :
    latest name (l.map f) = (latest (name ∘ f) l).map f := by
  induction l with
  | nil => rfl
  | cons x l ih =>
    rw [List.map_cons, latest, latest, ih, List.map_map]
    by_cases h : name (f x) ∈ l.map (name ∘ f)
    · rw [if_pos h, if_pos (show (name ∘ f) x ∈ _ from h)]
    · rw [if_neg h, if_neg (show (name ∘ f) x ∉ _ from h), List.map_cons]

theorem latest_subset (l : List α) : latest name l ⊆ l := by
  induction l with
  | nil => exact List.Subset.refl _
  | cons x l ih =>
    rw [latest]
    split
    · exact List.subset_cons_of_subset x ih
    · exact List.cons_subset_cons x ih

end Names

section Fold

variable {s : List Char}

/-- The name of an occurrence. -/
def Occurrence.name (o : Occurrence) : String :=
  .ofList o.header.name

/-- Every edge that a header declares starts at the declared name. -/
theorem source_of_mem_edges {h : Header} {offset : Nat} {e : Edge} (he : e ∈ h.edges offset) :
    e.source = .ofList h.name := by
  simp only [Header.edges, List.mem_append, Option.mem_toList, Option.map_eq_some_iff,
    List.mem_map] at he
  rcases he with ⟨-, -, rfl⟩ | ⟨-, -, rfl⟩ <;> rfl

theorem declarations_foldl (s : List Char) (os : List Occurrence) :
    (os.foldl (add s) {}).declarations = .ofList (os.map fun o => (o.name, o.declaration s)) := by
  induction os using List.reverseRecOn with
  | nil => rfl
  | append_singleton os o ih =>
    rw [List.foldl_append, List.foldl_cons, List.foldl_nil, List.map_append, List.map_singleton,
      Table.ofList_concat, ← ih, add]
    split <;> rfl

theorem contains_foldl (s : List Char) (os : List Occurrence) (n : String) :
    (os.foldl (add s) {}).declarations.contains n = true ↔ n ∈ os.map Occurrence.name := by
  rw [declarations_foldl, Table.contains_eq_true, Table.keys_ofList, List.mem_eraseDups,
    List.map_map]
  rfl

theorem duplicates_foldl (s : List Char) (os : List Occurrence) :
    (os.foldl (add s) {}).duplicates = repeated [] (os.map Occurrence.name) := by
  induction os using List.reverseRecOn with
  | nil => rfl
  | append_singleton os o ih =>
    rw [List.foldl_append, List.foldl_cons, List.foldl_nil, List.map_append, List.map_singleton,
      repeated_concat, ← ih, add]
    split
    · next h =>
      rw [if_pos (.inr ((contains_foldl s os o.name).mp h))]
      rfl
    · next h =>
      rw [if_neg, List.append_nil]
      rintro (hm | hm)
      · cases hm
      · exact h ((contains_foldl s os o.name).mpr hm)

/-- Keeping the edges of some names keeps the headers of those names. -/
theorem filter_flatMap_edges (keep : String → Bool) (os : List Occurrence) :
    (os.flatMap fun o => o.header.edges (offsetIn s o.start)).filter (keep ·.source) =
      (os.filter (keep ·.name)).flatMap fun o => o.header.edges (offsetIn s o.start) := by
  induction os with
  | nil => rfl
  | cons o os ih =>
    have hsource : ∀ e ∈ o.header.edges (offsetIn s o.start), e.source = o.name := fun e he =>
      source_of_mem_edges he
    rw [List.flatMap_cons, List.filter_append, ih]
    by_cases hn : keep o.name = true
    · have hall : (o.header.edges (offsetIn s o.start)).filter (keep ·.source) =
          o.header.edges (offsetIn s o.start) :=
        List.filter_eq_self.mpr fun e he => hsource e he ▸ hn
      rw [hall, List.filter_cons, if_pos hn, List.flatMap_cons]
    · have hnone : (o.header.edges (offsetIn s o.start)).filter (keep ·.source) = [] :=
        List.filter_eq_nil_iff.mpr fun e he => hsource e he ▸ hn
      rw [hnone, List.filter_cons, if_neg hn, List.nil_append]

theorem headerEdges_foldl (s : List Char) (os : List Occurrence) :
    (os.foldl (add s) {}).headerEdges =
      (latest Occurrence.name os).flatMap fun o => o.header.edges (offsetIn s o.start) := by
  induction os using List.reverseRecOn with
  | nil => rfl
  | append_singleton os o ih =>
    have hdrop : (os.foldl (add s) {}).headerEdges.filter (·.source != o.name) =
        ((latest Occurrence.name os).filter (·.name != o.name)).flatMap
          fun o => o.header.edges (offsetIn s o.start) := by
      rw [ih]
      exact filter_flatMap_edges (· != o.name) _
    have hbne : (fun o' : Occurrence => decide (o'.name ≠ o.name)) = (·.name != o.name) := by
      funext o'
      rw [decide_not]
      rfl
    rw [List.foldl_append, List.foldl_cons, List.foldl_nil, latest_concat, List.flatMap_append,
      List.flatMap_singleton, hbne, ← hdrop, add]
    split
    · rfl
    · next h =>
      -- A name that is new has no edges to drop.
      have hnew : o.name ∉ os.map Occurrence.name := fun hm =>
        h ((contains_foldl s os o.name).mpr hm)
      have hkeep : (os.foldl (add s) {}).headerEdges.filter (·.source != o.name) =
          (os.foldl (add s) {}).headerEdges := by
        rw [hdrop, ih, List.filter_eq_self.mpr]
        intro o' ho'
        have hmem : o'.name ∈ os.map Occurrence.name := List.mem_map_of_mem (latest_subset os ho')
        exact bne_iff_ne.mpr fun e => hnew (e ▸ hmem)
      rw [hkeep]

/-- The outline of a text with one declaration. -/
theorem ofText_of_occurrence {source : String} {o : Occurrence}
    (h : occurrences false source.toList = [o]) :
    ofText source =
      { declarations := .ofList [(o.name, o.declaration source.toList)]
        duplicates := []
        headerEdges := o.header.edges (offsetIn source.toList o.start) } := by
  rw [ofText, h]
  rfl

/-- The declaration of an occurrence is that of its span, and its edges are those that the clauses
of the span declare. -/
theorem span_of_mem {o : Occurrence} (ho : o ∈ occurrences false s) :
    (o.span s).name = o.name ∧ (o.span s).declaration s = o.declaration s ∧
      (o.span s).ClauseEdges s (o.header.edges (offsetIn s o.start)) := by
  obtain ⟨before, text, after, hs, hw, hst⟩ := exists_stands_of_mem ho
  have hstart : s.take (o.span s).start = before := by
    obtain ⟨t, -, hspan⟩ := hst.span_eq hs
    rw [hspan, hs, List.take_left]
  have hoffset : offsetIn s o.start = units before := by
    rw [hs, offsetIn_append]
  refine ⟨rfl, ?_, ?_⟩
  · simp only [Span.declaration, Occurrence.declaration, hst.body_span hs, hstart, hoffset]
    rw [hs, Comment.lineAt_units]
    rfl
  · have hedges := Span.ClauseEdges.intro (s := s) (x := o.span s) o.header.extends_parent?
      o.header.implements_interfaces
    rw [hstart, ← hoffset, ← Option.toList_map] at hedges
    exact hedges

end Fold

/-- An outline is what the spans of its text give. The spans are disjoint and in order, each runs
from a header to the first brace that balances its opening one, and no header outside them has a
body that ends. Setting them one after the other gives the declarations, so that a name has the
place of its first span and the content of its last; a name is listed again for each further span;
and the header edges are those that the clauses of the last span of each name declare. -/
theorem ofText_eq_of_spans (source : String) :
    ∃ xs : List Span, (∀ x ∈ xs, x.IsIn source.toList) ∧
      xs.Pairwise (fun x y => x.closing < y.start) ∧
      (∀ p o, HeaderAt source.toList p o → (∀ x ∈ xs, p < x.start ∨ x.closing < p) →
        Unclosed source.toList o) ∧
      (ofText source).declarations =
        .ofList (xs.map fun x => (x.name, x.declaration source.toList)) ∧
      (ofText source).declarations.keys = (xs.map Span.name).eraseDups ∧
      (∀ name, (ofText source).declarations.get? name =
        ((xs.filter (·.name = name)).getLast?).map (Span.declaration source.toList)) ∧
      (ofText source).duplicates = repeated [] (xs.map Span.name) ∧
      ∃ edges : List (List Edge),
        List.Forall₂ (Span.ClauseEdges source.toList) (latest Span.name xs) edges ∧
        (ofText source).headerEdges = edges.flatten := by
  have hentry : (spans source.toList).map (fun x => (x.name, x.declaration source.toList)) =
      (occurrences false source.toList).map fun o => (o.name, o.declaration source.toList) := by
    rw [spans, List.map_map]
    exact List.map_congr_left fun o ho => Prod.ext (span_of_mem ho).1 (span_of_mem ho).2.1
  have hname : (spans source.toList).map Span.name =
      (occurrences false source.toList).map Occurrence.name := by
    rw [spans, List.map_map]
    exact List.map_congr_left fun o ho => (span_of_mem ho).1
  have hdeclarations : (ofText source).declarations =
      .ofList ((spans source.toList).map fun x => (x.name, x.declaration source.toList)) := by
    rw [hentry]
    exact declarations_foldl _ _
  refine ⟨spans source.toList, fun x => isIn_of_mem_spans, spans_pairwise _,
    fun p o => unclosed_of_outside, hdeclarations, ?_, ?_, ?_, ?_⟩
  · rw [hdeclarations, Table.keys_ofList, List.map_map]
    rfl
  · intro name
    rw [hdeclarations, Table.get?_ofList, List.filter_map, List.getLast?_map, Option.map_map]
    rfl
  · rw [hname]
    exact duplicates_foldl _ _
  · refine ⟨(latest Occurrence.name (occurrences false source.toList)).map
      fun o => o.header.edges (offsetIn source.toList o.start), ?_, ?_⟩
    · rw [spans, latest_map, List.forall₂_map_left_iff, List.forall₂_map_right_iff]
      exact List.forall₂_same.mpr fun o ho => (span_of_mem (latest_subset _ ho)).2.2
    · exact headerEdges_foldl _ _

end UmlDraft.Outline
