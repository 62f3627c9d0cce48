import UmlDraft.Proofs.Decimal
import UmlDraft.Proofs.Diagram.Links
import UmlDraft.Proofs.Diagram.ListedMember
import UmlDraft.Proofs.Diagram.WellFormed

/-!
# What a listing says

A listing consists of paragraphs: a head, and indented lines below it. No line is broken, so the
text determines the lines, and no head is indented, so these determine the paragraphs. The first
character of a head tells what the paragraph is about. A declaration is told by its head and by the
lines of its members, which are read back as the members; the relations by their lines, which are
those of their links; the duplicates by the names in their line. Hence two diagrams that were read
are listed alike exactly if they differ in their bodies at most.
-/

namespace UmlDraft

open Text Member

section Lists

variable {α β γ : Type}

/-- A list is divided in one way only where a class of elements ends. -/
theorem append_inj_of_class {p : α → Bool} {xs xs' ys ys' : List α} (h : xs ++ ys = xs' ++ ys')
    (hx : ∀ x ∈ xs, p x = true) (hx' : ∀ x ∈ xs', p x = true)
    (hy : ∀ y ∈ ys.head?, p y = false) (hy' : ∀ y ∈ ys'.head?, p y = false) :
    xs = xs' ∧ ys = ys' := by
  have hstop : ∀ {l : List α}, (∀ y ∈ l.head?, p y = false) → l.takeWhile p = [] := by
    intro l hl
    cases l with
    | nil => rfl
    | cons a l => rw [List.takeWhile_cons_of_neg (by rw [hl a rfl]; exact Bool.false_ne_true)]
  have hxs := congrArg (List.takeWhile p) h
  rw [List.takeWhile_append_of_pos hx, List.takeWhile_append_of_pos hx', hstop hy, hstop hy',
    List.append_nil, List.append_nil] at hxs
  rw [hxs] at h
  exact ⟨hxs, List.append_cancel_left h⟩

/-- What every element determines is determined by the list. -/
theorem map_eq_map_of_inj {q : α → Prop} {f : α → β} {g : α → γ}
    (hfg : ∀ a b, q a → q b → f a = f b → g a = g b) {l l' : List α} (hl : ∀ a ∈ l, q a)
    (hl' : ∀ a ∈ l', q a) (h : l.map f = l'.map f) : l.map g = l'.map g := by
  induction l generalizing l' with
  | nil =>
    rw [List.map_nil, eq_comm, List.map_eq_nil_iff] at h
    rw [h]
  | cons a l ih =>
    cases l' with
    | nil => cases h
    | cons b l' =>
      rw [List.map_cons, List.map_cons, List.cons.injEq] at h
      have hhead := hfg a b (hl a List.mem_cons_self) (hl' b List.mem_cons_self) h.1
      rw [List.map_cons, List.map_cons, hhead,
        ih (fun c hc => hl c (List.mem_cons_of_mem a hc))
          (fun c hc => hl' c (List.mem_cons_of_mem b hc)) h.2]

end Lists

/-- A comma separated list of names says each of them. -/
theorem commaList_inj {names names' : List String} (h : ∀ n ∈ names, IsName n.toList)
    (h' : ∀ n ∈ names', IsName n.toList)
    (he : commaList (names.map String.toList) = commaList (names'.map String.toList)) :
    names = names' := by
  -- A list of parameters without types is read as these names.
  have hread : ∀ {ns : List String}, (∀ n ∈ ns, IsName n.toList) →
      readParameters (commaList (ns.map String.toList)) = ns.map .raw := by
    intro ns hns
    rw [readParameters_commaList, List.flatMap_map, List.map_eq_flatMap]
    refine List.flatMap_congr fun n hn => ?_
    have hne : trim n.toList ≠ [] := (hns n hn).trim_eq.symm ▸ (hns n hn).ne_nil
    rw [readParameters_of_not_mem ((hns n hn).not_mem rfl) hne, (hns n hn).trim_eq,
      readParameter_of_not_mem ((hns n hn).not_mem rfl), String.ofList_toList]
  have hmap := hread h
  rw [he, hread h'] at hmap
  exact (List.map_injective_iff.mpr fun _ _ => Parameter.raw.inj) hmap.symm

namespace Listing

/-- A head and the indented lines below it. -/
@[ext] structure Paragraph where
  /-- The first line. -/
  head : List Char
  /-- The other lines. -/
  below : List (List Char)

namespace Paragraph

/-- The lines of a paragraph. -/
def lines (p : Paragraph) : List (List Char) :=
  p.head :: p.below

/-- A line is indented if it begins with a space. -/
def isIndented (line : List Char) : Bool :=
  line.head? == some ' '

/-- A paragraph that shows where it begins, and whose lines are lines. -/
structure Formed (p : Paragraph) : Prop where
  /-- The first line is not indented. -/
  head : isIndented p.head = false
  /-- The other lines are indented. -/
  below : ∀ line ∈ p.below, isIndented line = true
  /-- No line is broken. -/
  feed : ∀ line ∈ p.lines, '\n' ∉ line

theorem head?_flatMap_lines {ps : List Paragraph} (h : ∀ p ∈ ps, p.Formed) :
    ∀ line ∈ (ps.flatMap lines).head?, isIndented line = false := by
  cases ps with
  | nil =>
    intro line hline
    cases hline
  | cons p ps =>
    intro line hline
    cases hline
    exact (h p List.mem_cons_self).head

/-- The lines of well-formed paragraphs determine the paragraphs. -/
theorem flatMap_lines_inj {ps qs : List Paragraph} (hp : ∀ p ∈ ps, p.Formed)
    (hq : ∀ q ∈ qs, q.Formed) (h : ps.flatMap lines = qs.flatMap lines) : ps = qs := by
  induction ps generalizing qs with
  | nil =>
    cases qs with
    | nil => rfl
    | cons q qs => cases h
  | cons p ps ih =>
    cases qs with
    | nil => cases h
    | cons q qs =>
      have hps : ∀ p ∈ ps, p.Formed := fun p hmem => hp p (List.mem_cons_of_mem _ hmem)
      have hqs : ∀ q ∈ qs, q.Formed := fun q hmem => hq q (List.mem_cons_of_mem _ hmem)
      rw [List.flatMap_cons, List.flatMap_cons, lines, lines, List.cons_append, List.cons_append,
        List.cons.injEq] at h
      obtain ⟨hbelow, hrest⟩ := append_inj_of_class h.2 (hp _ List.mem_cons_self).below
        (hq _ List.mem_cons_self).below (head?_flatMap_lines hps) (head?_flatMap_lines hqs)
      rw [Paragraph.ext h.1 hbelow, ih hps hqs hrest]

end Paragraph

end Listing

namespace Kind

/-- The first character of the words for a kind. -/
def initial : Kind → Char
  | .concreteClass => 'c'
  | .abstractClass => 'a'
  | .interface => 'i'

theorem initial_inj {k k' : Kind} (h : k.initial = k'.initial) : k = k' := by
  cases k <;> cases k' <;> first | rfl | exact absurd h (by decide)

theorem head?_label (k : Kind) : k.label.toList.head? = some k.initial := by
  cases k with
  | concreteClass | abstractClass | interface => decide

theorem feed_not_mem_label (k : Kind) : '\n' ∉ k.label.toList := by
  cases k with
  | concreteClass | abstractClass | interface => decide

end Kind

namespace Declaration

variable {d d' : Declaration}

/-- The head of a listed declaration. -/
def headLine (d : Declaration) : List Char :=
  d.kind.label.toList ++ ' ' :: (d.name.toList ++ ' ' ::
    ("(line ".toList ++ ((Decimal.ofInt d.line).written ++ [')'])))

/-- A declaration and its members as a paragraph. -/
def paragraph (d : Declaration) : Listing.Paragraph :=
  ⟨d.headLine, d.memberLines⟩

theorem lines_paragraph (d : Declaration) :
    d.paragraph.lines = (Listing.declarationLines d).map String.toList := by
  have hspace : " ".toList = [' '] := by decide
  have hline : " (line ".toList = ' ' :: "(line ".toList := by decide
  have hclose : ")".toList = [')'] := by decide
  have hhead : d.headLine = (d.kind.label ++ " " ++ d.name ++ " (line " ++
      (Decimal.ofInt d.line).text ++ ")").toList := by
    simp only [headLine, String.toList_append, hspace, hline, hclose, Decimal.text,
      String.toList_ofList, List.append_assoc, List.cons_append, List.nil_append]
  rw [Listing.declarationLines, List.map_append, List.map_cons, ← hhead, List.map_map,
    List.map_map]
  rfl

theorem head?_headLine (d : Declaration) : d.headLine.head? = some d.kind.initial := by
  rw [headLine, List.head?_append, d.kind.head?_label]
  rfl

/-- The head of a declaration says its kind, its name and its line. -/
theorem headLine_inj (hn : IsName d.name.toList) (hn' : IsName d'.name.toList)
    (h : d.headLine = d'.headLine) : d.kind = d'.kind ∧ d.name = d'.name ∧ d.line = d'.line := by
  have hkind : d.kind = d'.kind := by
    apply Kind.initial_inj
    have := congrArg List.head? h
    rw [d.head?_headLine, d'.head?_headLine] at this
    exact Option.some.inj this
  rw [headLine, headLine, hkind] at h
  obtain ⟨hname, hline⟩ := split_first (List.cons.inj (List.append_cancel_left h)).2
    (hn.not_mem rfl) (hn'.not_mem rfl)
  exact ⟨hkind, String.toList_inj.mp hname,
    Decimal.written_ofInt_inj (List.append_cancel_right (List.append_cancel_left hline))⟩

/-- The listed members of a declaration determine its members. -/
theorem Listable.members_eq (h : d.Listable) (h' : d'.Listable)
    (he : d.memberLines = d'.memberLines) :
    d.attributes = d'.attributes ∧ d.methods = d'.methods := by
  have hmembers : d.members = d'.members := by
    rw [← h.filterMap_memberLines, he, h'.filterMap_memberLines]
  rw [← d.filterMap_attribute?_members, ← d.filterMap_method?_members, hmembers,
    d'.filterMap_attribute?_members, d'.filterMap_method?_members]
  exact ⟨rfl, rfl⟩

/-- The paragraph of a declaration says all of it but its body. -/
theorem paragraph_inj (h : IsName d.name.toList ∧ d.Listable)
    (h' : IsName d'.name.toList ∧ d'.Listable) (he : d.paragraph = d'.paragraph) :
    d.bodiless = d'.bodiless := by
  obtain ⟨hkind, hname, hline⟩ := headLine_inj h.1 h'.1 (congrArg Listing.Paragraph.head he)
  obtain ⟨hattributes, hmethods⟩ := h.2.members_eq h'.2 (congrArg Listing.Paragraph.below he)
  rw [bodiless, bodiless, hkind, hname, hline, hattributes, hmethods]

theorem formed_paragraph (hn : IsName d.name.toList) (hd : d.Listable) : d.paragraph.Formed where
  head := by
    rw [Listing.Paragraph.isIndented, paragraph, d.head?_headLine]
    cases d.kind with
    | concreteClass | abstractClass | interface => decide
  below line hline := by
    rcases List.mem_append.mp hline with hline | hline
    · obtain ⟨a, -, rfl⟩ := List.mem_map.mp hline
      rw [Attribute.print_eq]
      rfl
    · obtain ⟨m, -, rfl⟩ := List.mem_map.mp hline
      rw [Method.print_eq]
      rfl
  feed line hline := by
    rcases List.mem_cons.mp hline with rfl | hline
    · have htext : '\n' ∉ (Decimal.ofInt d.line).written := by
        intro hmem
        rcases Decimal.mem_written_ofInt hmem with h | h
        · exact absurd h (by decide)
        · exact absurd h (by decide)
      have hname : '\n' ∉ d.name.toList := hn.not_mem rfl
      simp [paragraph, headLine, d.kind.feed_not_mem_label, hname, htext]
    · exact hd.feed_not_mem line hline

end Declaration

namespace Edge

/-- The line of a relation. -/
def line (e : Edge) : List Char :=
  ' ' :: ' ' :: (e.source.toList ++ ' ' :: (e.relation.name.toList ++ ' ' :: e.target.toList))

/-- The line of a relation between names says all of it but its offset. -/
theorem line_inj {e e' : Edge} (hs : IsName e.source.toList) (hs' : IsName e'.source.toList)
    (h : e.line = e'.line) :
    e.relation = e'.relation ∧ e.source = e'.source ∧ e.target = e'.target := by
  have hname : ∀ r : Relation, ' ' ∉ r.name.toList := by
    intro r
    cases r with
    | generalization | realization => decide
  obtain ⟨hsource, hrest⟩ := split_first (List.cons.inj (List.cons.inj h).2).2
    (hs.not_mem rfl) (hs'.not_mem rfl)
  obtain ⟨hrelation, htarget⟩ := split_first hrest (hname _) (hname _)
  refine ⟨?_, String.toList_inj.mp hsource, String.toList_inj.mp htarget⟩
  cases hr : e.relation <;> cases hr' : e'.relation <;>
    first | rfl | exact absurd (hr ▸ hr' ▸ hrelation) (by decide)

theorem feed_not_mem_line {e : Edge} (hs : IsName e.source.toList) (ht : IsName e.target.toList) :
    '\n' ∉ e.line := by
  have hsource : '\n' ∉ e.source.toList := hs.not_mem rfl
  have htarget : '\n' ∉ e.target.toList := ht.not_mem rfl
  have hrelation : '\n' ∉ e.relation.name.toList := by
    cases e.relation with
    | generalization | realization => decide
  simp [line, hsource, htarget, hrelation]

end Edge

namespace Relationships

variable {r r' : Relationships}

/-- The edges of the links of relations. -/
def linkEdges (r : Relationships) : List Edge :=
  r.links.map fun k => k.edge 0

/-- The listed relations are the lines of the edges of their links. -/
theorem map_toList_relations (r : Relationships) :
    (Listing.relations r).map String.toList = r.linkEdges.map Edge.line := by
  have hindent : "  ".toList = [' ', ' '] := by decide
  have hextends : " extends ".toList = ' ' :: ("extends".toList ++ [' ']) := by decide
  have himplements : " implements ".toList = ' ' :: ("implements".toList ++ [' ']) := by decide
  have hparent : ∀ e : String × String,
      ("  " ++ e.1 ++ " extends " ++ e.2).toList = ((parentLink e).edge 0).line := by
    intro e
    simp only [String.toList_append, hindent, hextends, parentLink, Link.edge, Arrow.edge,
      Stroke.relation, Edge.line, Relation.name, String.ofList_toList, List.append_assoc,
      List.cons_append, List.nil_append]
  have hinterface : ∀ name target : String, ("  " ++ name ++ " implements " ++ target).toList =
      (Link.edge ⟨⟨.dotted, .right⟩, name, target⟩ 0).line := by
    intro name target
    simp only [String.toList_append, hindent, himplements, Link.edge, Arrow.edge,
      Stroke.relation, Edge.line, Relation.name, String.ofList_toList, List.append_assoc,
      List.cons_append, List.nil_append]
  rw [Listing.relations, linkEdges, links, List.map_append, List.map_append, List.map_append,
    List.map_map, List.map_map, List.map_map, List.map_flatMap, List.map_flatMap, List.map_flatMap]
  refine congrArg₂ (· ++ ·) (List.map_congr_left fun e _ => hparent e) ?_
  refine List.flatMap_congr fun e _ => ?_
  rw [interfaceLinks, List.map_map, List.map_map, List.map_map]
  exact List.map_congr_left fun target _ => hinterface e.1 target

/-- Relations whose ends are words, and which their links restore. -/
structure Listable (r : Relationships) : Prop where
  /-- The ends of every link are words. -/
  named : ∀ k ∈ r.links, k.Named
  /-- Following the links restores the relations. -/
  restored : r.links.foldl follow {} = r

theorem Listable.isName_of_mem (h : r.Listable) :
    ∀ e ∈ r.linkEdges, IsName e.source.toList ∧ IsName e.target.toList ∧ e.offset = 0 := by
  refine List.forall_mem_map.mpr fun k hk => ?_
  obtain ⟨⟨stroke, head⟩, left, right⟩ := k
  obtain ⟨hleft, hright⟩ := h.named _ hk
  cases head with
  | left | right =>
    simp only [Link.edge, Arrow.edge, String.ofList_toList]
    exact ⟨by assumption, by assumption, rfl⟩

/-- The listed relations determine the relations. -/
theorem Listable.eq_of_relations (h : r.Listable) (h' : r'.Listable)
    (he : Listing.relations r = Listing.relations r') : r = r' := by
  have hlines : r.linkEdges.map Edge.line = r'.linkEdges.map Edge.line := by
    rw [← map_toList_relations, he, map_toList_relations]
  have hedges : r.linkEdges.map id = r'.linkEdges.map id := by
    refine map_eq_map_of_inj ?_ h.isName_of_mem h'.isName_of_mem hlines
    rintro ⟨relation, source, target, offset⟩ ⟨relation', source', target', offset'⟩
      ⟨hs, -, ho⟩ ⟨hs', -, ho'⟩ hline
    obtain ⟨hrelation, hsource, htarget⟩ := Edge.line_inj hs hs' hline
    simp only at hrelation hsource htarget ho ho'
    rw [hrelation, hsource, htarget, ho, ho']
  rw [List.map_id, List.map_id] at hedges
  have hfollow : ∀ {ks : List Link} {q : Relationships},
      ks.foldl follow q = (ks.map fun k => k.edge 0).foldl apply q := by
    intro ks q
    rw [List.foldl_map]
    rfl
  rw [← h.restored, ← h'.restored, hfollow, hfollow]
  exact congrArg (List.foldl apply {}) hedges

end Relationships

namespace Model

variable {m m' : Model}

/-- The number of declarations and of relations as they are listed. -/
def countLine (m : Model) : List Char :=
  ("Parsed " ++ toString m.declarations.size ++ " declarations, " ++
    toString m.relationships.count ++ " relationships").toList

/-- The relations as a paragraph, where there are some. -/
def relationParagraphs (m : Model) : List Listing.Paragraph :=
  if Listing.relations m.relationships = [] then []
  else [⟨"Relationships:".toList, (Listing.relations m.relationships).map String.toList⟩]

/-- The duplicates as a paragraph, where there are some. -/
def duplicateParagraphs (m : Model) : List Listing.Paragraph :=
  if m.duplicates = [] then []
  else [⟨"Duplicates: ".toList ++ commaList (m.duplicates.map String.toList), []⟩]

/-- The paragraphs of a listing. -/
def paragraphs (m : Model) : List Listing.Paragraph :=
  ⟨m.countLine, []⟩ :: (m.declarations.values.map Declaration.paragraph ++
    (m.relationParagraphs ++ m.duplicateParagraphs))

theorem flatMap_lines_paragraphs (m : Model) :
    m.paragraphs.flatMap Listing.Paragraph.lines = (Listing.lines m).map String.toList := by
  have hdeclarations : (m.declarations.values.map Declaration.paragraph).flatMap
      Listing.Paragraph.lines =
        (m.declarations.values.flatMap Listing.declarationLines).map String.toList := by
    rw [List.flatMap_map, List.map_flatMap]
    exact List.flatMap_congr fun d _ => d.lines_paragraph
  rw [paragraphs, List.flatMap_cons, List.flatMap_append, List.flatMap_append, hdeclarations,
    Listing.lines, List.map_append, List.map_append, List.map_append, List.append_assoc,
    List.append_assoc, relationParagraphs, duplicateParagraphs]
  refine congrArg₂ (· ++ ·) rfl (congrArg₂ (· ++ ·) rfl (congrArg₂ (· ++ ·) ?_ ?_))
  · split
    · rfl
    · exact List.append_nil _
  · split
    · rfl
    · rw [List.flatMap_singleton, Listing.Paragraph.lines, List.map_singleton,
        String.toList_append, toList_intercalate_comma]

/-- The paragraph of a declaration begins like the words for a kind. -/
theorem head?_declaration {p : Listing.Paragraph}
    (h : p ∈ m.declarations.values.map Declaration.paragraph) :
    p.head.head? ∈ [some 'c', some 'a', some 'i'] := by
  obtain ⟨d, -, rfl⟩ := List.mem_map.mp h
  rw [Declaration.paragraph, d.head?_headLine]
  cases d.kind with
  | concreteClass | abstractClass | interface => decide

theorem head?_relations {p : Listing.Paragraph} (h : p ∈ m.relationParagraphs) :
    p.head.head? = some 'R' := by
  have hhead : "Relationships:".toList.head? = some 'R' := by decide
  unfold relationParagraphs at h
  split at h
  · cases h
  · rw [List.mem_singleton.mp h, hhead]

theorem head?_duplicates {p : Listing.Paragraph} (h : p ∈ m.duplicateParagraphs) :
    p.head.head? = some 'D' := by
  have hhead : "Duplicates: ".toList.head? = some 'D' := by decide
  unfold duplicateParagraphs at h
  split at h
  · cases h
  · rw [List.mem_singleton.mp h, List.head?_append, hhead]
    rfl

/-- The heads of the paragraphs tell the parts of a listing apart. -/
theorem parts_eq_of_paragraphs (h : m.paragraphs = m'.paragraphs) :
    m.declarations.values.map Declaration.paragraph =
        m'.declarations.values.map Declaration.paragraph ∧
      m.relationParagraphs = m'.relationParagraphs ∧
        m.duplicateParagraphs = m'.duplicateParagraphs := by
  have hdeclaration : ∀ {n : Model}, ∀ p ∈ n.declarations.values.map Declaration.paragraph,
      [some 'c', some 'a', some 'i'].contains p.head.head? = true := fun p hp =>
    List.contains_iff_mem.mpr (head?_declaration hp)
  have hother : ∀ {n : Model}, ∀ p ∈ (n.relationParagraphs ++ n.duplicateParagraphs).head?,
      [some 'c', some 'a', some 'i'].contains p.head.head? = false := by
    intro n p hp
    rcases List.mem_append.mp (List.mem_of_mem_head? hp) with hp | hp
    · rw [head?_relations hp]
      rfl
    · rw [head?_duplicates hp]
      rfl
  have hrelations : ∀ {n : Model}, ∀ p ∈ n.relationParagraphs,
      (p.head.head? == some 'R') = true := fun p hp => beq_iff_eq.mpr (head?_relations hp)
  have hduplicates : ∀ {n : Model}, ∀ p ∈ n.duplicateParagraphs.head?,
      (p.head.head? == some 'R') = false := by
    intro n p hp
    rw [head?_duplicates (List.mem_of_mem_head? hp)]
    rfl
  obtain ⟨hdeclarations, hrest⟩ := append_inj_of_class (List.cons.inj h).2 hdeclaration
    hdeclaration hother hother
  exact ⟨hdeclarations,
    append_inj_of_class hrest hrelations hrelations hduplicates hduplicates⟩

theorem relations_eq_of_paragraphs (h : m.relationParagraphs = m'.relationParagraphs) :
    Listing.relations m.relationships = Listing.relations m'.relationships := by
  unfold relationParagraphs at h
  split at h
  · next he =>
    split at h
    · next he' => rw [he, he']
    · cases h
  · split at h
    · cases h
    · have hlines := congrArg Listing.Paragraph.below (List.cons.inj h).1
      exact List.map_injective_iff.mpr (fun _ _ => String.toList_inj.mp) hlines

/-- The names that were declared again are told by their paragraph. -/
theorem duplicates_eq_of_paragraphs (hd : ∀ name ∈ m.duplicates, IsName name.toList)
    (hd' : ∀ name ∈ m'.duplicates, IsName name.toList)
    (h : m.duplicateParagraphs = m'.duplicateParagraphs) : m.duplicates = m'.duplicates := by
  unfold duplicateParagraphs at h
  split at h
  · next he =>
    split at h
    · next he' => rw [he, he']
    · cases h
  · split at h
    · cases h
    · have hhead := congrArg Listing.Paragraph.head (List.cons.inj h).1
      exact commaList_inj hd hd' (List.append_cancel_left hhead)

/-- A diagram whose listing says all of it but the bodies. -/
structure Listable (m : Model) : Prop where
  /-- Declarations are listed under their names. -/
  names : ∀ e ∈ m.declarations.entries, e.2.name = e.1
  /-- Every declaration has a word as its name and members that can be listed. -/
  declarations : ∀ d ∈ m.declarations.values, IsName d.name.toList ∧ d.Listable
  /-- The relations can be listed. -/
  relationships : m.relationships.Listable
  /-- Every duplicate is a word. -/
  duplicates : ∀ name ∈ m.duplicates, IsName name.toList

/-- Only digits are written for the counts. -/
theorem feed_not_mem_countLine (m : Model) : '\n' ∉ m.countLine := by
  have hdigits : ∀ n : Nat, '\n' ∉ Nat.toDigits 10 n := by
    intro n hmem
    exact absurd (Nat.isDigit_of_mem_toDigits (by decide) (by decide) hmem) (by decide)
  simp [countLine, hdigits]

/-- The paragraph of the relations shows where it begins. -/
theorem formed_of_mem_relations (h : m.relationships.Listable) {p : Listing.Paragraph}
    (hp : p ∈ m.relationParagraphs) : p.Formed := by
  have hhead : Listing.Paragraph.isIndented p.head = false := by
    rw [Listing.Paragraph.isIndented, head?_relations hp]
    rfl
  have hfeed : '\n' ∉ "Relationships:".toList := by decide
  unfold relationParagraphs at hp
  split at hp
  · cases hp
  · rw [List.mem_singleton, Relationships.map_toList_relations] at hp
    subst hp
    refine ⟨hhead, List.forall_mem_map.mpr fun e _ => rfl, fun line hline => ?_⟩
    rcases List.mem_cons.mp hline with rfl | hline
    · exact hfeed
    · obtain ⟨e, he, rfl⟩ := List.mem_map.mp hline
      obtain ⟨hs, ht, -⟩ := h.isName_of_mem e he
      exact Edge.feed_not_mem_line hs ht

/-- The paragraph of the duplicates shows where it begins. -/
theorem formed_of_mem_duplicates (h : ∀ name ∈ m.duplicates, IsName name.toList)
    {p : Listing.Paragraph} (hp : p ∈ m.duplicateParagraphs) : p.Formed := by
  have hhead : Listing.Paragraph.isIndented p.head = false := by
    rw [Listing.Paragraph.isIndented, head?_duplicates hp]
    rfl
  have hlist : ∀ c ∈ commaList (m.duplicates.map String.toList), c ≠ '\n' :=
    forall_mem_commaList (by decide) (by decide)
      (List.forall_mem_map.mpr fun n hn _ hc he => (h n hn).not_mem rfl (he ▸ hc))
  have hfeed : '\n' ∉ "Duplicates: ".toList := by decide
  unfold duplicateParagraphs at hp
  split at hp
  · cases hp
  · rw [List.mem_singleton] at hp
    subst hp
    refine ⟨hhead, fun line hline => absurd hline List.not_mem_nil, fun line hline => ?_⟩
    rw [List.mem_singleton.mp hline, List.mem_append, not_or]
    exact ⟨hfeed, fun hmem => hlist _ hmem rfl⟩

theorem Listable.formed_paragraphs (h : m.Listable) : ∀ p ∈ m.paragraphs, p.Formed := by
  intro p hp
  rw [paragraphs, List.mem_cons, List.mem_append, List.mem_append] at hp
  rcases hp with rfl | hp | hp | hp
  · refine ⟨?_, fun line hline => absurd hline List.not_mem_nil, fun line hline => ?_⟩
    · rw [countLine, Listing.Paragraph.isIndented]
      simp
    · rw [List.mem_singleton.mp hline]
      exact m.feed_not_mem_countLine
  · obtain ⟨d, hd, rfl⟩ := List.mem_map.mp hp
    exact Declaration.formed_paragraph (h.declarations d hd).1 (h.declarations d hd).2
  · exact formed_of_mem_relations h.relationships hp
  · exact formed_of_mem_duplicates h.duplicates hp

/-- The listing is the lines of its paragraphs. -/
theorem listing_toList (m : Model) :
    m.listing.toList = ['\n'].intercalate (m.paragraphs.flatMap Listing.Paragraph.lines) := by
  rw [listing, String.toList_intercalate, flatMap_lines_paragraphs]
  rfl

/-- The listing of a diagram determines its paragraphs. -/
theorem Listable.paragraphs_eq (h : m.Listable) (h' : m'.Listable)
    (he : m.listing = m'.listing) : m.paragraphs = m'.paragraphs := by
  have hsplit : ∀ {n : Model}, n.Listable →
      n.listing.toList.splitOn '\n' = n.paragraphs.flatMap Listing.Paragraph.lines := by
    intro n hn
    rw [listing_toList]
    refine List.splitOn_intercalate '\n' (fun line hline => ?_) ?_
    · obtain ⟨p, hp, hline⟩ := List.mem_flatMap.mp hline
      exact (hn.formed_paragraphs p hp).feed line hline
    · rw [paragraphs, List.flatMap_cons]
      exact List.cons_ne_nil _ _
  apply Listing.Paragraph.flatMap_lines_inj h.formed_paragraphs h'.formed_paragraphs
  rw [← hsplit h, ← hsplit h', he]

/-- The declarations without their bodies are told by their paragraphs. -/
theorem Listable.declarations_eq (h : m.Listable) (h' : m'.Listable)
    (he : m.declarations.values.map Declaration.paragraph =
      m'.declarations.values.map Declaration.paragraph) :
    m.bodiless.declarations = m'.bodiless.declarations := by
  have hvalues := map_eq_map_of_inj (fun d d' hd hd' => Declaration.paragraph_inj hd hd')
    h.declarations h'.declarations he
  rw [← Table.values_mapValues, ← Table.values_mapValues] at hvalues
  exact Table.eq_of_values Declaration.name (List.forall_mem_map.mpr h.names)
    (List.forall_mem_map.mpr h'.names) hvalues

/-- Two diagrams that are listed alike differ in their bodies at most. -/
theorem Listable.bodiless_eq (h : m.Listable) (h' : m'.Listable)
    (he : m.listing = m'.listing) : m.bodiless = m'.bodiless := by
  obtain ⟨hdeclarations, hrelations, hduplicates⟩ := parts_eq_of_paragraphs (h.paragraphs_eq h' he)
  have hrelationships : m.relationships = m'.relationships :=
    h.relationships.eq_of_relations h'.relationships (relations_eq_of_paragraphs hrelations)
  have hnames : m.duplicates = m'.duplicates :=
    duplicates_eq_of_paragraphs h.duplicates h'.duplicates hduplicates
  have hdeclared := h.declarations_eq h' hdeclarations
  rw [bodiless] at hdeclared ⊢
  rw [bodiless] at hdeclared ⊢
  rw [hrelationships, hnames]
  exact congrArg (fun t => (⟨t, m'.relationships, m'.duplicates⟩ : Model)) hdeclared

/-- The listing says nothing of the bodies. -/
theorem listing_bodiless (m : Model) : m.bodiless.listing = m.listing := by
  have hlines : m.bodiless.declarations.values.flatMap Listing.declarationLines =
      m.declarations.values.flatMap Listing.declarationLines := by
    rw [bodiless, Table.values_mapValues, List.flatMap_map]
    rfl
  have hsize : m.bodiless.declarations.size = m.declarations.size := List.length_map _
  rw [listing, listing, Listing.lines, Listing.lines, hlines, hsize]
  rfl

/-- Every diagram that is read can be listed. -/
theorem listable_ofText (source : String) : (ofText source).Listable := by
  have hwell := wellFormed_ofText source
  have hget : ∀ e ∈ (ofText source).declarations.entries,
      (ofText source).declarations.get? e.1 = some e.2 := fun _ he => Table.mem_entries_iff.mp he
  refine ⟨fun e he => (hwell.declarations e.1 e.2 (hget e he)).name, fun d hd => ?_, ?_,
    fun name hname => isName_of_mem_keys (Table.contains_eq_true.mp (hwell.duplicates name hname))⟩
  · obtain ⟨e, he, rfl⟩ := List.mem_map.mp hd
    have hdeclared := hwell.declarations e.1 e.2 (hget e he)
    obtain ⟨o, -, -, hread⟩ := exists_occurrence (hget e he)
    exact ⟨hdeclared.name ▸ hdeclared.isName, hread ▸ Declaration.listable_withMembers _⟩
  · refine ⟨fun k hk => ?_, hwell.relationships.foldl_links⟩
    obtain ⟨hleft, hright⟩ := hwell.relationships.declared_of_mem_links hk
    exact ⟨isName_of_mem_keys (Table.contains_eq_true.mp hleft),
      isName_of_mem_keys (Table.contains_eq_true.mp hright)⟩

/-- Two texts describe diagrams that are listed alike exactly if the diagrams agree on everything
but the bodies. -/
theorem listing_eq_iff (source other : String) :
    (ofText source).listing = (ofText other).listing ↔
      (ofText source).bodiless = (ofText other).bodiless := by
  constructor
  · exact (listable_ofText source).bodiless_eq (listable_ofText other)
  · intro h
    rw [← listing_bodiless, h, listing_bodiless]

end Model

end UmlDraft
