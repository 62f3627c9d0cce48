import Mathlib.Data.List.Nodup
import UmlDraft.Proofs.Diagram.Remains
import UmlDraft.Proofs.Diagram.Search
import UmlDraft.Proofs.Diagram.WellFormed
import UmlDraft.Proofs.Text.Split

/-!
# Lines of headers

A declaration knows the line of its header from the stripped text, where the header may stand at
another offset. The line is one of the original all the same: the first word of the header was left
by the stripping, so it stands in the original behind as many line feeds. Main statement: the line
of a declaration holds the first word of its header in the original text, and declarations whose
names occur once are listed in the order of their lines.
-/

namespace UmlDraft

open Text

namespace Outline

variable {s : List Char} {o o' : Occurrence}

/-- The first word of a header. -/
def Occurrence.keyword (o : Occurrence) : String :=
  .ofList (leadingWord o.start)

/-- The first word of a header is one that a header of its kind may begin with. -/
theorem Occurrence.Stands.keyword_mem {text after : List Char} (h : o.Stands text after) :
    o.keyword ∈ o.header.kind.openings := by
  obtain ⟨k, hk, b, hb, r, hr⟩ := h.captures.exists_opening (o.body ++ '}' :: after)
  have hname := Header.isName_introducers k (o.header.kind.openings_subset hk)
  have hstop : Stops isWord (b :: r) := stops_cons.mpr (isWord_of_isBlank hb)
  have hword : leadingWord o.start = k.toList := by
    rw [h.start_eq, ← hr, List.append_assoc]
    exact leadingWord_run hname.word hstop
  rwa [keyword, hword, String.ofList_toList]

/-- The line of a declaration is one more than the line feeds before it. -/
theorem line_declaration {before : List Char} (hs : s = before ++ o.start) :
    (o.declaration s).line = (before.count '\n' + 1 : Nat) := by
  rw [Occurrence.declaration, hs, offsetIn_append, Comment.lineAt_units, Nat.add_comm]

/-- Of two declarations that are found, the later is not on an earlier line. -/
theorem line_pairwise (s : List Char) : (occurrences false s).Pairwise fun o o' =>
    (o.declaration s).line ≤ (o'.declaration s).line := by
  refine (occurrences_pairwise false s).imp_of_mem ?_
  rintro o o' ho ho' ⟨text, after, hst, before', hafter⟩
  obtain ⟨before, -, -, hs, -, -⟩ := exists_stands_of_mem ho
  have hs' : s = before ++ (text ++ (o.body ++ '}' :: before')) ++ o'.start := by
    rw [hs, hst.start_eq, ← hafter]
    simp only [List.append_assoc, List.cons_append]
  rw [line_declaration hs, line_declaration hs', List.count_append]
  omega

/-- The names that are not listed as duplicates occur once. -/
theorem nodup_filter_repeated (names : List String) :
    (names.filter fun n => n ∉ repeated [] names).Nodup := by
  rw [List.nodup_iff_count_le_one]
  intro n
  by_cases hn : n ∈ repeated [] names
  · have hout : n ∉ names.filter fun n => n ∉ repeated [] names := by simp [hn]
    rw [List.count_eq_zero.mpr hout]
    exact Nat.zero_le 1
  · have hcount := count_repeated [] names n
    rw [List.count_eq_zero.mpr hn, if_neg List.not_mem_nil] at hcount
    have hkept : (names.filter fun n => n ∉ repeated [] names).Sublist names := List.filter_sublist
    have hle := hkept.count_le n
    omega

end Outline

namespace Model

variable {source name : String} {d : Declaration}

/-- The declarations are set one after the other as they are found. -/
theorem declarations_ofText (source : String) :
    (ofText source).declarations =
      .ofList ((Outline.occurrences false (Comment.strip source).toList).map fun o =>
        (o.name, (o.declaration (Comment.strip source).toList).withMembers)) := by
  rw [ofText, Outline.ofText, Outline.declarations_foldl, Table.mapValues_ofList, List.map_map]
  rfl

/-- A name stands for the last declaration that has it. -/
theorem get?_ofText (source name : String) :
    (ofText source).declarations.get? name =
      (((Outline.occurrences false (Comment.strip source).toList).filter
        (·.name = name)).getLast?).map fun o =>
          (o.declaration (Comment.strip source).toList).withMembers := by
  rw [declarations_ofText, Table.get?_ofList, List.filter_map, List.getLast?_map, Option.map_map]
  rfl

theorem duplicates_ofText (source : String) :
    (ofText source).duplicates = Outline.repeated []
      ((Outline.occurrences false (Comment.strip source).toList).map Outline.Occurrence.name) :=
  Outline.duplicates_foldl _ _

/-- The header of a declaration begins on its line of the original text. -/
theorem exists_line {o : Outline.Occurrence}
    (ho : o ∈ Outline.occurrences false (Comment.strip source).toList) :
    ∃ n line, (o.declaration (Comment.strip source).toList).line = (n + 1 : Nat) ∧
      (source.toList.splitOn '\n')[n]? = some line ∧ o.keyword.toList <:+: line := by
  obtain ⟨before, text, after, hs, -, hst⟩ := Outline.exists_stands_of_mem ho
  have hname := Header.isName_introducers _ (o.header.kind.openings_subset hst.keyword_mem)
  have hword : o.keyword.toList = leadingWord o.start := String.toList_ofList
  have hplace : (Comment.strip source).toList =
      before ++ (o.keyword.toList ++ afterWord o.start) := by
    rw [hword, leadingWord_append_afterWord, hs]
  obtain ⟨b, r, hsource, hcount⟩ :=
    Comment.exists_append_of_strip hplace hname.ne_nil hname.blankless
  have hfeed : '\n' ∉ o.keyword.toList := hname.not_mem (by decide)
  obtain ⟨line, hline, hin⟩ := exists_getElem?_splitOn b hfeed r
  rw [← hsource, hcount] at hline
  exact ⟨_, line, Outline.line_declaration hs, hline, hin⟩

/-- The line of a declaration holds, in the original text, the first word of the header that
declares it, which is the last header of that name; and the declarations whose names occur only once
are listed in the order of their lines. -/
theorem keyword_on_line (source : String) :
    (∀ name d, (ofText source).declarations.get? name = some d →
      ∃ o, ((Outline.occurrences false (Comment.strip source).toList).filter
          (·.name = name)).getLast? = some o ∧
        d = (o.declaration (Comment.strip source).toList).withMembers ∧
        o.keyword ∈ d.kind.openings ∧
        ∃ n line, d.line = (n + 1 : Nat) ∧ (source.toList.splitOn '\n')[n]? = some line ∧
          o.keyword.toList <:+: line) ∧
    (((ofText source).declarations.filterKeys fun name =>
      name ∉ (ofText source).duplicates).values).Pairwise fun d d' => d.line ≤ d'.line := by
  constructor
  · intro name d h
    rw [get?_ofText, Option.map_eq_some_iff] at h
    obtain ⟨o, ho, rfl⟩ := h
    have hmem := (List.mem_filter.mp (List.mem_of_getLast? ho)).1
    obtain ⟨-, text, after, -, -, hst⟩ := Outline.exists_stands_of_mem hmem
    exact ⟨o, ho, rfl, hst.keyword_mem, exists_line hmem⟩
  · rw [declarations_ofText, duplicates_ofText, Table.filterKeys_ofList, Table.values,
      Table.entries_ofList]
    · rw [List.filter_map, List.map_map, List.pairwise_map]
      exact (Outline.line_pairwise _).filter _
    · rw [List.filter_map, List.map_map]
      have hnodup := Outline.nodup_filter_repeated
        ((Outline.occurrences false (Comment.strip source).toList).map Outline.Occurrence.name)
      rwa [List.filter_map] at hnodup

/-- A comment over two lines in front of a class, and an emptied line between the words of another
header. -/
def notedDiagram : String :=
  "/' one\n two '/ class Cat \x7b\x7d\nabstract\n' note\nclass Pet \x7b\x7d"

/-- The last header of the diagram begins on the third line, where its first word stands. -/
theorem keyword_on_line_noted :
    ∃ d k line, (ofText notedDiagram).declarations.get? "Pet" = some d ∧ d.line = 3 ∧
      k ∈ d.kind.openings ∧ (notedDiagram.toList.splitOn '\n')[2]? = some line ∧
      k.toList <:+: line := by
  let pet : Declaration := ⟨"Pet", .abstractClass, "", [], [], 3⟩
  have hpet : (ofText notedDiagram).declarations.get? "Pet" = some pet := by decide +kernel
  obtain ⟨o, -, -, hopening, n, line, hline, hget, hin⟩ :=
    (keyword_on_line notedDiagram).1 "Pet" pet hpet
  obtain rfl : n = 2 := by
    have hthree : (3 : Int) = (n + 1 : Nat) := hline
    omega
  exact ⟨pet, o.keyword, line, hpet, rfl, hopening, hget, hin⟩

end Model

end UmlDraft
