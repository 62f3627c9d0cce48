import UmlDraft.Proofs.Setup.PackageName
import UmlDraft.Proofs.Skeleton.Imports

/-!
# The line of a package

A generated file begins with the line that names its package and an empty line, if there is a
package, and no other line before the header of its type begins like such a line. An empty package
would count as none; but the empty text is no package name.
-/

namespace UmlDraft

open Text

/-- The line that names a package. -/
def packageLine (name : String) : String :=
  "package " ++ name ++ ";"

/-- A line begins like one that names a package. -/
def IsPackageLine (line : List Char) : Prop :=
  "package".toList <+: line

/-- How the lines of a file begin, up to the header of its type. -/
inductive Headed (header : List Char) : Option String → List (List Char) → Prop where
  /-- The package is named in the first line, the second line is empty, and no other line names a
  package. -/
  | packaged {name : String} {before rest : List (List Char)}
    (hbefore : ∀ line ∈ before, ¬ IsPackageLine line) :
    Headed header (some name) ((packageLine name).toList :: [] :: (before ++ header :: rest))
  /-- No line names a package. -/
  | bare {before rest : List (List Char)} (hbefore : ∀ line ∈ before, ¬ IsPackageLine line) :
    Headed header none (before ++ header :: rest)

section Lines

variable {line name : String} {ss : List String} {style : Style}

/-- The lines of a package that is named are its line and an empty one. -/
theorem Style.packageLines_of_some (hstyle : style.packageName = some name)
    (hname : Config.isPackageName name = true) :
    style.packageLines = [packageLine name, ""] := by
  have hne : name ≠ "" := by
    rintro rfl
    exact absurd hname (by decide)
  rw [packageLines, hstyle, Option.filter_some, if_pos (decide_eq_true hne)]
  rfl

theorem Style.packageLines_of_none (hstyle : style.packageName = none) :
    style.packageLines = [] := by
  rw [packageLines, hstyle]
  rfl

/-- No line feed stands in a line that names a package. -/
theorem feed_not_mem_packageLine (hname : Config.isPackageName name = true) :
    '\n' ∉ (packageLine name).toList := by
  have hblankless : '\n' ∉ name.toList := fun hmem => by
    cases isBlank_feed.symm.trans (blankless_of_isPackageName hname '\n' hmem)
  simp only [packageLine, String.toList_append, List.mem_append, not_or]
  exact ⟨⟨by decide, hblankless⟩, by decide⟩

/-- An import line is a single line and does not begin like one that names a package. -/
theorem Signature.plain_of_mem_importLines (h : line ∈ importLines ss) :
    '\n' ∉ line.toList ∧ ¬ IsPackageLine line.toList := by
  have hall : ∀ l ∈ allImportLines, '\n' ∉ l.toList ∧
      "package".toList.isPrefixOf l.toList = false := by
    decide
  obtain ⟨hfeed, hpackage⟩ := hall line ((importLines_sublist_all ss).subset h)
  refine ⟨hfeed, fun hline => ?_⟩
  rw [List.isPrefixOf_iff_prefix.mpr hline] at hpackage
  cases hpackage

end Lines

namespace Declaration

variable {d : Declaration} {m : Model} {style : Style} {source n : String}

/-- The lines between the package and the header of a file. -/
def importBlock (d : Declaration) (m : Model) : List String :=
  if d.imports m = [] then [] else d.imports m ++ [""]

/-- They are single lines, and none of them begins like one that names a package. -/
theorem plain_of_mem_importBlock {line : String} (h : line ∈ d.importBlock m) :
    '\n' ∉ line.toList ∧ ¬ IsPackageLine line.toList := by
  unfold importBlock at h
  split at h
  · cases h
  · rcases List.mem_append.mp h with h | h
    · exact Signature.plain_of_mem_importLines h
    · rw [List.mem_singleton.mp h, IsPackageLine]
      decide

/-- The header of a type is a single line if the names in it are words. -/
theorem feed_not_mem_headerLine (hname : IsName d.name.toList)
    (hparent : ∀ p ∈ d.parentText m, IsName p) (hinterfaces : ∀ i ∈ d.interfaceTexts m, IsName i) :
    '\n' ∉ (d.headerLine m).toList := by
  have hkind : '\n' ∉ d.kind.introduction := by
    cases d.kind <;> decide
  have hclauses : '\n' ∉ (d.header m).clauses := fun hmem =>
    absurd (Header.isClauseChar_of_mem_clauseText hparent hinterfaces hmem) (by decide)
  simp only [headerLine_toList, headerText, List.mem_append, not_or]
  exact ⟨by decide, hkind, hname.not_mem rfl, hclauses, by decide, by decide⟩

/-- The lines of a file whose package and whose header are single lines. -/
theorem headed_render (hp : ∀ p ∈ style.packageName, Config.isPackageName p = true)
    (hheader : '\n' ∉ (d.headerLine m).toList) :
    Headed (d.headerLine m).toList style.packageName ((d.render style m).toList.splitOn '\n') := by
  have himports : ∀ line ∈ (d.importBlock m).map String.toList, '\n' ∉ line :=
    List.forall_mem_map.mpr fun _ hline => (plain_of_mem_importBlock hline).1
  have hbefore : ∀ line ∈ (d.importBlock m).map String.toList, ¬ IsPackageLine line :=
    List.forall_mem_map.mpr fun _ hline => (plain_of_mem_importBlock hline).2
  have hpreamble : (d.preamble style m).map String.toList =
      style.packageLines.map String.toList ++ (d.importBlock m).map String.toList := by
    rw [preamble_eq, List.map_append, importBlock]
  rw [render_eq_lines, hpreamble, lines_append, List.append_assoc]
  cases hstyle : style.packageName with
  | none =>
    rw [Style.packageLines_of_none hstyle, List.map_nil, lines, List.flatMap_nil, List.nil_append,
      splitOn_lines_append himports, List.splitOn_append_cons_self_of_not_mem hheader]
    exact .bare hbefore
  | some name =>
    have hname := hp name hstyle
    have hpackage : ∀ line ∈ [packageLine name, ""].map String.toList, '\n' ∉ line :=
      List.forall_mem_cons.mpr ⟨feed_not_mem_packageLine hname, by simp⟩
    rw [Style.packageLines_of_some hstyle hname, splitOn_lines_append hpackage,
      splitOn_lines_append himports, List.splitOn_append_cons_self_of_not_mem hheader]
    exact .packaged hbefore

/-- The lines of a file that is generated for a declared type. -/
theorem headed_render_of_get? (hp : ∀ p ∈ style.packageName, Config.isPackageName p = true)
    (h : (Model.ofText source).declarations.get? n = some d) :
    Headed (d.headerLine (Model.ofText source)).toList style.packageName
      ((d.render style (Model.ofText source)).toList.splitOn '\n') := by
  have hd := Model.wellFormed_of_get? h
  refine headed_render hp (feed_not_mem_headerLine (hd.name ▸ hd.isName) (fun p hp => ?_)
    fun i hi => ?_)
  · obtain ⟨name, hname, rfl⟩ := declared_of_mem_parentText hp
    exact Model.isName_of_mem_keys hname
  · obtain ⟨name, hname, rfl⟩ := declared_of_mem_interfaceTexts hi
    exact Model.isName_of_mem_keys hname

end Declaration

end UmlDraft
