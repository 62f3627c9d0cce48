import UmlDraft.Proofs.Diagram.Repadding
import UmlDraft.Proofs.Table
import UmlDraft.Proofs.Text.Join
import UmlDraft.Skeleton.Source

/-!
# Padding of diagram texts

Indentation, blanks at the end of lines and carriage returns before line feeds do not matter. Lines
with padding around them make a repadded form of the text of the lines, so the diagram is the same
line by line, but for the bodies; and since generated files are made from the members and not from
the bodies, they are the same as well.
-/

namespace UmlDraft

open Text

/-- A line with padding before and behind it. -/
structure PaddedLine where
  /-- The indentation. -/
  lead : String
  /-- The line. -/
  text : String
  /-- What stands behind the line. -/
  trail : String
  /-- The indentation is spaces and tabs. -/
  lead_isPad : ∀ c ∈ lead.toList, isPad c = true
  /-- Behind the line there are spaces, tabs and carriage returns. -/
  trail_isTrailing : ∀ c ∈ trail.toList, isTrailing c = true

namespace PaddedLine

/-- The line with its padding. -/
def padded (l : PaddedLine) : String :=
  l.lead ++ l.text ++ l.trail

/-- The text of the lines with their padding. -/
def joinPadded (ls : List PaddedLine) : String :=
  "\n".intercalate (ls.map padded)

/-- The text of the lines without their padding. -/
def joinBare (ls : List PaddedLine) : String :=
  "\n".intercalate (ls.map text)

end PaddedLine

/-- The text with a carriage return before every line feed. -/
def withReturns (source : String) : String :=
  .ofList (source.toList.flatMap fun c => if c = '\n' then ['\r', '\n'] else [c])

namespace Text

variable {a a' : List Char}

/-- Lines with padding, each behind a line feed, are a repadded form of the lines. The padding at
the end of a line belongs to the line feed behind it. -/
theorem repadded_paddedLines (ls : List PaddedLine) (ha : ∀ c ∈ a, isTrailing c = true)
    (ha' : ∀ c ∈ a', isTrailing c = true) :
    Repadded (a ++ (ls.map fun l => l.text.toList).flatMap ('\n' :: ·))
      (a' ++ (ls.map fun l => l.padded.toList).flatMap ('\n' :: ·)) := by
  induction ls generalizing a a' with
  | nil =>
    rw [List.map_nil, List.map_nil, List.flatMap_nil, List.append_nil, List.append_nil]
    exact .ending ha ha'
  | cons l ls ih =>
    have hrest := (ih (List.forall_mem_nil _) l.trail_isTrailing).append_left l.text.toList
    have hline := Repadded.line ha ha' (List.forall_mem_nil _) l.lead_isPad hrest
    simpa only [List.map_cons, List.flatMap_cons, PaddedLine.padded, String.toList_append,
      List.append_assoc, List.cons_append, List.nil_append] using hline

/-- Behind a line feed, the text of padded lines is a repadded form of the text of the lines. -/
theorem repadded_joinPadded (ls : List PaddedLine) :
    Repadded ('\n' :: (PaddedLine.joinBare ls).toList)
      ('\n' :: (PaddedLine.joinPadded ls).toList) := by
  cases ls with
  | nil => exact .refl _
  | cons l ls =>
    have hfeed : "\n".toList = ['\n'] := rfl
    have hlines := repadded_paddedLines (l :: ls) (List.forall_mem_nil _) (List.forall_mem_nil _)
    rw [List.nil_append, List.nil_append, List.map_cons, List.map_cons, ← cons_intercalate_feed,
      ← cons_intercalate_feed] at hlines
    rw [PaddedLine.joinBare, PaddedLine.joinPadded, String.toList_intercalate,
      String.toList_intercalate, hfeed, List.map_map, List.map_map]
    exact hlines

/-- A carriage return before a line feed is padding. -/
theorem repadded_withReturns (source : String) :
    Repadded source.toList (withReturns source).toList := by
  rw [withReturns, String.toList_ofList]
  induction source.toList with
  | nil => exact .refl []
  | cons c s ih =>
    rw [List.flatMap_cons]
    by_cases hc : c = '\n'
    · have hreturn : ∀ c ∈ ['\r'], isTrailing c = true := fun c hc => List.mem_singleton.mp hc ▸ rfl
      have hline := Repadded.line (List.forall_mem_nil _) hreturn (List.forall_mem_nil _)
        (List.forall_mem_nil _) ih
      rw [if_pos hc, hc]
      exact hline
    · rw [if_neg hc]
      exact .char c ih

end Text

/-- Once their blocks are blanked, texts that are repadded forms of each other behind a line feed
still are. -/
theorem Comment.repadded_cons_stripBlocks {s t : List Char} (h : Repadded ('\n' :: s) ('\n' :: t)) :
    Repadded ('\n' :: stripBlocks s) ('\n' :: stripBlocks t) := by
  have hfeed : ∀ k : List Char, stripBlocks ('\n' :: k) = '\n' :: stripBlocks k := fun k =>
    stripBlocks.eq_3 '\n' k fun _ hc => absurd hc (by decide)
  rw [← hfeed, ← hfeed]
  exact repadded_stripBlocks h

/-- A declared type is laid out alike in a diagram without bodies. -/
theorem Declaration.render_bodiless (style : Style) (d : Declaration) (m : Model) :
    d.bodiless.render style m.bodiless = d.render style m := by
  have hinherited : d.bodiless.inherited m.bodiless = d.inherited m := by
    have hparent : (m.bodiless.parent? d.name).bind m.bodiless.declarations.get? =
        ((m.parent? d.name).bind m.declarations.get?).map bodiless := by
      rw [Option.map_bind]
      exact Option.bind_congr fun parent _ => Table.get?_mapValues bodiless _ parent
    unfold inherited
    rw [show d.bodiless.name = d.name from rfl, hparent]
    cases (m.parent? d.name).bind m.declarations.get? with
    | none => rfl
    | some parent => rfl
  have hblocks : d.bodiless.blocks m.bodiless = d.blocks m := by
    rw [blocks, hinherited]
    rfl
  have hpreamble : d.bodiless.preamble style m.bodiless = d.preamble style m := by
    rw [preamble, signatures, hinherited]
    rfl
  rw [render, bodyText, hblocks, hpreamble]
  rfl

namespace Model

/-- Generated files do not depend on the bodies. -/
theorem render_bodiless (style : Style) (m : Model) : m.bodiless.render style = m.render style := by
  rw [render, render, bodiless, Table.values_mapValues, List.map_map]
  exact congrArg Table.ofList
    (List.map_congr_left fun d _ => Prod.ext rfl (d.render_bodiless style m))

/-- Texts that are repadded forms of each other behind a line feed describe the same diagram, but
for the bodies, and the files generated from them are the same. -/
theorem ofText_eq_of_repadded {source source' : String} (style : Style)
    (h : Repadded ('\n' :: source.toList) ('\n' :: source'.toList)) :
    (ofText source').bodiless = (ofText source).bodiless ∧
      generate style source' = generate style source := by
  have hmodel := ofText_repadded (Comment.repadded_cons_stripBlocks h)
  refine ⟨hmodel, ?_⟩
  rw [generate, generate, ← render_bodiless, hmodel, render_bodiless]

/-- Padding at the beginning and at the end of lines, carriage returns included, matters neither to
the diagram, but for the bodies, nor to the generated files; so carriage returns before all line
feeds do not matter. -/
theorem ofText_padded (style : Style) (ls : List PaddedLine) (source : String) :
    ((ofText (PaddedLine.joinPadded ls)).bodiless = (ofText (PaddedLine.joinBare ls)).bodiless ∧
      generate style (PaddedLine.joinPadded ls) = generate style (PaddedLine.joinBare ls)) ∧
    ((ofText (withReturns source)).bodiless = (ofText source).bodiless ∧
      generate style (withReturns source) = generate style source) :=
  ⟨ofText_eq_of_repadded style (repadded_joinPadded ls),
    ofText_eq_of_repadded style (.char '\n' (repadded_withReturns source))⟩

/-- A class with one attribute, as three lines of which each has padding of its own. -/
def paddedClass : List PaddedLine :=
  [⟨"\t", "class A \x7b", " \r", List.all_eq_true.mp rfl, List.all_eq_true.mp rfl⟩,
    ⟨"  ", "- n: int", "\t", List.all_eq_true.mp rfl, List.all_eq_true.mp rfl⟩,
    ⟨"", "\x7d", "\r", List.all_eq_true.mp rfl, List.all_eq_true.mp rfl⟩]

example :
    PaddedLine.joinPadded paddedClass = "\tclass A \x7b \r\n  - n: int\t\n\x7d\r" ∧
      ofText (PaddedLine.joinPadded paddedClass) ≠ ofText (PaddedLine.joinBare paddedClass) ∧
      (ofText (PaddedLine.joinPadded paddedClass)).bodiless.declarations.get? "A" =
        some ⟨"A", .concreteClass, "", [⟨.priv, "int", "n"⟩], [], 1⟩ := by
  decide +kernel

end Model

end UmlDraft
