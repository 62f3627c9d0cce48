import UmlDraft.Proofs.Diagram.AlikeMember
import UmlDraft.Proofs.Diagram.MarkerPlace

/-!
# Inserted markers

A marker stands for a space, and sets a flag of the method that its line declares. Where it is
inserted at an end of the line or next to a blank, the space makes a gap longer or is trimmed, so
nothing else of the member changes. A flag that is set stays set, which is why the order in which
several markers are inserted does not matter.
-/

namespace UmlDraft.Member

open Text

variable {m : Modifier} {ms ms' : List Modifier} {u w mk line line' : List Char}

/-- The member with the flag of a modifier set, if it is a method. -/
def mark (m : Modifier) : Member → Member
  | .attribute a => .attribute a
  | .method f =>
    match m with
    | .abstract => .method { f with isAbstract := true }
    | .static => .method { f with isStatic := true }

/-- The member with the flags of modifiers set. -/
def markAll (ms : List Modifier) (member : Member) : Member :=
  ms.foldr mark member

/-- An end of the line or a blank is next to the place between two texts. -/
def Open (u w : List Char) : Prop :=
  (∀ c ∈ u.getLast?, isBlank c = true) ∨ ∀ c ∈ w.head?, isBlank c = true

/-- A line, and the line with markers that have been inserted one after the other, the last of them
first in the list. -/
inductive Inserted : List Modifier → List Char → List Char → Prop
  /-- Nothing has been inserted. -/
  | none {line : List Char} : Inserted [] line line
  /-- One more marker is inserted at an open place. -/
  | marker {m : Modifier} {ms : List Modifier} {line u w mk : List Char}
    (h : Inserted ms line (u ++ w)) (place : Open u w) (said : m.SaidBy mk) :
    Inserted (m :: ms) line (u ++ (mk ++ w))

/-- A modifier among those of a line sets its flag. -/
theorem ofParts_insert (p : Parts) (m : Modifier) (before behind : List Modifier) :
    ofParts p (before ++ m :: behind) = mark m (ofParts p (before ++ behind)) := by
  unfold ofParts
  cases p.parameters with
  | none => rfl
  | some text => cases m <;> simp [mark]

/-- Wherever it stands, a marker reads as a space and sets its flag. -/
theorem ofLine?_append_marker (hmk : m.SaidBy mk) (u w : List Char) :
    ofLine? (u ++ (mk ++ w)) = (ofLine? (u ++ ' ' :: w)).map (mark m) := by
  have hspace : unmark (' ' :: w) = (' ' :: (unmark w).1, (unmark w).2) :=
    unmark_append_of_not_mem (by decide : '{' ∉ [' ']) w
  have hopen : Apart u (mk ++ w) := by
    refine apart_of_seam (.inr fun c hc => ?_)
    obtain ⟨more, rfl, -⟩ := hmk.isMarker.eq_open_cons
    cases hc
    exact .inr rfl
  have hblank : Apart u (' ' :: w) := by
    refine apart_of_seam (.inr fun c hc => ?_)
    cases hc
    exact .inl isBlank_space
  rw [ofLine?, ofLine?, unmark_append hopen, unmark_append hblank, unmark_append_marker hmk, hspace,
    Option.map_map]
  exact Option.map_congr fun p _ => ofParts_insert p m _ _

/-- A space next to a blank makes a gap that is like the blank. -/
theorem sameGap_space {c : Char} (hc : isBlank c = true) :
    SameGap [c, ' '] [c] ∧ SameGap [' ', c] [c] := by
  have hblank : ∀ d ∈ [c], isBlank d = true := fun d hd => List.mem_singleton.mp hd ▸ hc
  refine ⟨⟨⟨List.cons_ne_nil _ _, ?_⟩, ⟨List.cons_ne_nil c _, hblank⟩, by simp⟩,
    ⟨⟨List.cons_ne_nil _ _, ?_⟩, ⟨List.cons_ne_nil c _, hblank⟩, by simp⟩⟩
  · exact List.forall_mem_cons.mpr ⟨hc, isGap_space.blank⟩
  · exact List.forall_mem_cons.mpr ⟨isBlank_space, hblank⟩

/-- A space next to a blank or at an end of a line does not matter. -/
theorem ofLine?_append_space (h : Open u w) : ofLine? (u ++ ' ' :: w) = ofLine? (u ++ w) := by
  rcases h with h | h
  · rcases List.eq_nil_or_concat u with rfl | ⟨v, c, rfl⟩
    · exact ofLine?_cons_of_blank isBlank_space w
    · rw [List.concat_eq_append] at h ⊢
      have hc : isBlank c = true := h c (by simp)
      have halike := (Alike.refl w).gap_append (sameGap_space hc).1
      rw [List.append_assoc, List.append_assoc]
      exact alike_ofLine? (halike.append_left v)
  · cases w with
    | nil =>
      have hend : Alike [' '] [] := .blank isGap_space.blank fun _ hc => nomatch hc
      exact alike_ofLine? (hend.append_left u)
    | cons c w =>
      have halike := (Alike.refl w).gap_append (sameGap_space (h c rfl)).2
      exact alike_ofLine? (halike.append_left u)

/-- One marker that is inserted at an open place sets its flag and changes nothing else. -/
theorem ofLine?_insert (h : Open u w) (hmk : m.SaidBy mk) :
    ofLine? (u ++ (mk ++ w)) = (ofLine? (u ++ w)).map (mark m) := by
  rw [ofLine?_append_marker hmk, ofLine?_append_space h]

/-- Markers that are inserted set their flags and change nothing else. -/
theorem Inserted.ofLine? (h : Inserted ms line line') :
    ofLine? line' = (ofLine? line).map (markAll ms) := by
  induction h with
  | none => exact Option.map_id'.symm
  | marker h place said ih =>
    rw [ofLine?_insert place said, ih, Option.map_map]
    rfl

/-- A line stays a line. -/
theorem Inserted.feed_not_mem (h : Inserted ms line line') (hline : '\n' ∉ line) :
    '\n' ∉ line' := by
  induction h with
  | none => exact hline
  | marker h place said ih =>
    have hrest := ih hline
    rw [List.mem_append, not_or] at hrest
    have hmarker := said.isMarker.blankless '\n'
    rw [List.mem_append, List.mem_append, not_or, not_or]
    exact ⟨hrest.1, fun hmem => absurd (hmarker hmem) (by decide), hrest.2⟩

/-- Flags are set in any order. -/
theorem mark_comm (m n : Modifier) (member : Member) :
    mark m (mark n member) = mark n (mark m member) := by
  rcases member with a | f
  · rfl
  · cases m <;> cases n <;> rfl

theorem markAll_perm (h : ms.Perm ms') : markAll ms = markAll ms' := by
  funext member
  exact h.foldr_eq' (fun m _ n _ member => mark_comm n m member) member

/-- Markers that are inserted at open places of a line set the flags of its method and change
nothing else: neither the attributes nor the name, the type, the parameters and the visibility. In
another order, and at other places, they give the same members. -/
theorem ofBody_inserted (hline : '\n' ∉ line) (h : Inserted ms line line') :
    ofBody (.ofList line') = (ofBody (.ofList line)).map (markAll ms) ∧
      ∀ ms' line'', ms'.Perm ms → Inserted ms' line line'' →
        ofBody (.ofList line'') = ofBody (.ofList line') := by
  have hbody : ∀ {ms line'}, Inserted ms line line' →
      ofBody (.ofList line') = (ofBody (.ofList line)).map (markAll ms) := by
    intro ms line' h
    rw [ofBody_ofList, ofBody_ofList, ofLines_of_not_mem (h.feed_not_mem hline),
      ofLines_of_not_mem hline, h.ofLine?, Option.toList_map]
  refine ⟨hbody h, fun ms' line'' hperm h' => ?_⟩
  rw [hbody h, hbody h', markAll_perm hperm]

/-- A static marker before the symbol and an abstract one within the return type set both flags. -/
theorem ofBody_inserted_twice :
    Inserted [.static, .abstract] "- run(): Map<A, B>".toList
        "\x7bClassifier\x7d- run(): Map<A, \x7bABSTRACT\x7dB>".toList ∧
      ofBody "\x7bClassifier\x7d- run(): Map<A, \x7bABSTRACT\x7dB>" =
        [.method {
          visibility := .priv, name := "run", parameters := [], returnType := "Map<A, B>"
          isAbstract := true, isStatic := true }] := by
  have habstract : Modifier.SaidBy .abstract "\x7bABSTRACT\x7d".toList :=
    ⟨"\x7babstract\x7d", by decide, by decide⟩
  have hstatic : Modifier.SaidBy .static "\x7bClassifier\x7d".toList :=
    ⟨"\x7bclassifier\x7d", by decide, by decide⟩
  have hlast : "- run(): Map<A, ".toList.getLast? = some ' ' := by decide
  have hone : Inserted [.abstract] "- run(): Map<A, B>".toList
      "- run(): Map<A, \x7bABSTRACT\x7dB>".toList :=
    .marker (u := "- run(): Map<A, ".toList) (w := "B>".toList) .none
      (.inl fun c hc => Option.mem_some_iff.mp (hlast ▸ hc) ▸ isBlank_space) habstract
  have hboth : Inserted [.static, .abstract] "- run(): Map<A, B>".toList
      "\x7bClassifier\x7d- run(): Map<A, \x7bABSTRACT\x7dB>".toList :=
    .marker (u := []) (w := "- run(): Map<A, \x7bABSTRACT\x7dB>".toList) hone
      (.inl fun _ hc => nomatch hc) hstatic
  have hfeed : '\n' ∉ "- run(): Map<A, B>".toList := by decide
  have hplain : ofLine? "- run(): Map<A, B>".toList =
      some (.method ⟨.priv, "run", [], "Map<A, B>", false, false⟩) := by
    rw [ofLine?, (markerFree_of_not_mem (by decide)).unmark_eq]
    rfl
  have hbody := (ofBody_inserted hfeed hboth).1
  rw [ofBody_ofList "- run(): Map<A, B>".toList, ofLines_of_not_mem hfeed, hplain,
    String.ofList_toList] at hbody
  exact ⟨hboth, hbody⟩

end UmlDraft.Member
