import Mathlib.Data.List.Forall2
import UmlDraft.Proofs.Diagram.AlikeOutline
import UmlDraft.Proofs.Diagram.ArrowSearch
import UmlDraft.Proofs.Diagram.EdgeOrder

/-!
# Arrows of texts that are alike

The search for an arrow takes words, skips gaps and takes strokes, so it finds the same arrows in
two texts that differ in their gaps. Their offsets differ, but not their order: an offset is the
place of a character that is no blank, and such places come in one order in both texts. Hence the
edges of both texts are sorted alike and give the same relations.
-/

namespace UmlDraft

open Text

variable {text text' s t u v g p : List Char}

namespace Outline

/-- The offset behind a part of a text counts the units of the part. -/
theorem offsetIn_add (h : g ++ u <:+ s) : offsetIn s (g ++ u) + units g = offsetIn s u := by
  obtain ⟨before, rfl⟩ := h
  rw [offsetIn_append, ← List.append_assoc, offsetIn_append, units_append]

/-- A longer ending begins earlier. -/
theorem offsetIn_le_iff (hu : u <:+ s) (hv : v <:+ s) :
    offsetIn s u ≤ offsetIn s v ↔ units v ≤ units u := by
  have hu' := units_le_of_suffix hu
  have hv' := units_le_of_suffix hv
  rw [offsetIn, offsetIn]
  omega

end Outline

open Outline

/-- Edges between the same names, found at the same place of two texts. -/
structure Edge.InStep (text text' : List Char) (e e' : Edge) : Prop where
  /-- The relation is the same. -/
  relation : e.relation = e'.relation
  /-- The source is the same. -/
  source : e.source = e'.source
  /-- The target is the same. -/
  target : e.target = e'.target
  /-- The offsets are those of the same place. -/
  place : ∃ u v, SamePlace text text' u v ∧ e.offset = offsetIn text u ∧
    e'.offset = offsetIn text' v

theorem Edge.InStep.saysSame {e e' : Edge} (h : e.InStep text text' e') : e.SaysSame e' :=
  ⟨h.relation, h.source, h.target⟩

/-- Edges in step come in the same order in both texts. -/
theorem Edge.InStep.offset_le_iff {e e' d d' : Edge} (he : e.InStep text text' e')
    (hd : d.InStep text text' d') : e.offset ≤ d.offset ↔ e'.offset ≤ d'.offset := by
  obtain ⟨u, v, hplace, heu, hev⟩ := he.place
  obtain ⟨x, y, hplace', hdx, hdy⟩ := hd.place
  rw [heu, hev, hdx, hdy, Int.ofNat_le, Int.ofNat_le, offsetIn_le_iff hplace.left hplace'.left,
    offsetIn_le_iff hplace.right hplace'.right, hplace'.units_le_iff hplace]

namespace Arrow

theorem alike_afterShaft? (stroke : Stroke) (h : Alike s t) :
    Option.Rel Alike (afterShaft? stroke.char s) (afterShaft? stroke.char t) := by
  have hchar : ∀ c, (c == stroke.char) = true → isBlank c = false := by
    intro c hc
    rw [beq_iff_eq.mp hc]
    cases stroke with
    | solid | dotted => rfl
  obtain ⟨htake, hdrop⟩ := h.run hchar
  rw [afterShaft?, afterShaft?, htake]
  split
  · exact .some hdrop
  · exact .none

theorem alike_dropLeading? (hp : ∀ c ∈ p, isBlank c = false) (h : Alike s t) :
    Option.Rel Alike (dropLeading? p s) (dropLeading? p t) := by
  refine h.rel fun u v huv a ha => ?_
  obtain rfl := dropLeading?_eq_some_iff.mp ha
  obtain ⟨b, rfl, hab⟩ := huv.of_append hp
  exact ⟨b, dropLeading?_eq_some_iff.mpr rfl, hab⟩

theorem alike_after? (a : Arrow) (h : Alike s t) :
    Option.Rel Alike (a.after? s) (a.after? t) := by
  have hleft : ∀ c ∈ ['<', '|'], isBlank c = false := blankless_of_all rfl
  have hright : ∀ c ∈ ['|', '>'], isBlank c = false := blankless_of_all rfl
  unfold after?
  cases a.head with
  | left =>
    rcases eq_none_or_some_of_rel (alike_dropLeading? hleft h) with
      ⟨hs, ht⟩ | ⟨u, v, hs, ht, huv⟩
    · rw [hs, ht]
      exact .none
    · rw [hs, ht]
      exact alike_afterShaft? a.stroke huv
  | right =>
    rcases eq_none_or_some_of_rel (alike_afterShaft? a.stroke h) with
      ⟨hs, ht⟩ | ⟨u, v, hs, ht, huv⟩
    · rw [hs, ht]
      exact .none
    · rw [hs, ht]
      exact alike_dropLeading? hright huv

/-- Behind an arrow, texts that are alike have the same word on the right. -/
theorem alike_rightWord? (a : Arrow) (h : Alike s t) :
    Option.Rel (fun r r' => leadingWord r ≠ [] ∧ Alike r r') (a.rightWord? s)
      (a.rightWord? t) := by
  rw [rightWord?, rightWord?]
  rcases eq_none_or_some_of_rel (a.alike_after? h.skipBlanks) with ⟨hs, ht⟩ | ⟨r, r', hs, ht, hr⟩
  · rw [hs, ht]
    exact .none
  · simp only [hs, ht, ← hr.skipBlanks.word.1]
    split
    · exact .none
    · next hword => exact .some ⟨hword, hr.skipBlanks⟩

/-- Texts that are alike begin with the same word, and what follows it is alike. -/
theorem exists_word (h : Alike s t) (hw : leadingWord s ≠ []) :
    ∃ w r r', s = w ++ r ∧ t = w ++ r' ∧ IsName w ∧ Alike r r' ∧ Stops isWord r ∧
      Stops isWord r' := by
  obtain ⟨hword, hafter⟩ := h.word
  refine ⟨leadingWord s, afterWord s, afterWord t, (leadingWord_append_afterWord s).symm, ?_,
    isName_leadingWord hw, hafter, stops_dropWhile isWord s, stops_dropWhile isWord t⟩
  rw [hword, leadingWord_append_afterWord]

theorem suffix_of_afterShaft? {stroke : Char} (h : afterShaft? stroke s = some t) : t <:+ s := by
  unfold afterShaft? at h
  split at h
  · cases h
    exact List.dropWhile_suffix _
  · cases h

theorem suffix_of_dropLeading? (h : dropLeading? p s = some t) : t <:+ s :=
  ⟨p, (dropLeading?_eq_some_iff.mp h).symm⟩

theorem suffix_of_after? {a : Arrow} (h : a.after? s = some t) : t <:+ s := by
  unfold after? at h
  split at h
  · obtain ⟨r, hr, ht⟩ := Option.bind_eq_some_iff.mp h
    exact (suffix_of_afterShaft? ht).trans (suffix_of_dropLeading? hr)
  · obtain ⟨r, hr, ht⟩ := Option.bind_eq_some_iff.mp h
    exact (suffix_of_dropLeading? ht).trans (suffix_of_afterShaft? hr)

/-- The word on the right is read further on in the text. -/
theorem suffix_of_rightWord? {a : Arrow} (h : a.rightWord? s = some t) : t <:+ s := by
  unfold rightWord? at h
  split at h
  · cases h
  · next r hr =>
    split at h
    · cases h
    · cases h
      exact (List.dropWhile_suffix isBlank).trans
        ((suffix_of_after? hr).trans (List.dropWhile_suffix isBlank))

/-! ### The search -/

/-- A part without words in front of a text does not change what is found in it. -/
theorem scan_wordless (a : Arrow) (hg : ∀ c ∈ g, isWord c = false) (h : g ++ s <:+ text) :
    a.scan (offsetIn text (g ++ s)) (g ++ s) = a.scan (offsetIn text s) s := by
  rw [scan_append_of_wordless hg, offsetIn_add h]

theorem scan_of_blank (a : Arrow) (offset : Nat) (hg : ∀ c ∈ g, isBlank c = true) :
    a.scan offset g = [] := by
  rw [← List.append_nil g, scan_append_of_wordless fun c hc => isWord_of_isBlank (hg c hc),
    scan_nil]

/-- A word that no arrow follows is passed. -/
theorem scan_passed {a : Arrow} {w r : List Char} (hw : IsName w) (hr : Stops isWord r)
    (hn : a.rightWord? r = none) (h : w ++ r <:+ text) :
    a.scan (offsetIn text (w ++ r)) (w ++ r) = a.scan (offsetIn text r) r := by
  rw [scan_of_none hw hr hn, offsetIn_add h]

/-- A word that an arrow joins to another gives an edge, and the search goes on behind the other. -/
theorem scan_joined {a : Arrow} {w r right z : List Char} (hw : IsName w) (hr : Stops isWord r)
    (hn : a.rightWord? r = some (right ++ z)) (hright : IsName right) (hz : Stops isWord z)
    (h : w ++ r <:+ text) :
    a.scan (offsetIn text (w ++ r)) (w ++ r) =
      a.edge w right (offsetIn text (w ++ r)) :: a.scan (offsetIn text z) z := by
  have hsuffix : z <:+ w ++ r :=
    ((List.suffix_append right z).trans (suffix_of_rightWord? hn)).trans (List.suffix_append w r)
  rw [scan_of_some hw hr hn hright hz]
  obtain ⟨x, hx⟩ := hsuffix
  rw [← hx] at h ⊢
  rw [units_append, Nat.add_sub_cancel, offsetIn_add h]

/-- The edge of an arrow is the same where it is found at the same place. -/
theorem edge_inStep (a : Arrow) (left right : List Char) (h : SamePlace text text' u v) :
    (a.edge left right (offsetIn text u)).InStep text text'
      (a.edge left right (offsetIn text' v)) := by
  unfold edge
  cases a.head with
  | left | right => exact ⟨rfl, rfl, rfl, u, v, h, rfl, rfl⟩

/-- The search for a form of arrow finds the same edges in texts that are alike. -/
theorem alike_scan (a : Arrow) (h : Alike s t) (hs : s <:+ text) (ht : t <:+ text') :
    List.Forall₂ (Edge.InStep text text') (a.scan (offsetIn text s) s)
      (a.scan (offsetIn text' t) t) := by
  induction hn : s.length using Nat.strongRecOn generalizing s t with
  | ind n ih =>
    subst hn
    cases h with
    | blank hg hg' =>
      rw [scan_of_blank a _ hg, scan_of_blank a _ hg']
      exact .nil
    | @gap c g g' s t hg hc h =>
      have hlen := length_lt_append hg.left.ne_nil (c :: s)
      rw [scan_wordless a (fun d hd => isWord_of_isBlank (hg.left.blank d hd)) hs,
        scan_wordless a (fun d hd => isWord_of_isBlank (hg.right.blank d hd)) ht]
      exact ih _ hlen h ((List.suffix_append g _).trans hs) ((List.suffix_append g' _).trans ht) rfl
    | @char c s t hc h =>
      cases hword : isWord c with
      | false =>
        have hskip : ∀ d ∈ [c], isWord d = false := fun d hd => List.mem_singleton.mp hd ▸ hword
        have hs' := scan_wordless a hskip (s := s) hs
        have ht' := scan_wordless a hskip (s := t) ht
        rw [List.singleton_append] at hs' ht'
        rw [hs', ht']
        exact ih s.length (Nat.lt_succ_self _) h ((List.suffix_cons c s).trans hs)
          ((List.suffix_cons c t).trans ht) rfl
      | true =>
        have hne : leadingWord (c :: s) ≠ [] := by
          rw [leadingWord, List.takeWhile_cons_of_pos hword]
          exact List.cons_ne_nil c _
        obtain ⟨w, r, r', hsw, htw, hname, hr, hstop, hstop'⟩ := exists_word (.char hc h) hne
        rw [hsw] at hs ih ⊢
        rw [htw] at ht ⊢
        have hlen := length_lt_append hname.ne_nil r
        rcases eq_none_or_some_of_rel (a.alike_rightWord? hr) with
          ⟨hn, hn'⟩ | ⟨x, x', hn, hn', hx, hxx⟩
        · rw [scan_passed hname hstop hn hs, scan_passed hname hstop' hn' ht]
          exact ih _ hlen hr ((List.suffix_append w r).trans hs)
            ((List.suffix_append w r').trans ht) rfl
        · have hsuffix := (suffix_of_rightWord? hn).trans (List.suffix_append w r)
          have hsuffix' := (suffix_of_rightWord? hn').trans (List.suffix_append w r')
          have hshorter := (suffix_of_rightWord? hn).length_le
          obtain ⟨right, z, z', rfl, rfl, hright, hz, hzstop, hzstop'⟩ := exists_word hxx hx
          have hplace : SamePlace text text' (w ++ r) (w ++ r') :=
            ⟨hs, ht, hname.stops_isBlank, hname.stops_isBlank, hr.append_left w⟩
          rw [scan_joined hname hstop hn hright hzstop hs,
            scan_joined hname hstop' hn' hright hzstop' ht]
          refine .cons (a.edge_inStep w right hplace) ?_
          refine ih z.length ?_ hz ((List.suffix_append right z).trans (hsuffix.trans hs))
            ((List.suffix_append right z').trans (hsuffix'.trans ht)) rfl
          rw [List.length_append] at hshorter
          omega

/-- All arrows of texts that are alike are in step. -/
theorem forall₂_edges {text text' : String}
    (h : Alike (skipBlanks text.toList) (skipBlanks text'.toList)) :
    List.Forall₂ (Edge.InStep text.toList text'.toList) (edges text) (edges text') := by
  have hscan : ∀ (a : Arrow) (s : List Char),
      a.scan 0 s = a.scan (offsetIn s (skipBlanks s)) (skipBlanks s) := by
    intro a s
    have hg : ∀ c ∈ s.takeWhile isBlank, isWord c = false := fun c hc =>
      isWord_of_isBlank (mem_takeWhile hc)
    have hcut : s.takeWhile isBlank ++ skipBlanks s = s := List.takeWhile_append_dropWhile
    have hsuffix : s.takeWhile isBlank ++ skipBlanks s <:+ s := ⟨[], hcut⟩
    have hskip := scan_wordless a hg hsuffix
    rwa [hcut, offsetIn, Nat.sub_self] at hskip
  have hstep : ∀ a : Arrow, List.Forall₂ (Edge.InStep text.toList text'.toList)
      (a.scan 0 text.toList) (a.scan 0 text'.toList) := by
    intro a
    rw [hscan a text.toList, hscan a text'.toList]
    exact a.alike_scan h (List.dropWhile_suffix isBlank) (List.dropWhile_suffix isBlank)
  exact List.rel_flatMap (R := Eq) (List.forall₂_refl all) fun a _ ha => ha ▸ hstep a

end Arrow

/-! ### Relations -/

/-- Related lists that are sorted alike stay related. -/
theorem forall₂_mergeSort {α β : Type} {R : α → β → Prop} {le : α → α → Bool}
    {le' : β → β → Bool} {l : List α} {l' : List β} (h : List.Forall₂ R l l')
    (hle : ∀ a b a' b', R a a' → R b b' → le a b = le' a' b') :
    List.Forall₂ R (l.mergeSort le) (l'.mergeSort le') := by
  -- Both lists are sorted as the list of their pairs.
  obtain ⟨hlen, hzip⟩ := List.forall₂_iff_zip.mp h
  have hpairs : ∀ p ∈ l.zip l', R p.1 p.2 := fun p hp => hzip hp
  have hfst : ((l.zip l').mergeSort fun p q => le p.1 q.1).map Prod.fst = l.mergeSort le := by
    rw [List.map_mergeSort (s := le) fun _ _ _ _ => rfl, List.map_fst_zip (Nat.le_of_eq hlen)]
  have hsnd : ((l.zip l').mergeSort fun p q => le p.1 q.1).map Prod.snd = l'.mergeSort le' := by
    rw [List.map_mergeSort fun p hp q hq => hle p.1 q.1 p.2 q.2 (hpairs p hp) (hpairs q hq),
      List.map_snd_zip (Nat.le_of_eq hlen.symm)]
  rw [← hfst, ← hsnd, List.forall₂_map_left_iff, List.forall₂_map_right_iff, List.forall₂_same]
  exact fun p hp => hpairs p (List.mem_mergeSort.mp hp)

namespace Relationships

/-- Edges in step give the same relations. -/
theorem ofEdges_inStep (declared : String → Bool) {es es' : List Edge}
    (h : List.Forall₂ (Edge.InStep text text') es es') :
    ofEdges declared es = ofEdges declared es' := by
  have hsort : List.Forall₂ (Edge.InStep text text')
      (es.mergeSort fun a b => a.offset ≤ b.offset)
      (es'.mergeSort fun a b => a.offset ≤ b.offset) :=
    forall₂_mergeSort h fun _ _ _ _ he hd => decide_eq_decide.mpr (he.offset_le_iff hd)
  exact foldl_filter_congr declared (hsort.imp fun _ _ he => he.saysSame)

end Relationships

end UmlDraft
