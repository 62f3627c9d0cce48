import UmlDraft.Proofs.Diagram.Header
import UmlDraft.Proofs.Text.Braces

/-!
# Where declarations stand

A declaration stands where a header text, a balanced body and a closing brace follow one another.
The search for declarations finds such places only, each behind the closing brace of the one
before; and a header that it passes over either lies in a declaration that was found or has a body
that never ends.
-/

namespace UmlDraft.Outline

open Text

/-- A declaration divides the text from its header on into the header text, its body and its closing
brace, and what comes behind. -/
structure Occurrence.Stands (o : Occurrence) (text after : List Char) : Prop where
  /-- The parts make up the text. -/
  start_eq : o.start = text ++ (o.body ++ '}' :: after)
  /-- The header is what its text captures. -/
  captures : o.header.Captures text
  /-- The closing brace balances the opening one. -/
  balanced : Balanced o.body

/-- Whether a word is under way behind a text, given whether one was under way before it. -/
def wordBehind (afterWord : Bool) (s : List Char) : Bool :=
  s.foldl (fun _ c => isWord c) afterWord

@[simp] theorem wordBehind_nil (f : Bool) : wordBehind f [] = f := rfl

@[simp] theorem wordBehind_cons (f : Bool) (c : Char) (s : List Char) :
    wordBehind f (c :: s) = wordBehind (isWord c) s := rfl

theorem wordBehind_append (f : Bool) (s t : List Char) :
    wordBehind f (s ++ t) = wordBehind (wordBehind f s) t :=
  List.foldl_append

/-- A word is under way behind a text if its last character belongs to one. -/
theorem wordBehind_false_iff {s : List Char} :
    wordBehind false s = false ↔ ∀ c ∈ s.getLast?, isWord c = false := by
  cases hs : s.getLast? with
  | none =>
    rw [List.getLast?_eq_none_iff] at hs
    simp [hs]
  | some c =>
    obtain ⟨before, rfl⟩ := List.getLast?_eq_some_iff.mp hs
    simp [wordBehind_append]

section Search

variable {f : Bool} {c : Char} {s t rest inside body after : List Char} {header : Header}

@[simp] theorem occurrences_nil : occurrences f [] = [] := by
  rw [occurrences]

/-- Where no header begins, the search goes on at the next character. -/
theorem occurrences_cons (h : f = true ∨ Header.read? (c :: rest) = none) :
    occurrences f (c :: rest) = occurrences (isWord c) rest := by
  have hn : (if f then none else Header.read? (c :: rest)) = none := by
    rcases h with rfl | h
    · rfl
    · simp [h]
  rw [occurrences]
  split
  · rfl
  · next hs => rw [hn] at hs; cases hs

/-- A header with a body that ends is a declaration, and the search goes on behind it. -/
theorem occurrences_of_body (hr : Header.read? s = some (header, inside))
    (hb : bodyEnd? 0 inside = some (body, after)) :
    occurrences false s = ⟨s, header, body⟩ :: occurrences false after := by
  cases s with
  | nil => cases hr
  | cons c rest =>
    have hs : (if false = true then none else Header.read? (c :: rest)) =
        some (header, inside) := hr
    rw [occurrences]
    split
    · next hn => rw [hs] at hn; cases hn
    · next hn =>
      rw [hs] at hn
      cases hn
      split
      · next hb' => rw [hb] at hb'; cases hb'; rfl
      · next hb' => rw [hb] at hb'; cases hb'

/-- A header with a body that never ends is no declaration, and the search goes on inside it. -/
theorem occurrences_of_unclosed (hr : Header.read? s = some (header, inside))
    (hb : bodyEnd? 0 inside = none) : occurrences false s = occurrences false inside := by
  cases s with
  | nil => cases hr
  | cons c rest =>
    have hs : (if false = true then none else Header.read? (c :: rest)) =
        some (header, inside) := hr
    rw [occurrences]
    split
    · next hn => rw [hs] at hn; cases hn
    · next hn =>
      rw [hs] at hn
      cases hn
      split
      · next hb' => rw [hb] at hb'; cases hb'
      · rfl

theorem eq_some_of_ite {α : Type} {o : Option α} {r : α} (h : (if f then none else o) = some r) :
    f = false ∧ o = some r := by
  cases f with
  | false => exact ⟨rfl, h⟩
  | true => cases h

/-- A header with a body that ends is a declaration that stands where the header begins. -/
theorem exists_stands (hr : Header.read? s = some (header, inside))
    (hb : bodyEnd? 0 inside = some (body, after)) :
    ∃ text, Occurrence.Stands ⟨s, header, body⟩ text after := by
  obtain ⟨text, rfl, hc⟩ := Header.read?_eq_some_iff.mp hr
  obtain ⟨rfl, hbal⟩ := bodyEnd?_eq_some_iff.mp hb
  exact ⟨text, rfl, hc, hbal⟩

/-- No word is under way behind an opening brace. -/
theorem wordBehind_of_captures {text : List Char} (hc : header.Captures text) (f : Bool) :
    wordBehind f text = false := by
  obtain ⟨before, rfl, -⟩ := hc.divides.eq_append_open
  rw [wordBehind_append]
  rfl

/-- Every declaration that is found stands in the text, and no word is under way before it. -/
theorem exists_stands_of_mem {o : Occurrence} (ho : o ∈ occurrences f s) :
    ∃ before text after, s = before ++ o.start ∧ wordBehind f before = false ∧
      o.Stands text after := by
  fun_induction occurrences f s with
  | case1 => cases ho
  | case2 f c rest hn ih =>
    obtain ⟨before, text, after, rfl, hw, hst⟩ := ih ho
    exact ⟨c :: before, text, after, rfl, hw, hst⟩
  | case3 f c rest header inside hr body after hb ih =>
    obtain ⟨rfl, hr⟩ := eq_some_of_ite hr
    obtain ⟨text, hst⟩ := exists_stands hr hb
    rcases List.mem_cons.mp ho with rfl | ho
    · exact ⟨[], text, after, rfl, rfl, hst⟩
    · obtain ⟨before, text', after', he, hw, hst'⟩ := ih ho
      have hstart : c :: rest = text ++ (body ++ '}' :: after) := hst.start_eq
      refine ⟨text ++ (body ++ '}' :: before), text', after', ?_, ?_, hst'⟩
      · rw [hstart, he]
        simp only [List.append_assoc, List.cons_append]
      · rw [wordBehind_append, wordBehind_append]
        exact hw
  | case4 f c rest header inside hr hb ih =>
    obtain ⟨rfl, hr⟩ := eq_some_of_ite hr
    obtain ⟨text, he, hc⟩ := Header.read?_eq_some_iff.mp hr
    obtain ⟨before, text', after', rfl, hw, hst⟩ := ih ho
    refine ⟨text ++ before, text', after', by rw [he, List.append_assoc], ?_, hst⟩
    rw [wordBehind_append, wordBehind_of_captures hc, hw]

/-- No declaration is found in a text without opening braces. -/
theorem occurrences_of_not_mem (h : '{' ∉ s) : occurrences false s = [] := by
  rw [List.eq_nil_iff_forall_not_mem]
  intro o ho
  obtain ⟨front, text, after, rfl, -, hst⟩ := exists_stands_of_mem ho
  obtain ⟨keywords, rfl, -⟩ := hst.captures.divides.eq_append_open
  refine h (List.mem_append_right front ?_)
  rw [hst.start_eq, List.append_assoc]
  exact List.mem_append_right keywords List.mem_cons_self

/-- Of two declarations that are found, the later stands behind the closing brace of the earlier. -/
theorem occurrences_pairwise (f : Bool) (s : List Char) :
    (occurrences f s).Pairwise fun o o' => ∃ text after, o.Stands text after ∧
      o'.start <:+ after := by
  fun_induction occurrences f s with
  | case1 => exact .nil
  | case2 f c rest hn ih => exact ih
  | case3 f c rest header inside hr body after hb ih =>
    obtain ⟨rfl, hr⟩ := eq_some_of_ite hr
    obtain ⟨text, hst⟩ := exists_stands hr hb
    refine List.pairwise_cons.mpr ⟨fun o' ho' => ?_, ih⟩
    obtain ⟨before, -, -, he, -⟩ := exists_stands_of_mem ho'
    exact ⟨text, after, hst, before, he.symm⟩
  | case4 f c rest header inside hr hb ih => exact ih

/-- A header that begins within a header text has the same opening brace. -/
theorem inside_eq_of_suffix {text u w t inside' : List Char} {header' : Header}
    (hc : header'.Captures text) (hu : u ++ w = text) (hne : w ≠ []) (ht : w ++ inside' = t)
    (hr : Header.read? t = some (header, inside)) : inside = inside' := by
  obtain ⟨before, hbefore, hopen⟩ := hc.divides.eq_append_open
  obtain ⟨text', rfl, hc'⟩ := Header.read?_eq_some_iff.mp hr
  obtain ⟨before', rfl, hopen'⟩ := hc'.divides.eq_append_open
  obtain ⟨w', a, rfl⟩ : ∃ w' a, w = w' ++ [a] :=
    ⟨w.dropLast, w.getLast hne, (List.dropLast_concat_getLast hne).symm⟩
  rw [← List.append_assoc, hbefore] at hu
  obtain ⟨hw, ha⟩ := List.append_inj' hu rfl
  cases ha
  have hopenw : '{' ∉ w' := fun hm => hopen (hw ▸ List.mem_append_right u hm)
  rw [List.append_assoc, List.append_assoc, List.singleton_append, List.singleton_append] at ht
  exact (split_first ht hopenw hopen').2.symm

/-- A header with a body that ends, at a place where no word is under way, lies in a declaration
that is found. -/
theorem exists_covering {u t : List Char} (hs : s = u ++ t) (hw : wordBehind f u = false)
    (hr : Header.read? t = some (header, inside)) (hb : bodyEnd? 0 inside = some (body, after)) :
    ∃ o ∈ occurrences f s, ∃ text after', o.Stands text after' ∧ t <:+ o.start ∧
      after'.length < t.length := by
  fun_induction occurrences f s generalizing u with
  | case1 f =>
    obtain ⟨-, rfl⟩ := List.append_eq_nil_iff.mp hs.symm
    cases hr
  | case2 f c rest hn ih =>
    cases u with
    | nil =>
      cases hs
      simp only [wordBehind_nil] at hw
      rw [hw] at hn
      rw [show Header.read? (c :: rest) = none from hn] at hr
      cases hr
    | cons a u =>
      simp only [List.cons_append, List.cons.injEq] at hs
      obtain ⟨rfl, hs⟩ := hs
      exact ih hs hw
  | case3 f c rest header' inside' hr' body' after' hb' ih =>
    obtain ⟨rfl, hr'⟩ := eq_some_of_ite hr'
    obtain ⟨text, hst⟩ := exists_stands hr' hb'
    by_cases hlen : after'.length < t.length
    · exact ⟨_, List.mem_cons_self, text, after', hst, ⟨u, hs.symm⟩, hlen⟩
    · have hstart : c :: rest = text ++ (body' ++ '}' :: after') := hst.start_eq
      have hsuf : after' <:+ c :: rest := ⟨text ++ (body' ++ ['}']), by simp [hstart]⟩
      obtain ⟨v, hv⟩ := List.suffix_of_suffix_length_le ⟨u, hs.symm⟩ hsuf (Nat.le_of_not_lt hlen)
      have hu : u = text ++ (body' ++ '}' :: v) := by
        apply (List.append_left_inj t).mp
        rw [← hs, hstart, ← hv]
        simp only [List.append_assoc, List.cons_append]
      have hwv : wordBehind false v = false := by
        rw [hu, wordBehind_append, wordBehind_append] at hw
        exact hw
      obtain ⟨o, ho, hcov⟩ := ih hv.symm hwv
      exact ⟨o, List.mem_cons_of_mem _ ho, hcov⟩
  | case4 f c rest header' inside' hr' hb' ih =>
    obtain ⟨rfl, hr'⟩ := eq_some_of_ite hr'
    obtain ⟨text, hstart, hc⟩ := Header.read?_eq_some_iff.mp hr'
    have hsuf : inside' <:+ c :: rest := ⟨text, hstart.symm⟩
    by_cases hlen : inside'.length < t.length
    · -- A header inside a header text has the same opening brace, so its body never ends either.
      obtain ⟨w, hw'⟩ := List.suffix_of_suffix_length_le hsuf ⟨u, hs.symm⟩ (Nat.le_of_lt hlen)
      have huw : u ++ w = text := by
        apply (List.append_left_inj inside').mp
        rw [← hstart, hs, ← hw', List.append_assoc]
      have hne : w ≠ [] := by
        rintro rfl
        simp only [List.nil_append] at hw'
        rw [hw'] at hlen
        exact absurd hlen (Nat.lt_irrefl _)
      have hin := inside_eq_of_suffix hc huw hne (hw'.trans rfl) hr
      rw [hin, hb'] at hb
      cases hb
    · obtain ⟨v, hv⟩ := List.suffix_of_suffix_length_le ⟨u, hs.symm⟩ hsuf (Nat.le_of_not_lt hlen)
      have hu : u = text ++ v := by
        apply (List.append_left_inj t).mp
        rw [← hs, hstart, ← hv, List.append_assoc]
      have hwv : wordBehind false v = false := by
        rw [hu, wordBehind_append, wordBehind_of_captures hc] at hw
        exact hw
      exact ih hv.symm hwv

end Search

end UmlDraft.Outline
