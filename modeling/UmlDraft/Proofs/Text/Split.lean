import UmlDraft.Proofs.Text.Join

/-!
# Split texts

The pieces between the separators of a text stand in it, hold no separator, and there is one more of
them than there are separators. Splitting undoes joining where no text holds the separator.
-/

namespace UmlDraft.Text

variable {c : Char} {s t : List Char}

/-- Splitting gives the pieces of what follows, behind an empty piece or with one more character. -/
theorem splitOn_cons (c a : Char) (s : List Char) : ∃ first more, s.splitOn c = first :: more ∧
    (a :: s).splitOn c = if a = c then [] :: first :: more else (a :: first) :: more := by
  obtain ⟨first, more, h⟩ := List.exists_cons_of_ne_nil (List.splitOn_ne_nil c s)
  refine ⟨first, more, h, ?_⟩
  rw [List.splitOn_cons_eq_if_modifyHead, h]
  simp only [beq_iff_eq, List.modifyHead_cons]

/-- What stands before the first separator stands in the first piece. -/
theorem splitOn_append_of_not_mem {w first : List Char} {more : List (List Char)} (hw : c ∉ w)
    (hs : s.splitOn c = first :: more) : (w ++ s).splitOn c = (w ++ first) :: more := by
  induction w with
  | nil => exact hs
  | cons a w ih =>
    rw [List.mem_cons, not_or] at hw
    obtain ⟨first', more', hsplit, hcons⟩ := splitOn_cons c a (w ++ s)
    rw [ih hw.2, List.cons.injEq] at hsplit
    rw [List.cons_append, hcons, if_neg (Ne.symm hw.1), ← hsplit.1, ← hsplit.2, List.cons_append]

/-- A character other than the separator stands in a piece. -/
theorem exists_mem_splitOn {d : Char} (hd : d ∈ s) (hne : d ≠ c) : ∃ t ∈ s.splitOn c, d ∈ t := by
  have hjoin : [c].intercalate (s.splitOn c) = s := List.intercalate_splitOn c
  rw [← hjoin] at hd
  rcases mem_intercalate hd with hd | hd
  · exact absurd (List.mem_singleton.mp hd) hne
  · exact hd

theorem not_mem_of_mem_splitOn (h : t ∈ s.splitOn c) : c ∉ t := by
  induction s generalizing t with
  | nil =>
    rw [List.splitOn_nil, List.mem_singleton] at h
    exact h ▸ List.not_mem_nil
  | cons a s ih =>
    obtain ⟨first, more, hs, ha⟩ := splitOn_cons c a s
    rw [ha] at h
    rw [hs] at ih
    split at h
    · rcases List.mem_cons.mp h with rfl | h
      · exact List.not_mem_nil
      · exact ih h
    · next hne =>
      rcases List.mem_cons.mp h with rfl | h
      · intro hc
        rcases List.mem_cons.mp hc with rfl | hc
        · exact hne rfl
        · exact ih List.mem_cons_self hc
      · exact ih (List.mem_cons_of_mem first h)

/-- The first piece begins the text, and every piece stands in it. -/
theorem infix_of_mem_splitOn (h : t ∈ s.splitOn c) : t <:+: s := by
  have key : (∀ first ∈ (s.splitOn c).head?, first <+: s) ∧ ∀ t ∈ s.splitOn c, t <:+: s := by
    clear h
    induction s with
    | nil => simp [List.splitOn_nil]
    | cons a s ih =>
      obtain ⟨first, more, hs, ha⟩ := splitOn_cons c a s
      rw [hs] at ih
      have hfirst : first <+: s := ih.1 first rfl
      have hall : ∀ t ∈ first :: more, t <:+: a :: s := fun t ht =>
        (ih.2 t ht).trans (List.suffix_cons a s).isInfix
      rw [ha]
      split
      · refine ⟨fun t ht => ?_, fun t ht => ?_⟩
        · cases ht
          exact List.nil_prefix
        · rcases List.mem_cons.mp ht with rfl | ht
          · exact List.nil_infix
          · exact hall t ht
      · have hpre : a :: first <+: a :: s := List.cons_prefix_cons.mpr ⟨rfl, hfirst⟩
        refine ⟨fun t ht => ?_, fun t ht => ?_⟩
        · cases ht
          exact hpre
        · rcases List.mem_cons.mp ht with rfl | ht
          · exact hpre.isInfix
          · exact hall t (List.mem_cons_of_mem first ht)
  exact key.2 t h

/-- There is one piece more than there are separators. -/
theorem length_splitOn (c : Char) (s : List Char) :
    (s.splitOn c).length = s.count c + 1 := by
  induction s with
  | nil => rfl
  | cons a s ih =>
    obtain ⟨first, more, hs, ha⟩ := splitOn_cons c a s
    rw [hs, List.length_cons] at ih
    rw [ha, List.count_cons]
    split
    · next hc =>
      simp only [List.length_cons, beq_iff_eq, if_pos hc]
      omega
    · next hc =>
      simp only [List.length_cons, beq_iff_eq, if_neg hc]
      omega

/-- What holds no separator stands in the piece behind as many separators as come before it. -/
theorem exists_getElem?_splitOn {w : List Char} (before : List Char) (hw : c ∉ w)
    (rest : List Char) : ∃ t, ((before ++ (w ++ rest)).splitOn c)[before.count c]? = some t ∧
      w <:+: t := by
  induction before with
  | nil =>
    obtain ⟨first, more, hs⟩ := List.exists_cons_of_ne_nil (List.splitOn_ne_nil c rest)
    refine ⟨w ++ first, ?_, (List.prefix_append w first).isInfix⟩
    rw [List.nil_append, splitOn_append_of_not_mem hw hs]
    rfl
  | cons a before ih =>
    obtain ⟨t, ht, hin⟩ := ih
    obtain ⟨first, more, hs, ha⟩ := splitOn_cons c a (before ++ (w ++ rest))
    rw [hs] at ht
    rw [List.cons_append, ha]
    by_cases hc : a = c
    · rw [if_pos hc, hc, List.count_cons_self, List.getElem?_cons_succ]
      exact ⟨t, ht, hin⟩
    · rw [if_neg hc, List.count_cons_of_ne hc]
      cases hn : before.count c with
      | zero =>
        rw [hn, List.getElem?_cons_zero, Option.some.injEq] at ht
        rw [← ht] at hin
        exact ⟨a :: first, rfl, hin.trans (List.suffix_cons a first).isInfix⟩
      | succ n =>
        rw [hn, List.getElem?_cons_succ] at ht
        exact ⟨t, ht, hin⟩

variable {texts : List (List Char)}

/-- The lines that begin a text are split off one by one. -/
theorem splitOn_lines_append (h : ∀ t ∈ texts, '\n' ∉ t) (s : List Char) :
    (lines texts ++ s).splitOn '\n' = texts ++ s.splitOn '\n' := by
  induction texts with
  | nil => rfl
  | cons t texts ih =>
    have ht : '\n' ∉ t := h t List.mem_cons_self
    rw [lines_cons, List.append_assoc, List.cons_append,
      List.splitOn_append_cons_self_of_not_mem ht, ih fun u hu => h u (List.mem_cons_of_mem t hu),
      List.cons_append]

/-- The lines of a text are what stands before its line feeds, and nothing stands behind the last.
-/
theorem splitOn_lines (h : ∀ t ∈ texts, '\n' ∉ t) :
    (lines texts).splitOn '\n' = texts ++ [[]] := by
  have hsplit := splitOn_lines_append h []
  rwa [List.append_nil, List.splitOn_nil] at hsplit

end UmlDraft.Text
