import UmlDraft.Diagram.Outline

/-!
# Balanced braces

A text is balanced if none of its beginnings closes more braces than it opens and the whole closes
as many as it opens. The level of braces open behind a text is computed from its pieces, so that
texts put together from balanced pieces are balanced. Main statement: a body ends at the one
closing brace before which its text is balanced.
-/

namespace UmlDraft.Text

/-- A text in which every closing brace closes an opening one and none is left open. -/
structure Balanced (s : List Char) : Prop where
  /-- No beginning closes more braces than it opens. -/
  count_le : ∀ p, p <+: s → p.count '}' ≤ p.count '{'
  /-- The whole text closes as many braces as it opens. -/
  count_eq : s.count '}' = s.count '{'

/-- How many braces are open behind a text, given how many are open before it; nothing if the text
closes a brace that is not open. -/
def level? : Nat → List Char → Option Nat
  | d, [] => some d
  | d, '{' :: s => level? (d + 1) s
  | 0, '}' :: _ => none
  | d + 1, '}' :: s => level? d s
  | d, _ :: s => level? d s

@[simp] theorem level?_nil (d : Nat) : level? d [] = some d := by
  rw [level?]

@[simp] theorem level?_open (d : Nat) (s : List Char) :
    level? d ('{' :: s) = level? (d + 1) s := by
  cases d <;> rfl

@[simp] theorem level?_close_zero (s : List Char) : level? 0 ('}' :: s) = none := rfl

@[simp] theorem level?_close_succ (d : Nat) (s : List Char) :
    level? (d + 1) ('}' :: s) = level? d s := rfl

theorem level?_cons_of_ne {c : Char} (ho : c ≠ '{') (hc : c ≠ '}') (d : Nat) (s : List Char) :
    level? d (c :: s) = level? d s := by
  rw [level?.eq_5 d c s ho (fun _ => hc) (fun _ _ => hc)]

/-- The level behind two texts is the level behind the second from that behind the first. -/
theorem level?_append (d : Nat) (s t : List Char) :
    level? d (s ++ t) = (level? d s).bind fun e => level? e t := by
  fun_induction level? d s with
  | case1 d => rfl
  | case2 d s ih => rw [List.cons_append, level?_open, ih]
  | case3 s => rfl
  | case4 d s ih => rw [List.cons_append, level?_close_succ, ih]
  | case5 d c s ho hz hs ih =>
    have hc : c ≠ '}' := by
      intro e
      cases d with
      | zero => exact hz rfl e
      | succ d => exact hs d rfl e
    rw [List.cons_append, level?_cons_of_ne ho hc, ih]

/-- A text without braces keeps the level. -/
theorem level?_of_braceless {s : List Char} (ho : '{' ∉ s) (hc : '}' ∉ s) (d : Nat) :
    level? d s = some d := by
  induction s with
  | nil => rfl
  | cons c s ih =>
    rw [List.mem_cons, not_or] at ho hc
    rw [level?_cons_of_ne (Ne.symm ho.1) (Ne.symm hc.1), ih ho.2 hc.2]

private theorem forall_prefix_cons {P : List Char → Prop} {c : Char} {s : List Char} :
    (∀ p, p <+: c :: s → P p) ↔ P [] ∧ ∀ p, p <+: s → P (c :: p) := by
  constructor
  · intro h
    exact ⟨h [] List.nil_prefix, fun p hp => h (c :: p) (List.prefix_cons_inj c |>.mpr hp)⟩
  · rintro ⟨hn, hc⟩ p hp
    rcases List.prefix_cons_iff.mp hp with rfl | ⟨t, rfl, ht⟩
    · exact hn
    · exact hc t ht

/-- The level of a text counts its braces, and it has one if no beginning closes too many. -/
theorem level?_eq_some_iff {d e : Nat} {s : List Char} :
    level? d s = some e ↔ (∀ p, p <+: s → p.count '}' ≤ p.count '{' + d) ∧
      s.count '}' + e = s.count '{' + d := by
  induction s generalizing d with
  | nil =>
    simp only [level?_nil, Option.some.injEq, List.prefix_nil, forall_eq, List.count_nil]
    omega
  | cons c s ih =>
    rw [forall_prefix_cons]
    by_cases ho : c = '{'
    · subst ho
      simp only [level?_open, ih, List.count_nil, List.count_cons_self,
        List.count_cons_of_ne (show ('{' : Char) ≠ '}' by decide)]
      constructor
      · rintro ⟨hp, he⟩
        exact ⟨⟨by omega, fun p h => by have := hp p h; omega⟩, by omega⟩
      · rintro ⟨⟨-, hp⟩, he⟩
        exact ⟨fun p h => by have := hp p h; omega, by omega⟩
    · by_cases hc : c = '}'
      · subst hc
        simp only [List.count_nil, List.count_cons_self,
          List.count_cons_of_ne (show ('}' : Char) ≠ '{' by decide)]
        cases d with
        | zero =>
          simp only [level?_close_zero, reduceCtorEq, false_iff]
          rintro ⟨⟨-, hp⟩, -⟩
          have := hp [] List.nil_prefix
          simp at this
        | succ d =>
          simp only [level?_close_succ, ih]
          constructor
          · rintro ⟨hp, he⟩
            exact ⟨⟨by omega, fun p h => by have := hp p h; omega⟩, by omega⟩
          · rintro ⟨⟨-, hp⟩, he⟩
            exact ⟨fun p h => by have := hp p h; omega, by omega⟩
      · simp only [level?_cons_of_ne ho hc, ih, List.count_nil, List.count_cons_of_ne ho,
          List.count_cons_of_ne hc]
        constructor
        · rintro ⟨hp, he⟩
          exact ⟨⟨by omega, hp⟩, he⟩
        · rintro ⟨⟨-, hp⟩, he⟩
          exact ⟨hp, he⟩

/-- A text is balanced if it starts and ends with no brace open. -/
theorem balanced_iff {s : List Char} : Balanced s ↔ level? 0 s = some 0 := by
  rw [level?_eq_some_iff]
  exact ⟨fun h => ⟨h.count_le, h.count_eq⟩, fun h => ⟨h.1, h.2⟩⟩

theorem balanced_of_braceless {s : List Char} (ho : '{' ∉ s) (hc : '}' ∉ s) : Balanced s :=
  balanced_iff.mpr (level?_of_braceless ho hc 0)

/-- Behind a level that a text reaches, a deeper start reaches a level just as much deeper. -/
theorem level?_add {d e : Nat} {s : List Char} (h : level? d s = some e) (k : Nat) :
    level? (d + k) s = some (e + k) := by
  rw [level?_eq_some_iff] at h ⊢
  refine ⟨fun p hp => ?_, by omega⟩
  have := h.1 p hp
  omega

/-- A balanced text keeps every level. -/
theorem Balanced.level? {s : List Char} (h : Balanced s) (d : Nat) : level? d s = some d := by
  have := level?_add (balanced_iff.mp h) d
  simpa only [Nat.zero_add] using this

theorem Balanced.append {s t : List Char} (hs : Balanced s) (ht : Balanced t) :
    Balanced (s ++ t) := by
  rw [balanced_iff, level?_append, hs.level?, Option.bind_some, ht.level?]

/-- No closing brace stands behind a balanced beginning of a balanced text. -/
theorem Balanced.not_prefix {s t : List Char} (hs : Balanced s) (ht : Balanced t) :
    ¬ s ++ ['}'] <+: t := by
  intro h
  have hle := ht.count_le _ h
  have hzero : (['}'] : List Char).count '{' = 0 := by decide
  rw [List.count_append, List.count_append, hs.count_eq, List.count_singleton_self, hzero] at hle
  omega

end UmlDraft.Text

namespace UmlDraft.Outline

open Text

/-- A body closes every brace that is open before its end. -/
theorem level?_of_bodyEnd? {d : Nat} {s body after : List Char}
    (h : bodyEnd? d s = some (body, after)) : level? d body = some 0 := by
  fun_induction bodyEnd? d s generalizing body after with
  | case1 => cases h
  | case2 rest =>
    cases h
    rfl
  | case3 d rest ih =>
    obtain ⟨⟨b, a⟩, hr, he⟩ := Option.map_eq_some_iff.mp h
    cases he
    rw [level?_close_succ, ih hr]
  | case4 d rest ih =>
    obtain ⟨⟨b, a⟩, hr, he⟩ := Option.map_eq_some_iff.mp h
    cases he
    rw [level?_open, ih hr]
  | case5 d c rest hz hs ho ih =>
    obtain ⟨⟨b, a⟩, hr, he⟩ := Option.map_eq_some_iff.mp h
    cases he
    have hc : c ≠ '}' := by
      intro e
      cases d with
      | zero => exact hz rfl e
      | succ d => exact hs d rfl e
    rw [level?_cons_of_ne ho hc, ih hr]

/-- A closing brace behind a text that closes every open brace is where a body ends. -/
theorem bodyEnd?_append {d : Nat} {body : List Char} (after : List Char)
    (h : level? d body = some 0) : bodyEnd? d (body ++ '}' :: after) = some (body, after) := by
  fun_induction level? d body with
  | case1 d =>
    cases h
    rfl
  | case2 d s ih => rw [List.cons_append, bodyEnd?.eq_4 d _, ih h]; rfl
  | case3 => cases h
  | case4 d s ih => rw [List.cons_append, bodyEnd?.eq_3, ih h]; rfl
  | case5 d c s ho hz hs ih => rw [List.cons_append, bodyEnd?.eq_5 _ _ _ ho hz hs, ih h]; rfl

/-- A body ends at the brace that closes one more than was open. -/
theorem bodyEnd?_eq_some_iff_level {d : Nat} {s body after : List Char} :
    bodyEnd? d s = some (body, after) ↔ s = body ++ '}' :: after ∧ level? d body = some 0 := by
  constructor
  · exact fun h => ⟨eq_of_bodyEnd? h, level?_of_bodyEnd? h⟩
  · rintro ⟨rfl, h⟩
    exact bodyEnd?_append after h

/-- A body ends at the closing brace before which its text is balanced. -/
theorem bodyEnd?_eq_some_iff {s body after : List Char} :
    bodyEnd? 0 s = some (body, after) ↔ s = body ++ '}' :: after ∧ Balanced body := by
  rw [bodyEnd?_eq_some_iff_level, balanced_iff]

end UmlDraft.Outline
