import UmlDraft.Proofs.Diagram.MarkerPlace
import UmlDraft.Proofs.Diagram.TypeToken

/-!
# The grammar of a member

The parts of a line and the texts between them are stated without a reader: a symbol, a name, a
colon with a type, a list in parentheses, and once more a colon with a type, where all but the name
may be missing and spaces may stand between the parts. A reader that never goes back accepts exactly
the lines that can be written so, and finds the parts that were written. There is one case of two
readings: the only type of a line without a list may be taken for either of the two, and the member
is the same.
-/

namespace UmlDraft.Member

open Text TypeToken

variable {s t x rest text piece line : List Char} {p : Parts}

/-- A visibility symbol with the spaces behind it, or nothing. -/
inductive SymbolPart : Option Char → List Char → Prop
  /-- There is no symbol. -/
  | missing : SymbolPart none []
  /-- A symbol is one unit, and no word character, blank, brace or parenthesis. -/
  | present {c : Char} {g : List Char} (word : isWord c = false) (blank : isBlank c = false)
    (bracket : c ∉ ['{', '}', '(', ')']) (unit : width c = 1) (spaces : ∀ d ∈ g, d = ' ') :
    SymbolPart (some c) (c :: g)

/-- A colon and a type with the spaces before them, or nothing. -/
inductive TypePart : Option (List Char) → List Char → Prop
  /-- There is no type. -/
  | missing : TypePart none []
  /-- A type stands behind a colon. -/
  | present {g k t : List Char} (spaces : ∀ c ∈ g, c = ' ') (spaces' : ∀ c ∈ k, c = ' ')
    (type : IsType t) : TypePart (some t) (g ++ ':' :: (k ++ t))

/-- A list in parentheses with the spaces before it, or nothing. -/
inductive ListPart : Option (List Char) → List Char → Prop
  /-- There is no list. -/
  | missing : ListPart none []
  /-- A list ends at the first closing parenthesis. -/
  | present {g list : List Char} (spaces : ∀ c ∈ g, c = ' ') (close : ')' ∉ list) :
    ListPart (some list) (g ++ '(' :: (list ++ [')']))

/-- The parts of a line and the line that they make. -/
inductive Parts.Written (p : Parts) : List Char → Prop
  /-- The parts stand in their order. -/
  | mk {s f l t : List Char} (symbol : SymbolPart p.symbol s) (name : IsName p.name)
    (first : TypePart p.first f) (list : ListPart p.parameters l) (second : TypePart p.second t) :
    p.Written (s ++ (p.name ++ (f ++ (l ++ t))))

/-- A line is written in parts if it consists of their texts. -/
theorem Parts.written_of_eq {f l : List Char} (p : Parts) (hs : SymbolPart p.symbol s)
    (hname : IsName p.name) (hf : TypePart p.first f) (hl : ListPart p.parameters l)
    (ht : TypePart p.second t) (hx : x = s ++ (p.name ++ (f ++ (l ++ t)))) : p.Written x :=
  hx ▸ .mk hs hname hf hl ht

/-- Three symbols restrict the visibility, and every other one, and none, shows it as public. -/
inductive Shows : Option Char → Visibility → Prop
  /-- A minus is private. -/
  | priv : Shows (some '-') .priv
  /-- A number sign is protected. -/
  | prot : Shows (some '#') .prot
  /-- A tilde stays in the package. -/
  | pack : Shows (some '~') .pack
  /-- All else is public. -/
  | pub {symbol : Option Char} (other : symbol ∉ [some '-', some '#', some '~']) :
    Shows symbol .pub

/-- The member that the parts of a line declare. -/
inductive Parts.Declares (p : Parts) (line : List Char) : Member → Prop
  /-- With a list the line declares a method, and the markers of the line set its flags. -/
  | method {m : Method} {text : List Char} (list : p.parameters = some text)
    (name : m.name = .ofList p.name) (visibility : Shows p.symbol m.visibility)
    (parameters : m.parameters = readParameters text)
    (returnType : ∀ t ∈ p.second, m.returnType = .ofList t)
    (void : p.second = none → m.returnType = "void")
    (isAbstract : m.isAbstract = true ↔ Marked .abstract line)
    (isStatic : m.isStatic = true ↔ Marked .static line) : p.Declares line (.method m)
  /-- Without a list the line declares an attribute of the first type that is present. -/
  | attribute {a : Attribute} (list : p.parameters = none) (name : a.name = .ofList p.name)
    (visibility : Shows p.symbol a.visibility) (first : ∀ t ∈ p.first, a.type = .ofList t)
    (second : p.first = none → ∀ t ∈ p.second, a.type = .ofList t)
    (object : p.first = none → p.second = none → a.type = "Object") : p.Declares line (.attribute a)

/-- A colon, a space and a type make the part of a type. -/
theorem typePart_colon (h : IsType s) : TypePart (some s) (':' :: ' ' :: s) :=
  .present (g := []) (k := [' ']) (fun _ hc => nomatch hc) (fun _ hc => List.mem_singleton.mp hc) h

/-- A text in parentheses makes the part of a list. -/
theorem listPart_parentheses (h : ')' ∉ s) : ListPart (some s) ('(' :: (s ++ [')'])) :=
  .present (g := []) (fun _ hc => nomatch hc) h

/-! ### What follows a part -/

/-- What follows the name: nothing, or a text that begins as one of the parts behind it. -/
def Follows (rest : List Char) : Prop :=
  ∀ c ∈ rest.head?, c ∈ [' ', ':', '(']

theorem Follows.append (hs : Follows s) (ht : Follows t) : Follows (s ++ t) := by
  cases s with
  | nil => exact ht
  | cons c s => exact hs

theorem Follows.stops_isWord (h : Follows rest) : Stops isWord rest := by
  have hall : ([' ', ':', '('].all fun c => !isWord c) = true := by decide
  intro c hc
  simpa using List.all_eq_true.mp hall c (h c hc)

/-- A type ends where another part begins. -/
theorem Follows.ends (h : Follows rest) : Ends rest := by
  have hall : ([' ', ':', '('].all fun c => !isNameChar c && (c != '<' && c != '[')) = true := by
    decide
  intro c hc
  simpa using List.all_eq_true.mp hall c (h c hc)

/-- A part begins with a space or with its mark. -/
theorem follows_of_spaces {g : List Char} {c : Char} (hg : ∀ c ∈ g, c = ' ')
    (hc : c ∈ [' ', ':', '(']) (s : List Char) : Follows (g ++ c :: s) := by
  cases g with
  | nil =>
    intro d hd
    cases hd
    exact hc
  | cons a g =>
    intro d hd
    cases hd
    rw [hg a List.mem_cons_self]
    exact List.mem_cons_self

theorem TypePart.follows {type : Option (List Char)} (h : TypePart type piece) :
    Follows piece := by
  cases h with
  | missing => exact fun _ hc => nomatch hc
  | present spaces spaces' type => exact follows_of_spaces spaces (by simp) _

theorem ListPart.follows {list : Option (List Char)} (h : ListPart list piece) :
    Follows piece := by
  cases h with
  | missing => exact fun _ hc => nomatch hc
  | present spaces close => exact follows_of_spaces spaces (by simp) _

/-! ### Parts are read -/

/-- The mark of a part is found behind the spaces before it. -/
theorem skipBlanks_spaces {g : List Char} {c : Char} (hg : ∀ c ∈ g, c = ' ')
    (hc : isBlank c = false) (s : List Char) : skipBlanks (g ++ c :: s) = c :: s :=
  skipBlanks_run (fun d hd => hg d hd ▸ isBlank_space) (stops_cons.mpr hc)

/-- Only a colon begins a type. -/
theorem TypePart.head?_skipBlanks {type : Option (List Char)} (h : TypePart type piece) :
    ∀ c ∈ (skipBlanks piece).head?, c = ':' := by
  cases h with
  | missing => exact fun _ hc => nomatch hc
  | present spaces spaces' type =>
    rw [skipBlanks_spaces spaces rfl]
    exact fun c hc => (Option.mem_some_iff.mp hc).symm

/-- Only a parenthesis begins a list. -/
theorem ListPart.head?_skipBlanks (h : ListPart (some text) piece) (rest : List Char) :
    (skipBlanks (piece ++ rest)).head? = some '(' := by
  cases h with
  | present spaces close =>
    rw [List.append_assoc, List.cons_append, skipBlanks_spaces spaces rfl, List.head?_cons]

theorem readType?_of_head (h : ∀ c ∈ (skipBlanks s).head?, c ≠ ':') :
    readType? s = some (none, s) := by
  unfold readType?
  split
  · next r hr =>
    rw [hr] at h
    exact absurd rfl (h ':' rfl)
  · rfl

theorem readParameters?_of_head (h : ∀ c ∈ (skipBlanks s).head?, c ≠ '(') :
    readParameters? s = some (none, s) := by
  unfold readParameters?
  split
  · next r hr =>
    rw [hr] at h
    exact absurd rfl (h '(' rfl)
  · rfl

/-- A type is read in full where another part begins behind it. -/
theorem TypePart.readType? (h : TypePart (some t) piece) (hr : Follows rest) :
    readType? (piece ++ rest) = some (some t, rest) := by
  cases h with
  | @present g k t spaces spaces' type =>
    obtain ⟨c, more, hne⟩ := List.exists_cons_of_ne_nil type.ne_nil
    have hblank : isBlank c = false := by
      have hstop := (trim_eq_self_iff.mp type.trim_eq).1
      rwa [hne, stops_cons] at hstop
    have hskip : skipBlanks (k ++ (t ++ rest)) = t ++ rest := by
      rw [hne]
      exact skipBlanks_spaces spaces' hblank (more ++ rest)
    rw [List.append_assoc, List.cons_append, List.append_assoc, Member.readType?,
      skipBlanks_spaces spaces rfl]
    simp only [hskip, type.read?_append hr.ends, Option.map_some]

/-- A list is read up to its closing parenthesis. -/
theorem ListPart.readParameters? (h : ListPart (some text) piece) (rest : List Char) :
    readParameters? (piece ++ rest) = some (some text, rest) := by
  cases h with
  | @present g list spaces close =>
    have hrun : ∀ c ∈ text, (c != ')') = true := fun c hc =>
      bne_iff_ne.mpr fun he => close (he ▸ hc)
    have hstop : Stops (· != ')') (')' :: rest) := by simp
    rw [List.append_assoc, List.cons_append, List.append_assoc, List.singleton_append,
      Member.readParameters?, skipBlanks_spaces spaces rfl]
    simp only [dropWhile_run hrun hstop, takeWhile_run hrun hstop]

/-- The reader takes the only type of a line without a list for the first. -/
def Parts.settled (p : Parts) : Parts :=
  match p.first, p.parameters with
  | none, none => { p with first := p.second, second := none }
  | _, _ => p

theorem readSymbol_none (h : IsName s) : readSymbol (s ++ rest) = (none, s ++ rest) := by
  obtain ⟨c, s, rfl⟩ := List.exists_cons_of_ne_nil h.ne_nil
  have hc : isSymbol c = false := by
    rw [isSymbol, h.word c List.mem_cons_self]
    rfl
  rw [List.cons_append, readSymbol, if_neg (by rw [hc]; exact Bool.false_ne_true)]

theorem isSymbol_iff {c : Char} : isSymbol c = true ↔
    isWord c = false ∧ isBlank c = false ∧ c ∉ ['{', '}', '(', ')'] ∧ width c = 1 := by
  simp only [isSymbol, Bool.and_eq_true, Bool.not_eq_true', bne_iff_ne, beq_iff_eq, List.mem_cons,
    List.not_mem_nil, or_false, not_or, and_assoc]

/-- The symbol of a line is read, and the spaces behind it are skipped. -/
theorem SymbolPart.readSymbol {symbol : Option Char} (h : SymbolPart symbol piece) (hs : IsName s)
    (rest : List Char) : (readSymbol (piece ++ (s ++ rest))).1 = symbol ∧
      skipBlanks (readSymbol (piece ++ (s ++ rest))).2 = s ++ rest := by
  have hstop : Stops isBlank (s ++ rest) := hs.stops_isBlank
  cases h with
  | missing =>
    rw [List.nil_append, readSymbol_none hs]
    exact ⟨rfl, skipBlanks_of_stops hstop⟩
  | @present c g word blank bracket unit spaces =>
    have hc : isSymbol c = true := isSymbol_iff.mpr ⟨word, blank, bracket, unit⟩
    rw [List.cons_append, Member.readSymbol, if_pos hc]
    exact ⟨rfl, skipBlanks_run (fun d hd => spaces d hd ▸ isBlank_space) hstop⟩

/-- What the readers of a line take, one after the other. -/
theorem readParts?_eq {symbol : Option Char} {name r₁ r₂ r₃ : List Char}
    {first parameters second : Option (List Char)} (hsymbol : (readSymbol s).1 = symbol)
    (htext : skipBlanks (readSymbol s).2 = name ++ r₁) (hname : IsName name)
    (hstop : Stops isWord r₁) (hfirst : readType? r₁ = some (first, r₂))
    (hlist : readParameters? r₂ = some (parameters, r₃))
    (hsecond : readType? r₃ = some (second, [])) :
    readParts? s = some ⟨symbol, name, first, parameters, second⟩ := by
  unfold readParts?
  simp only [hsymbol, htext, leadingWord_run hname.word hstop, afterWord_run hname.word hstop,
    if_neg hname.ne_nil, hfirst, hlist, hsecond, Option.bind_eq_bind, Option.bind_some, if_true]

/-- The type that stands last is read up to the end of the line. -/
theorem TypePart.readType?_last {type : Option (List Char)} (h : TypePart type piece) :
    Member.readType? piece = some (type, []) := by
  cases type with
  | none =>
    cases h
    rfl
  | some type =>
    have hread : Member.readType? (piece ++ []) = some (some type, []) :=
      h.readType? fun _ hc => nomatch hc
    rwa [List.append_nil] at hread

/-- A line that can be written in parts is read as these parts. -/
theorem Parts.Written.readParts? (h : p.Written x) : readParts? x = some p.settled := by
  obtain ⟨symbol, name, type, list, second⟩ := p
  obtain ⟨hsymbol, hname, hfirst, hlist, hsecond⟩ := h
  next s f l t =>
  have hrest : Follows (l ++ t) := hlist.follows.append hsecond.follows
  have hstop : Stops isWord (f ++ (l ++ t)) := (hfirst.follows.append hrest).stops_isWord
  obtain ⟨hs, htext⟩ := hsymbol.readSymbol hname (f ++ (l ++ t))
  have hparameters : Member.readParameters? (l ++ t) = some (list, t) := by
    cases list with
    | none =>
      cases hlist
      refine readParameters?_of_head fun c hc he => ?_
      rw [hsecond.head?_skipBlanks c hc] at he
      cases he
    | some text => exact hlist.readParameters? t
  cases type with
  | some type =>
    exact readParts?_eq hs htext hname hstop (hfirst.readType? hrest) hparameters
      hsecond.readType?_last
  | none =>
    cases hfirst
    cases list with
    | some text =>
      have hskip : Member.readType? (l ++ t) = some (none, l ++ t) := by
        refine readType?_of_head fun c hc he => ?_
        rw [hlist.head?_skipBlanks t, Option.mem_some_iff, he] at hc
        cases hc
      exact readParts?_eq hs htext hname hstop hskip hparameters hsecond.readType?_last
    | none =>
      -- The type that stands last is the first that is read, and nothing is left behind it.
      cases hlist
      have hparameters' : Member.readParameters? [] = some (none, []) := rfl
      exact readParts?_eq hs htext hname hstop hsecond.readType?_last hparameters'
        TypePart.missing.readType?_last

/-! ### What is read was written -/

/-- The blanks of a text that has no other blanks than spaces are spaces. -/
theorem spaces_takeWhile (hb : ∀ c ∈ s, isBlank c = true → c = ' ') :
    ∀ c ∈ s.takeWhile isBlank, c = ' ' :=
  fun c hc => hb c ((List.takeWhile_prefix isBlank).subset hc) (mem_takeWhile hc)

/-- A type that was read is a part of the text. -/
theorem exists_typePart {type : Option (List Char)} (hb : ∀ c ∈ s, isBlank c = true → c = ' ')
    (h : readType? s = some (type, rest)) : ∃ piece, TypePart type piece ∧ s = piece ++ rest := by
  unfold readType? at h
  split at h
  · next r hr =>
    obtain ⟨⟨token, after⟩, ht, he⟩ := Option.map_eq_some_iff.mp h
    cases he
    have hs : s.takeWhile isBlank ++ ':' :: r = s :=
      hr ▸ List.takeWhile_append_dropWhile (p := isBlank) (l := s)
    have hr' : r.takeWhile isBlank ++ skipBlanks r = r := List.takeWhile_append_dropWhile
    have hbr : ∀ c ∈ r, isBlank c = true → c = ' ' := fun c hc =>
      hb c (hs ▸ List.mem_append_right _ (List.mem_cons_of_mem ':' hc))
    refine ⟨_, .present (spaces_takeWhile hb) (spaces_takeWhile hbr) (isType_of_read? ht), ?_⟩
    rw [List.append_assoc, List.cons_append, List.append_assoc, ← eq_of_read? ht, hr', hs]
  · cases h
    exact ⟨[], .missing, rfl⟩

/-- A list that was read is a part of the text. -/
theorem exists_listPart {list : Option (List Char)} (hb : ∀ c ∈ s, isBlank c = true → c = ' ')
    (h : readParameters? s = some (list, rest)) : ∃ piece, ListPart list piece ∧ s = piece ++ rest := by
  unfold readParameters? at h
  split at h
  · next r hr =>
    split at h
    · next after ha =>
      cases h
      have hs : s.takeWhile isBlank ++ '(' :: r = s :=
        hr ▸ List.takeWhile_append_dropWhile (p := isBlank) (l := s)
      have hr' : r.takeWhile (· != ')') ++ ')' :: rest = r :=
        ha ▸ List.takeWhile_append_dropWhile (p := (· != ')')) (l := r)
      have hclose : ')' ∉ r.takeWhile (· != ')') := fun hc => absurd (mem_takeWhile hc) (by decide)
      refine ⟨_, .present (spaces_takeWhile hb) hclose, ?_⟩
      rw [List.append_assoc, List.cons_append, List.append_assoc, List.singleton_append, hr', hs]
    · cases h
  · cases h
    exact ⟨[], .missing, rfl⟩

/-- A symbol that was read begins the line, with the spaces that are skipped behind it. -/
theorem exists_symbolPart (hb : ∀ c ∈ s, isBlank c = true → c = ' ') (hs : Stops isBlank s) :
    ∃ piece, SymbolPart (readSymbol s).1 piece ∧ s = piece ++ skipBlanks (readSymbol s).2 := by
  unfold readSymbol
  split
  · next c rest =>
    split
    · next hc =>
      obtain ⟨word, blank, bracket, unit⟩ := isSymbol_iff.mp hc
      have hrest : ∀ d ∈ rest, isBlank d = true → d = ' ' := fun d hd =>
        hb d (List.mem_cons_of_mem c hd)
      refine ⟨_, .present word blank bracket unit (spaces_takeWhile hrest), ?_⟩
      exact congrArg (c :: ·) List.takeWhile_append_dropWhile.symm
    · exact ⟨[], .missing, (skipBlanks_of_stops hs).symm⟩
  · exact ⟨[], .missing, rfl⟩

/-- Parts that were read are what the readers of a line have taken. -/
theorem exists_of_readParts? (h : readParts? s = some p) : ∃ r₁ r₂ r₃,
    p.symbol = (readSymbol s).1 ∧ skipBlanks (readSymbol s).2 = p.name ++ r₁ ∧ IsName p.name ∧
      readType? r₁ = some (p.first, r₂) ∧ readParameters? r₂ = some (p.parameters, r₃) ∧
      readType? r₃ = some (p.second, []) := by
  unfold readParts? at h
  simp only [] at h
  split at h
  · cases h
  · next hname =>
    obtain ⟨⟨first, r₂⟩, h₁, h⟩ := Option.bind_eq_some_iff.mp h
    obtain ⟨⟨list, r₃⟩, h₂, h⟩ := Option.bind_eq_some_iff.mp h
    obtain ⟨⟨second, r₄⟩, h₃, h⟩ := Option.bind_eq_some_iff.mp h
    split at h
    · next hend =>
      cases h
      obtain rfl : r₄ = [] := hend
      exact ⟨_, r₂, r₃, rfl, (leadingWord_append_afterWord _).symm, isName_leadingWord hname, h₁,
        h₂, h₃⟩
    · cases h

/-- The parts that are read from a line without other blanks than spaces were written there. -/
theorem written_of_readParts? (hb : ∀ c ∈ x, isBlank c = true → c = ' ') (hx : Stops isBlank x)
    (h : readParts? x = some p) : p.Written x := by
  obtain ⟨r₁, r₂, r₃, hsymbol, htext, hname, h₁, h₂, h₃⟩ := exists_of_readParts? h
  obtain ⟨s, hs, hline⟩ := exists_symbolPart hb hx
  rw [← hsymbol] at hs
  rw [htext] at hline
  have hb₁ : ∀ c ∈ r₁, isBlank c = true → c = ' ' := fun c hc =>
    hb c (hline ▸ List.mem_append_right s (List.mem_append_right p.name hc))
  obtain ⟨f, hfirst, hf⟩ := exists_typePart hb₁ h₁
  have hb₂ : ∀ c ∈ r₂, isBlank c = true → c = ' ' := fun c hc =>
    hb₁ c (hf ▸ List.mem_append_right f hc)
  obtain ⟨l, hlist, hl⟩ := exists_listPart hb₂ h₂
  have hb₃ : ∀ c ∈ r₃, isBlank c = true → c = ' ' := fun c hc =>
    hb₂ c (hl ▸ List.mem_append_right l hc)
  obtain ⟨t, hsecond, ht⟩ := exists_typePart hb₃ h₃
  rw [hline, hf, hl, ht, List.append_nil]
  exact .mk hs hname hfirst hlist hsecond

/-- The parts that are read from a line were written in what is left of it. -/
theorem written_of_line
    (h : readParts? (trim (collapse (unmark line).1)) = some p) :
    p.Written (trim (collapse (unmark line).1)) :=
  written_of_readParts? (tidy_line line).singleSpaced.blank (trim_eq_self_iff.mp (trim_trim _)).1 h

/-! ### What a line declares -/

theorem shows_visibilityOf (symbol : Option Char) : Shows symbol (visibilityOf symbol) := by
  unfold visibilityOf
  split
  · exact .priv
  · exact .prot
  · exact .pack
  · next hpriv hprot hpack =>
    refine .pub ?_
    simp only [List.mem_cons, List.not_mem_nil, or_false, not_or]
    exact ⟨hpriv, hprot, hpack⟩

/-- The parts and the parts that are read say the same. -/
theorem ofParts_settled (p : Parts) (modifiers : List Modifier) :
    ofParts p.settled modifiers = ofParts p modifiers := by
  obtain ⟨symbol, name, first, list, second⟩ := p
  cases first with
  | some type => rfl
  | none =>
    cases list with
    | some text => rfl
    | none =>
      unfold ofParts Parts.settled
      simp only [Option.or_none, Option.none_or]

/-- What the parts of a line say with the modifiers of its markers is what they declare. -/
theorem declares_ofParts (p : Parts) (line : List Char) :
    p.Declares line (ofParts p (unmark line).2) := by
  have hmarked : ∀ m : Modifier, (unmark line).2.contains m = true ↔ Marked m line := fun m => by
    rw [List.contains_iff_mem, mem_unmark_iff]
  unfold ofParts
  cases hlist : p.parameters with
  | some text =>
    refine .method hlist rfl (shows_visibilityOf p.symbol) rfl ?_ ?_ (hmarked .abstract)
      (hmarked .static)
    · intro t ht
      simp only [Option.mem_def.mp ht, Option.map_some, Option.getD_some]
    · intro ht
      simp only [ht, Option.map_none, Option.getD_none, defaultReturnType]
  | none =>
    refine .attribute hlist rfl (shows_visibilityOf p.symbol) ?_ ?_ ?_
    · intro t ht
      simp only [Option.mem_def.mp ht, Option.some_or, Option.map_some, Option.getD_some]
    · intro hf t ht
      simp only [hf, Option.mem_def.mp ht, Option.none_or, Option.map_some, Option.getD_some]
    · intro hf hs
      simp only [hf, hs, Option.none_or, Option.map_none, Option.getD_none, defaultType]

/-- There is one text only that is left of a line without its markers. If this text, its blanks
collapsed and trimmed, can be written in parts, the line declares one member, and this member is
what the parts declare, in whatever way they are written. If it cannot, the line declares none. -/
theorem declares_ofLine? (line : List Char) : ∃ s, (∀ t, Unmarked line t ↔ t = s) ∧
    (∀ p : Parts, p.Written (trim (collapse s)) →
      ∃ m, ofLine? line = some m ∧ p.Declares line m) ∧
    ((∀ p : Parts, ¬ p.Written (trim (collapse s))) → ofLine? line = none) := by
  refine ⟨(unmark line).1, fun t => unmarked_iff, fun p hp => ?_, fun hnone => ?_⟩
  · refine ⟨ofParts p (unmark line).2, ?_, declares_ofParts p line⟩
    rw [ofLine?, hp.readParts?, Option.map_some, ofParts_settled]
  · rw [ofLine?, Option.map_eq_none_iff, Option.eq_none_iff_forall_ne_some]
    exact fun p hp => hnone p (written_of_line hp)

/-- A method with a symbol, a marker, a list and a return type with a comma and a space in it. -/
theorem declares_ofLine?_method :
    ∃ m, ofLine? "~\x7bStatic\x7d find (key):  Map<A, B>".toList = some m ∧
      Parts.Declares ⟨some '~', "find".toList, none, some "key".toList, some "Map<A, B>".toList⟩
        "~\x7bStatic\x7d find (key):  Map<A, B>".toList m := by
  obtain ⟨s, hs, hwritten, -⟩ := declares_ofLine? "~\x7bStatic\x7d find (key):  Map<A, B>".toList
  have hunmarked : Unmarked "~\x7bStatic\x7d find (key):  Map<A, B>".toList
      "~  find (key):  Map<A, B>".toList :=
    .marker (m := .static) (s := "~".toList) (w := "\x7bStatic\x7d".toList)
      (markerFree_iff.mp (markerFree_of_not_mem (by decide)))
      ⟨"\x7bstatic\x7d", by decide, by decide⟩
      (.free (markerFree_iff.mp (markerFree_of_not_mem (by decide))))
  refine hwritten _ ?_
  have hline : trim (collapse s) = "~ find (key): Map<A, B>".toList := by
    rw [← (hs _).mp hunmarked]
    decide
  have hspace : ∀ c ∈ [' '], c = ' ' := fun c hc => List.mem_singleton.mp hc
  have hsymbol : SymbolPart (some '~') ['~', ' '] := .present rfl rfl (by decide) rfl hspace
  have hname : IsName "find".toList := ⟨by decide, List.all_eq_true.mp (by decide)⟩
  have hlist : ListPart (some "key".toList) (' ' :: '(' :: ("key".toList ++ [')'])) :=
    .present (g := [' ']) hspace (by decide)
  have htype := typePart_colon (s := "Map<A, B>".toList) (isToken_iff.mp (by decide))
  rw [hline]
  exact Parts.written_of_eq _ hsymbol hname .missing hlist htype (by decide)

end UmlDraft.Member
