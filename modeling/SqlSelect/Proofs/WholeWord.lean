import SqlSelect.Proofs.Beginning

namespace SqlSelect

/-- The probes for the words of all tables, each for one of them. -/
def probes : List (List Char → Option Match) :=
  keywords.map (fun v text => matchWord atBoundary text v) ++
    (compounds.map (fun v text => matchCompound text v) ++
      functions.map (fun v text => matchWord opensCall text v))

/-- The word at the front of a text is a keyword. -/
def KeywordAt (text : List Char) (k : TokenKind) : Prop :=
  (spelling text, k) ∈ keywords ∧ atBoundary (afterWord text) = true

/-- The word at the front of a text and the next one, after white space, are a keyword. -/
def CompoundAt (text : List Char) (k : TokenKind) : Prop :=
  ∃ v ∈ compounds, v.kind = k ∧ spelling text = v.first ∧
    headIs isSpace (afterWord text) = true ∧ spelling (afterGap text) = v.second ∧
    atBoundary (afterWord (afterGap text)) = true

/-- The word at the front of a text names a function that is called. -/
def FunctionAt (text : List Char) (k : TokenKind) : Prop :=
  (spelling text, k) ∈ functions ∧ opensCall (afterWord text) = true

/-- The word at the front of a text, the white space after it and the next word. -/
def twoWords (text : List Char) : List Char :=
  frontWord text ++ ((afterWord text).takeWhile isSpace ++ frontWord (afterGap text))

/-- What the words at the front of a text are as a whole, by tables that have no order. -/
inductive WholeWord (text : List Char) : TokenKind → List Char → Prop
  | keyword {k} : KeywordAt text k → WholeWord text k (frontWord text)
  | compound {k} : CompoundAt text k → WholeWord text k (twoWords text)
  | function {k} : FunctionAt text k → WholeWord text k (frontWord text)
  | literal : (∀ k, ¬KeywordAt text k) → (∀ k, ¬CompoundAt text k) → (∀ k, ¬FunctionAt text k) →
      WholeWord text .literal (frontWord text)

section

variable {text : List Char} {m m' : Match} {k k' : TokenKind} {w : List Char}

theorem frontWord_begins (text : List Char) : frontWord text <+: text :=
  List.takeWhile_prefix isWordChar

theorem twoWords_begins (text : List Char) : twoWords text <+: text := by
  refine ⟨afterWord (afterGap text), ?_⟩
  rw [twoWords, List.append_assoc, List.append_assoc, frontWord_append_afterWord, afterGap,
    List.takeWhile_append_dropWhile, frontWord_append_afterWord]

theorem KeywordAt.kind_eq (h : KeywordAt text k) (h' : KeywordAt text k') : k = k' := by
  have hkind : ∀ u ∈ keywords, ∀ v ∈ keywords, u.1 = v.1 → u.2 = v.2 := by decide
  exact hkind _ h.1 _ h'.1 rfl

theorem FunctionAt.kind_eq (h : FunctionAt text k) (h' : FunctionAt text k') : k = k' := by
  have hkind : ∀ u ∈ functions, ∀ v ∈ functions, u.1 = v.1 → u.2 = v.2 := by decide
  exact hkind _ h.1 _ h'.1 rfl

theorem CompoundAt.kind_eq (h : CompoundAt text k) (h' : CompoundAt text k') : k = k' := by
  obtain ⟨u, hu, rfl, hfirst, _, hsecond, _⟩ := h
  obtain ⟨v, hv, rfl, hfirst', _, hsecond', _⟩ := h'
  have hkind : ∀ u ∈ compounds, ∀ v ∈ compounds, u.first = v.first → u.second = v.second →
    u.kind = v.kind := by decide
  exact hkind u hu v hv (hfirst.symm.trans hfirst') (hsecond.symm.trans hsecond')

theorem KeywordAt.not_compoundAt (h : KeywordAt text k) : ¬CompoundAt text k' := by
  rintro ⟨v, hv, _, hfirst, _⟩
  have hne : ∀ u ∈ keywords, ∀ v ∈ compounds, u.1 ≠ v.first := by decide
  exact hne _ h.1 v hv hfirst

theorem KeywordAt.not_functionAt (h : KeywordAt text k) : ¬FunctionAt text k' := by
  intro h'
  have hne : ∀ u ∈ keywords, ∀ v ∈ functions, u.1 ≠ v.1 := by decide
  exact hne _ h.1 _ h'.1 rfl

theorem CompoundAt.not_functionAt (h : CompoundAt text k) : ¬FunctionAt text k' := by
  obtain ⟨u, hu, _, hfirst, _⟩ := h
  intro h'
  have hne : ∀ u ∈ compounds, ∀ v ∈ functions, u.first ≠ v.1 := by decide
  exact hne u hu _ h'.1 hfirst.symm

theorem exists_matchWord_iff {words : List (String × TokenKind)} {follows : List Char → Bool}
    (hw : ∀ v ∈ words, Plain v.1) (hf : EndsWord follows) :
    (∃ v ∈ words, matchWord follows text v = some m) ↔
      ((spelling text, m.kind) ∈ words ∧ follows (afterWord text) = true) ∧
        m.width = (frontWord text).length := by
  constructor
  · rintro ⟨v, hv, hm⟩
    rw [matchWord_eq (hw v hv) hf] at hm
    split at hm
    next h =>
      cases Option.some.inj hm
      rw [h.1]
      exact ⟨⟨hv, h.2⟩, rfl⟩
    next => cases hm
  · rintro ⟨⟨hv, hr⟩, hwidth⟩
    refine ⟨_, hv, ?_⟩
    rw [matchWord_eq (hw _ hv) hf, if_pos ⟨rfl, hr⟩, ← hwidth]

theorem exists_matchCompound_iff : (∃ v ∈ compounds, matchCompound text v = some m) ↔
    CompoundAt text m.kind ∧ m.width = (twoWords text).length := by
  have hlength : (frontWord text).length + frontWidth isSpace (afterWord text)
      + (frontWord (afterGap text)).length = (twoWords text).length := by
    simp [twoWords, frontWidth, Nat.add_assoc]
  constructor
  · rintro ⟨v, hv, hm⟩
    rw [matchCompound_eq (compounds_plain v hv)] at hm
    split at hm
    next h =>
      cases Option.some.inj hm
      exact ⟨⟨v, hv, rfl, h⟩, hlength⟩
    next => cases hm
  · rintro ⟨⟨v, hv, hkind, h⟩, hwidth⟩
    refine ⟨v, hv, ?_⟩
    rw [matchCompound_eq (compounds_plain v hv), if_pos h, hlength, ← hwidth, hkind]

/-- What the probes find: a word of a table, and as many characters as the whole words have. -/
theorem exists_probe_iff : (∃ p ∈ probes, p text = some m) ↔
    KeywordAt text m.kind ∧ m.width = (frontWord text).length ∨
      CompoundAt text m.kind ∧ m.width = (twoWords text).length ∨
      FunctionAt text m.kind ∧ m.width = (frontWord text).length := by
  have hkeyword : (∃ v ∈ keywords, matchWord atBoundary text v = some m) ↔ _ :=
    exists_matchWord_iff keywords_plain endsWord_boundary
  have hfunction : (∃ v ∈ functions, matchWord opensCall text v = some m) ↔ _ :=
    exists_matchWord_iff functions_plain endsWord_call
  unfold KeywordAt FunctionAt
  rw [← hkeyword, ← hfunction, ← exists_matchCompound_iff]
  constructor
  · rintro ⟨p, hp, hm⟩
    rcases List.mem_append.mp hp with hp | hp
    · obtain ⟨v, hv, rfl⟩ := List.mem_map.mp hp
      exact .inl ⟨v, hv, hm⟩
    rcases List.mem_append.mp hp with hp | hp
    · obtain ⟨v, hv, rfl⟩ := List.mem_map.mp hp
      exact .inr (.inl ⟨v, hv, hm⟩)
    · obtain ⟨v, hv, rfl⟩ := List.mem_map.mp hp
      exact .inr (.inr ⟨v, hv, hm⟩)
  · rintro (⟨v, hv, hm⟩ | ⟨v, hv, hm⟩ | ⟨v, hv, hm⟩)
    · exact ⟨_, List.mem_append_left _ (List.mem_map_of_mem hv), hm⟩
    · exact ⟨_, List.mem_append_right _ (List.mem_append_left _ (List.mem_map_of_mem hv)), hm⟩
    · exact ⟨_, List.mem_append_right _ (List.mem_append_right _ (List.mem_map_of_mem hv)), hm⟩

/-- Whatever two probes find is the same. -/
theorem probes_agree (hm : ∃ p ∈ probes, p text = some m) (hm' : ∃ p ∈ probes, p text = some m') :
    m = m' := by
  obtain ⟨width, kind⟩ := m
  obtain ⟨width', kind'⟩ := m'
  rcases exists_probe_iff.mp hm with ⟨h, rfl⟩ | ⟨h, rfl⟩ | ⟨h, rfl⟩
  · rcases exists_probe_iff.mp hm' with ⟨h', rfl⟩ | ⟨h', _⟩ | ⟨h', _⟩
    · exact congrArg _ (h.kind_eq h')
    · exact (h.not_compoundAt h').elim
    · exact (h.not_functionAt h').elim
  · rcases exists_probe_iff.mp hm' with ⟨h', _⟩ | ⟨h', rfl⟩ | ⟨h', _⟩
    · exact (h'.not_compoundAt h).elim
    · exact congrArg _ (h.kind_eq h')
    · exact (h.not_functionAt h').elim
  · rcases exists_probe_iff.mp hm' with ⟨h', _⟩ | ⟨h', _⟩ | ⟨h', rfl⟩
    · exact (h'.not_functionAt h).elim
    · exact (h'.not_functionAt h).elim
    · exact congrArg _ (h.kind_eq h')

/-- The first probe that finds something is as good as any. -/
theorem findSome?_probes_iff {ps : List (List Char → Option Match)} (hps : ps.Perm probes) :
    ps.findSome? (· text) = some m ↔ ∃ p ∈ probes, p text = some m := by
  constructor
  · intro h
    obtain ⟨p, hp, hm⟩ := List.exists_of_findSome?_eq_some h
    exact ⟨p, hps.mem_iff.mp hp, hm⟩
  · rintro ⟨p, hp, hm⟩
    cases h : ps.findSome? (· text) with
    | none =>
      have hn := List.findSome?_eq_none_iff.mp h p (hps.mem_iff.mpr hp)
      rw [hn] at hm
      cases hm
    | some m' =>
      obtain ⟨p', hp', hm'⟩ := List.exists_of_findSome?_eq_some h
      rw [probes_agree ⟨p, hp, hm⟩ ⟨p', hps.mem_iff.mp hp', hm'⟩]

theorem word?_eq_findSome? : word? text = probes.findSome? (· text) := by
  rw [probes, List.findSome?_append, List.findSome?_append, List.findSome?_map, List.findSome?_map,
    List.findSome?_map]
  simp only [word?, Option.orElse_eq_orElse, Option.orElse_eq_or, keyword?, compound?, function?,
    Function.comp_def]

theorem word?_eq_some_iff : word? text = some m ↔
    KeywordAt text m.kind ∧ m.width = (frontWord text).length ∨
      CompoundAt text m.kind ∧ m.width = (twoWords text).length ∨
      FunctionAt text m.kind ∧ m.width = (frontWord text).length := by
  rw [word?_eq_findSome?, findSome?_probes_iff (List.Perm.refl probes), exists_probe_iff]

/-- The probes find the same in any order. -/
theorem findSome?_probes {ps : List (List Char → Option Match)} (hps : ps.Perm probes) :
    ps.findSome? (· text) = word? text := by
  refine Option.ext fun m => ?_
  rw [findSome?_probes_iff hps, word?_eq_some_iff, exists_probe_iff]

theorem WholeWord.exists (text : List Char) : ∃ k w, WholeWord text k w := by
  cases h : word? text with
  | none =>
    have hn (m : Match) : word? text ≠ some m := by simp [h]
    simp only [ne_eq, word?_eq_some_iff, not_or, not_and] at hn
    exact ⟨_, _, .literal (fun k hk => (hn ⟨_, k⟩).1 hk rfl) (fun k hk => (hn ⟨_, k⟩).2.1 hk rfl)
      fun k hk => (hn ⟨_, k⟩).2.2 hk rfl⟩
  | some m =>
    rcases word?_eq_some_iff.mp h with ⟨h, _⟩ | ⟨h, _⟩ | ⟨h, _⟩
    · exact ⟨_, _, .keyword h⟩
    · exact ⟨_, _, .compound h⟩
    · exact ⟨_, _, .function h⟩

theorem scan_of_prefix (hp : w <+: text) (hm : word? text = some ⟨w.length, k⟩) :
    scan text = .token w.length k := by
  obtain ⟨rest, rfl⟩ := hp
  exact scan_of_word?_some hm

/-- The scanner reads just what the words are as a whole. -/
theorem WholeWord.scan_eq (hc : headIs isWordStart text = true) (h : WholeWord text k w) :
    w <+: text ∧ scan text = .token w.length k := by
  cases h with
  | keyword h =>
    exact ⟨frontWord_begins text,
      scan_of_prefix (frontWord_begins text) (word?_eq_some_iff.mpr (.inl ⟨h, rfl⟩))⟩
  | compound h =>
    exact ⟨twoWords_begins text,
      scan_of_prefix (twoWords_begins text) (word?_eq_some_iff.mpr (.inr (.inl ⟨h, rfl⟩)))⟩
  | function h =>
    exact ⟨frontWord_begins text,
      scan_of_prefix (frontWord_begins text) (word?_eq_some_iff.mpr (.inr (.inr ⟨h, rfl⟩)))⟩
  | literal hk hcompound hf =>
    have hn : word? text = none := by
      refine Option.eq_none_iff_forall_not_mem.mpr fun m hm => ?_
      rcases word?_eq_some_iff.mp hm with ⟨h, _⟩ | ⟨h, _⟩ | ⟨h, _⟩
      · exact hk _ h
      · exact hcompound _ h
      · exact hf _ h
    refine ⟨frontWord_begins text, ?_⟩
    cases text with
    | nil => cases hc
    | cons c text => exact (scan_cons hn).trans (readFrom_of_wordStart hc)

end

/-- A token that begins with a letter or an underscore is what the words there are as a whole, in
whatever order the tables and their entries are tried. -/
theorem token_of_wordStart {text : String} {t : Token} {front rest : List Char}
    (ht : BeginsAt t front rest text.toList (tokenize text))
    (hc : headIs isWordStart rest = true) :
    (∀ kind w, WholeWord rest kind w ↔ t.kind = kind ∧ t.text.toList = w) ∧
      ∀ ps : List (List Char → Option Match), ps.Perm probes →
        ps.findSome? (· rest) = word? rest := by
  have hread {kind w} (h : WholeWord rest kind w) : t.kind = kind ∧ t.text.toList = w := by
    obtain ⟨hbegins, hs⟩ := h.scan_eq hc
    have ht := token_eq_of_beginsAt ht
    rw [hs] at ht
    have htake : rest.take w.length = w := (List.prefix_iff_eq_take.mp hbegins).symm
    rw [ht]
    simp [Reading.tokenAt, Reading.token, htake]
  refine ⟨fun kind w => ⟨hread, ?_⟩, fun ps => findSome?_probes⟩
  rintro ⟨rfl, rfl⟩
  obtain ⟨kind, w, h⟩ := WholeWord.exists rest
  obtain ⟨rfl, rfl⟩ := hread h
  exact h

theorem token_of_wordStart_inner :
    let text := "a INNER\n join"
    let rest := "INNER\n join".toList
    BeginsAt ⟨.innerJoin, "INNER\n join", ⟨1, 3⟩⟩ "a ".toList rest text.toList (tokenize text) ∧
      headIs isWordStart rest = true ∧ WholeWord rest .innerJoin rest ∧
      probes.reverse.findSome? (· rest) = word? rest := by
  intro text rest
  have htokens : tokenize text = [⟨.literal, "a", ⟨1, 1⟩⟩, ⟨.innerJoin, "INNER\n join", ⟨1, 3⟩⟩,
      ⟨.eof, "", ⟨2, 6⟩⟩] :=
    Lexer.toTokens_of_firstTokens 3 (by decide +kernel) (by decide)
  have ht : BeginsAt ⟨.innerJoin, "INNER\n join", ⟨1, 3⟩⟩ "a ".toList rest text.toList
      (tokenize text) := by
    rw [htokens]
    exact ⟨by decide, by decide +kernel, [⟨[], ⟨.literal, "a", ⟨1, 1⟩⟩⟩], [' '], _, rfl,
      by decide, by simp, List.forall_mem_singleton.mpr (by decide)⟩
  have hc : headIs isWordStart rest = true := by decide +kernel
  have h := token_of_wordStart ht hc
  exact ⟨ht, hc, (h.1 _ _).mpr ⟨rfl, rfl⟩, h.2 _ (List.reverse_perm probes)⟩

end SqlSelect
