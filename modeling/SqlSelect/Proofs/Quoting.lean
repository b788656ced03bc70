import SqlSelect.Proofs.Beginning
import SqlSelect.Proofs.NumberGrammar

namespace SqlSelect

/-- What a string literal stands between. -/
def IsQuote (c : Char) : Prop := c = '\'' ∨ c = '"'

/-- A text with each `q` in it written twice. -/
def doubled (q : Char) (s : List Char) : List Char :=
  s.flatMap fun c => if c = q then [c, c] else [c]

/-- The literal that stands for `s` between two quotes `q`. -/
def quoted (q : Char) (s : List Char) : List Char := q :: (doubled q s ++ [q])

section

variable {q q' c : Char} {s s' rest after : List Char} {n : Nat}

@[simp] theorem doubled_nil (q : Char) : doubled q [] = [] := rfl

@[simp] theorem doubled_cons_self (q : Char) (s : List Char) :
    doubled q (q :: s) = q :: q :: doubled q s := by simp [doubled]

theorem doubled_cons_ne (h : c ≠ q) (s : List Char) : doubled q (c :: s) = c :: doubled q s := by
  simp [doubled, h]

theorem quoted_append (q : Char) (s after : List Char) :
    quoted q s ++ after = q :: (doubled q s ++ q :: after) := by simp [quoted]

theorem quoted_ne_nil (q : Char) (s : List Char) : quoted q s ≠ [] := List.cons_ne_nil _ _

theorem length_quoted (q : Char) (s : List Char) :
    (quoted q s).length = 1 + ((doubled q s).length + 1) := by
  simp [quoted]
  omega

theorem doubled_cons (q c : Char) (s : List Char) :
    doubled q (c :: s) = c :: ((if c = q then [c] else []) ++ doubled q s) := by
  by_cases hc : c = q <;> simp [doubled, hc]

theorem doubled_injective (q : Char) : Function.Injective (doubled q) := by
  intro s s' h
  induction s generalizing s' with
  | nil =>
    cases s' with
    | nil => rfl
    | cons c s' =>
      rw [doubled_cons] at h
      cases h
  | cons c s ih =>
    cases s' with
    | nil =>
      rw [doubled_cons] at h
      cases h
    | cons d s' =>
      rw [doubled_cons, doubled_cons] at h
      obtain ⟨rfl, h⟩ := List.cons.inj h
      rw [ih (List.append_cancel_left h)]

theorem quoted_inj (h : quoted q s = quoted q' s') : q = q' ∧ s = s' := by
  obtain ⟨rfl, h⟩ := List.cons.inj h
  exact ⟨rfl, doubled_injective q (List.append_cancel_right h)⟩

theorem stringEnd_cons_ne (h : c ≠ q) (rest : List Char) :
    stringEnd q (c :: rest) = (stringEnd q rest).map (· + 1) := by
  cases rest with
  | nil => simp [stringEnd, h]
  | cons d rest => simp [stringEnd, h]

/-- Quotes are paired from the left: the first one without a partner ends the string. -/
theorem stringEnd_doubled (ha : headIs (· = q) after = false) (s : List Char) :
    stringEnd q (doubled q s ++ q :: after) = some ((doubled q s).length + 1) := by
  induction s with
  | nil => exact stringEnd_quote.mpr ha
  | cons c s ih =>
    by_cases hc : c = q
    · subst hc
      simp [stringEnd, ih]
    · simp [doubled_cons_ne hc, stringEnd_cons_ne hc, ih]

theorem doubled_of_stringEnd (h : stringEnd q rest = some n) : ∃ s after,
    rest = doubled q s ++ q :: after ∧ headIs (· = q) after = false ∧
      n = (doubled q s).length + 1 := by
  induction rest using stringEnd.induct q generalizing n with
  | case1 => cases h
  | case2 => exact ⟨[], [], rfl, rfl, by simpa [stringEnd] using h.symm⟩
  | case3 c hc => simp [stringEnd, hc] at h
  | case4 rest ih =>
    simp only [stringEnd, reduceIte, Option.map_eq_some_iff] at h
    obtain ⟨m, hm, rfl⟩ := h
    obtain ⟨s, after, rfl, ha, rfl⟩ := ih hm
    exact ⟨q :: s, after, by simp, ha, by simp⟩
  | case5 d rest hd =>
    refine ⟨[], d :: rest, rfl, by simpa [headIs] using hd, ?_⟩
    simpa [stringEnd, hd] using h.symm
  | case6 c d rest hc ih =>
    rw [stringEnd_cons_ne hc, Option.map_eq_some_iff] at h
    obtain ⟨m, hm, rfl⟩ := h
    obtain ⟨s, after, hs, ha, rfl⟩ := ih hm
    refine ⟨c :: s, after, ?_, ha, ?_⟩
    · rw [hs, doubled_cons_ne hc, List.cons_append]
    · simp [doubled_cons_ne hc]

/-- A text that begins with a quote begins with a literal, or with none. -/
theorem readString_cases (q : Char) (rest : List Char) :
    (∃ s after, q :: rest = quoted q s ++ after ∧ headIs (· = q) after = false ∧
      readString q rest = .token (quoted q s).length .string) ∨
    (¬∃ s after, q :: rest = quoted q s ++ after ∧ headIs (· = q) after = false) ∧
      readString q rest = .flaw (1 + rest.length) .string := by
  unfold readString
  cases h : stringEnd q rest with
  | none =>
    refine .inr ⟨?_, rfl⟩
    rintro ⟨s, after, he, ha⟩
    rw [quoted_append] at he
    rw [(List.cons.inj he).2, stringEnd_doubled ha] at h
    cases h
  | some n =>
    obtain ⟨s, after, rfl, ha, rfl⟩ := doubled_of_stringEnd h
    exact .inl ⟨s, after, (quoted_append q s after).symm, ha, by rw [length_quoted]⟩

theorem IsQuote.scan_eq (hq : IsQuote q) (rest : List Char) :
    scan (q :: rest) = readString q rest := by
  rcases hq with rfl | rfl
  · exact scan_cons (word?_of_not_wordStart (by decide))
  · exact scan_cons (word?_of_not_wordStart (by decide))

theorem IsQuote.scan_quoted (hq : IsQuote q) (ha : headIs (· = q) after = false) (s : List Char) :
    scan (quoted q s ++ after) = .token (quoted q s).length .string := by
  rw [quoted_append, hq.scan_eq, readString, stringEnd_doubled ha, length_quoted]

theorem word?_ne_string {m : Match} (h : word? rest = some m) : m.kind ≠ .string := by
  simp only [word?, Option.orElse_eq_orElse, Option.orElse_eq_or, Option.or_eq_some_iff] at h
  rcases h with h | ⟨_, h | ⟨_, h⟩⟩
  · have hk : ∀ v ∈ keywords, v.2 ≠ .string := by decide
    obtain ⟨v, hv, h⟩ := List.exists_of_findSome?_eq_some h
    exact matchWord_kind h ▸ hk v hv
  · have hk : ∀ v ∈ compounds, v.kind ≠ .string := by decide
    obtain ⟨v, hv, h⟩ := List.exists_of_findSome?_eq_some h
    exact matchCompound_kind h ▸ hk v hv
  · have hk : ∀ v ∈ functions, v.2 ≠ .string := by decide
    obtain ⟨v, hv, h⟩ := List.exists_of_findSome?_eq_some h
    exact matchWord_kind h ▸ hk v hv

/-- Nothing but a quote begins a string. -/
theorem isQuote_of_scan (h : scan (c :: rest) = .token n .string) : IsQuote c := by
  cases hw : word? (c :: rest) with
  | some m =>
    rw [scan_of_word? hw] at h
    exact (word?_ne_string hw (congrArg Match.kind (Reading.fixed_eq_token.mp h).1)).elim
  | none =>
    rw [scan_cons hw] at h
    unfold readFrom at h
    split at h
    next => cases (Reading.token_inj.mp h).2
    split at h
    next hd =>
      rcases readNumber_eq (c :: rest) with he | ⟨_, m, he⟩
      · rw [he] at h
        unfold endNumber at h
        split at h
        next => exact (Reading.flaw_ne_token h).elim
        next => cases (Reading.token_inj.mp h).2
      · rw [he] at h
        exact (Reading.flaw_ne_token h).elim
    split at h
    next hq => simpa [IsQuote] using hq
    split at h
    next =>
      unfold readBacktick at h
      split at h
      next => cases (Reading.token_inj.mp h).2
      next => exact (Reading.flaw_ne_token h).elim
    split at h
    next => cases (Reading.token_inj.mp h).2
    next =>
      unfold readSymbol at h
      split at h
      next m hm =>
        have hk : ∀ v ∈ symbols, v.2 ≠ .string := by decide
        obtain ⟨v, hv, hm⟩ := List.exists_of_findSome?_eq_some hm
        rw [(Reading.fixed_eq_token.mp h).1] at hm
        exact (hk v hv (matchWord_kind hm).symm).elim
      next => exact (Reading.flaw_ne_token h).elim

/-- Every string that is read is a literal that no further quote follows. -/
theorem quoted_of_scan (h : scan rest = .token n .string) : ∃ q s after, IsQuote q ∧
    rest = quoted q s ++ after ∧ headIs (· = q) after = false ∧ n = (quoted q s).length := by
  cases rest with
  | nil =>
    rw [scan_nil] at h
    cases (Reading.token_inj.mp h).2
  | cons q rest =>
    have hq := isQuote_of_scan h
    rw [hq.scan_eq] at h
    rcases readString_cases q rest with ⟨s, after, he, ha, hr⟩ | ⟨_, hr⟩
    · rw [hr] at h
      exact ⟨q, s, after, hq, he, ha, (Reading.token_inj.mp h).1.symm⟩
    · rw [hr] at h
      exact (Reading.flaw_ne_token h).elim

end

namespace Lexer

variable {lx : Lexer} {q : Char} {s gap after : List Char}

/-- A literal is read as one token, and what comes after it comes next. -/
theorem Settled.nextToken_quoted (h : lx.Settled) (hg : ∀ c ∈ gap, isSpace c = true)
    (hq : IsQuote q) (hrest : lx.rest = gap ++ (quoted q s ++ after))
    (ha : headIs (· = q) after = false) : lx.nextToken =
      (⟨.string, .ofList (quoted q s), lx.position.after gap⟩,
        ⟨[], after, lx.position.after (gap ++ quoted q s),
          lx.position.after (gap ++ quoted q s), lx.finished⟩) := by
  have hs := hq.scan_quoted ha s
  have hinked := headIs_isSpace_of_scan (quoted_ne_nil q s) hs
  unfold nextToken
  rw [h.skipBlanks_eq, hrest, takeWhile_append hg hinked, dropWhile_append hg hinked]
  unfold follow
  rw [hs]
  simp [Reading.token, emit, advance, restart, Position.after_append]

end Lexer

theorem Reading.eq_token_of_tokenAt {r : Reading} {rest : List Char} {p : Position}
    {kind : TokenKind} (hk : kind ≠ .error) (h : (r.tokenAt rest p).kind = kind) :
    r = .token r.width kind := by
  unfold tokenAt at h
  split at h
  next k hv => exact congrArg (Reading.mk r.width) (h ▸ hv)
  next => exact (hk h.symm).elim

/-- A string literal stands between two quotes, and a quote in it is written twice. One that no
further quote follows is one token, every string is such a literal, of one text only, and a quote
that begins no such literal is reported as unterminated, where it stands. -/
theorem strings_quoted (text : String) :
    (∀ (lx : Lexer) (q : Char) (s gap after : List Char), lx.Settled → IsQuote q →
      (∀ c ∈ gap, isSpace c = true) → lx.rest = gap ++ (quoted q s ++ after) →
      headIs (· = q) after = false → lx.nextToken =
        (⟨.string, .ofList (quoted q s), lx.position.after gap⟩,
          ⟨[], after, lx.position.after (gap ++ quoted q s),
            lx.position.after (gap ++ quoted q s), lx.finished⟩)) ∧
    (∀ t ∈ tokenize text, t.kind = .string → ∃ front q s after, IsQuote q ∧
      BeginsAt t front (quoted q s ++ after) text.toList (tokenize text) ∧
      headIs (· = q) after = false ∧ t.text.toList = quoted q s ∧
      ∀ q' s', t.text.toList = quoted q' s' → q' = q ∧ s' = s) ∧
    ∀ (t : Token) (front : List Char) (q : Char) (rest : List Char), IsQuote q →
      BeginsAt t front (q :: rest) text.toList (tokenize text) →
      ((∃ read, t = ⟨.error, Flaw.message read (.ofFront front) .string, .ofFront front⟩) ↔
        ¬∃ s after, q :: rest = quoted q s ++ after ∧ headIs (· = q) after = false) := by
  refine ⟨fun lx q s gap after h hq hg hrest ha => h.nextToken_quoted hg hq hrest ha, ?_, ?_⟩
  · intro t ht hk
    have hsettled : (Lexer.ofText text).Settled := ⟨rfl, rfl⟩
    obtain ⟨front, rest, hbegins⟩ := hsettled.beginsAt ht
    have htoken := token_eq_of_beginsAt hbegins
    rw [htoken] at hk
    have hscan := Reading.eq_token_of_tokenAt (by decide) hk
    obtain ⟨q, s, after, hq, rfl, ha, hwidth⟩ := quoted_of_scan hscan
    have htext : t.text.toList = quoted q s := by
      rw [htoken, hscan, hwidth]
      simp [Reading.tokenAt, Reading.token]
    refine ⟨front, q, s, after, hq, hbegins, ha, htext, fun q' s' he => ?_⟩
    exact quoted_inj (he.symm.trans htext)
  · intro t front q rest hq hbegins
    have htoken := token_eq_of_beginsAt hbegins
    rw [hq.scan_eq] at htoken
    rcases readString_cases q rest with ⟨s, after, he, ha, hr⟩ | ⟨hn, hr⟩
    · rw [hr] at htoken
      refine ⟨?_, fun hn => (hn ⟨s, after, he, ha⟩).elim⟩
      rintro ⟨read, herror⟩
      cases htoken.symm.trans herror
    · rw [hr] at htoken
      exact ⟨fun _ => hn, fun _ => ⟨_, htoken⟩⟩

theorem strings_quoted_of_odd_quotes :
    let text := "'it''s' 'x''"
    let second : Token :=
      ⟨.error, "unterminated quoted string starting at line 1, column 9", ⟨1, 9⟩⟩
    (Lexer.ofText text).nextToken.1 = ⟨.string, "'it''s'", ⟨1, 1⟩⟩ ∧
      (Lexer.ofText text).nextToken.2.rest = " 'x''".toList ∧
      ⟨.string, "'it''s'", ⟨1, 1⟩⟩ ∈ tokenize text ∧
      (∃ front q s after, IsQuote q ∧
        BeginsAt ⟨.string, "'it''s'", ⟨1, 1⟩⟩ front (quoted q s ++ after) text.toList
          (tokenize text) ∧ headIs (· = q) after = false) ∧
      BeginsAt second "'it''s' ".toList "'x''".toList text.toList (tokenize text) ∧
      ¬∃ s after, "'x''".toList = quoted '\'' s ++ after ∧ headIs (· = '\'') after = false := by
  intro text second
  have htokens : tokenize text = [⟨.string, "'it''s'", ⟨1, 1⟩⟩, second] :=
    Lexer.toTokens_of_firstTokens 2 (by decide +kernel) (by decide)
  obtain ⟨hread, hstrings, herrors⟩ := strings_quoted text
  have hnext := hread (Lexer.ofText text) '\'' "it's".toList [] " 'x''".toList ⟨rfl, rfl⟩ (.inl rfl)
    nofun (by decide) (by decide)
  have hmem : ⟨.string, "'it''s'", ⟨1, 1⟩⟩ ∈ tokenize text := by
    rw [htokens]
    exact List.mem_cons_self
  obtain ⟨front, q, s, after, hq, hbegins, ha, _⟩ := hstrings _ hmem rfl
  have hsecond : BeginsAt second "'it''s' ".toList "'x''".toList text.toList (tokenize text) := by
    rw [htokens]
    exact ⟨by decide, by decide +kernel, [⟨[], ⟨.string, "'it''s'", ⟨1, 1⟩⟩⟩], [' '], [], rfl,
      by decide, by simp, List.forall_mem_singleton.mpr (by decide)⟩
  refine ⟨?_, by rw [hnext], hmem, ⟨front, q, s, after, hq, hbegins, ha⟩, hsecond, ?_⟩
  · rw [hnext]
    decide
  · exact (herrors second _ '\'' "x''".toList (.inl rfl) hsecond).mp ⟨"", by decide⟩

end SqlSelect
