import SqlSelect.Proofs.Matched
import SqlSelect.Proofs.Quoting

namespace SqlSelect

/-- What the characters of a token of a kind are, where `rest` comes after them. -/
inductive TokenShape (rest : List Char) : TokenKind → List Char → Prop
  | worded {k w} : word? (w ++ rest) = some ⟨w.length, k⟩ → TokenShape rest k w
  | finish : TokenShape rest .eof []
  | parameter {w} : (∀ c ∈ w, isWordChar c = true) → TokenShape rest .parameter (':' :: w)
  | number {w} : IsNumeral w → TokenShape rest .number w
  | string {q s} : IsQuote q → TokenShape rest .string (quoted q s)
  | backtick {s} : '\x60' ∉ s → TokenShape rest .literal ('\x60' :: (s ++ ['\x60']))
  | bare {w} : (∀ c ∈ w, isWordChar c = true) → TokenShape rest .literal w
  | symbol {k w} : (lowered w, k) ∈ symbols → TokenShape rest k w

section

variable {w rest after text : List Char} {c q : Char} {k : TokenKind} {n : Nat}

theorem shape_of_readNumber (hc : isDecimal c = true)
    (h : readNumber (c :: after) = .token w.length k) (ht : c :: after = w ++ rest) :
    TokenShape rest k w := by
  rcases readNumber_eq (c :: after) with he | ⟨_, _, he⟩
  · rw [he] at h
    unfold endNumber at h
    split at h
    next => exact (Reading.flaw_ne_token h).elim
    next =>
      obtain ⟨hwidth, rfl⟩ := Reading.token_inj.mp h
      have hnumeral : IsNumeral ((c :: after).take (numeralWidth (c :: after))) := isNumeral_take hc
      rw [hwidth, ht, List.take_left] at hnumeral
      exact .number hnumeral
  · rw [he] at h
    exact (Reading.flaw_ne_token h).elim

theorem shape_of_readString (hq : IsQuote q) (h : readString q after = .token w.length k)
    (ht : q :: after = w ++ rest) : TokenShape rest k w := by
  rcases readString_cases q after with ⟨s, _, he, _, hr⟩ | ⟨_, hr⟩
  · rw [hr] at h
    obtain ⟨hwidth, rfl⟩ := Reading.token_inj.mp h
    rw [he] at ht
    rw [← (List.append_inj ht hwidth).1]
    exact .string hq
  · rw [hr] at h
    exact (Reading.flaw_ne_token h).elim

theorem shape_of_readBacktick (h : readBacktick after = .token w.length k)
    (ht : '\x60' :: after = w ++ rest) : TokenShape rest k w := by
  unfold readBacktick at h
  split at h
  next hm =>
    obtain ⟨s, last, rfl, hs⟩ := List.eq_append_cons_of_mem hm
    have hfree : ∀ c ∈ s, decide (c ≠ '\x60') = true := by
      intro c hc
      refine decide_eq_true ?_
      rintro rfl
      exact hs hc
    have hstop : headIs (fun c => decide (c ≠ '\x60')) ('\x60' :: last) = false := rfl
    rw [frontWidth_eq hfree hstop] at h
    obtain ⟨hwidth, rfl⟩ := Reading.token_inj.mp h
    have ht : ('\x60' :: (s ++ ['\x60'])) ++ last = w ++ rest := by
      rw [← ht]
      simp
    have hlength : ('\x60' :: (s ++ ['\x60'])).length = w.length := by
      rw [← hwidth]
      simp
      omega
    rw [← (List.append_inj ht hlength).1]
    exact .backtick hs
  next => exact (Reading.flaw_ne_token h).elim

theorem shape_of_readSymbol (h : readSymbol c after = .token w.length k)
    (ht : c :: after = w ++ rest) : TokenShape rest k w := by
  unfold readSymbol at h
  split at h
  next m hm =>
    obtain ⟨rfl, _⟩ := Reading.fixed_eq_token.mp h
    obtain ⟨taken, last, he, hlength, hentry⟩ := exists_of_findWord symbols_small hm
    rw [ht] at he
    rw [(List.append_inj he hlength.symm).1]
    exact .symbol hentry
  next => exact (Reading.flaw_ne_token h).elim

theorem shape_of_readFrom (h : readFrom c after = .token w.length k) (ht : c :: after = w ++ rest) :
    TokenShape rest k w := by
  unfold readFrom at h
  split at h
  next hc =>
    obtain ⟨hwidth, rfl⟩ := Reading.token_inj.mp h
    obtain ⟨rfl, _⟩ : c = ':' ∧ headIs isAlphabetic after = true := by simpa using hc
    have htake : (':' :: after).take w.length = w := by rw [ht, List.take_left]
    rw [← hwidth, Nat.add_comm, List.take_succ_cons] at htake
    rw [← htake]
    exact .parameter fun d => mem_take_frontWidth
  split at h
  next hc => exact shape_of_readNumber hc h ht
  split at h
  next hq => exact shape_of_readString (by simpa [IsQuote] using hq) h ht
  split at h
  next hc =>
    subst hc
    exact shape_of_readBacktick h ht
  split at h
  next =>
    obtain ⟨hwidth, rfl⟩ := Reading.token_inj.mp h
    have htake : (c :: after).take w.length = w := by rw [ht, List.take_left]
    rw [← hwidth] at htake
    rw [← htake]
    exact .bare fun d => mem_take_frontWidth
  next => exact shape_of_readSymbol h ht

/-- Every token has the shape of its kind. -/
theorem shape_of_scan (h : scan (w ++ rest) = .token w.length k) : TokenShape rest k w := by
  unfold scan at h
  split at h
  next m hm =>
    obtain ⟨rfl, _⟩ := Reading.fixed_eq_token.mp h
    exact .worded hm
  next =>
    split at h
    next hnil =>
      obtain ⟨_, rfl⟩ := Reading.token_inj.mp h
      rw [(List.append_eq_nil_iff.mp hnil).1]
      exact .finish
    next hcons => exact shape_of_readFrom h hcons.symm

theorem exists_shape_of_scan (h : scan text = .token n k) :
    ∃ w rest, text = w ++ rest ∧ w.length = n ∧ TokenShape rest k w := by
  have hn : n ≤ text.length := by
    have hle := scan_within text k (congrArg Reading.verdict h)
    rwa [h] at hle
  have hlength : (text.take n).length = n := List.length_take_of_le hn
  refine ⟨text.take n, text.drop n, (List.take_append_drop n text).symm, hlength, ?_⟩
  refine shape_of_scan ?_
  rw [List.take_append_drop, hlength, h]

end

/-- Every token of a text but an error has the shape of its kind. -/
theorem exists_shape {text : String} {t : Token} (ht : t ∈ tokenize text) (hk : t.kind ≠ .error) :
    ∃ rest, TokenShape rest t.kind t.text.toList := by
  have hs : (Lexer.ofText text).Settled := ⟨rfl, rfl⟩
  obtain ⟨front, rest, hbegins⟩ := hs.beginsAt ht
  have htoken := token_eq_of_beginsAt hbegins
  have hkind : ((scan rest).tokenAt rest (.ofFront front)).kind = t.kind := by rw [← htoken]
  have hscan := Reading.eq_token_of_tokenAt hk hkind
  obtain ⟨w, after, rfl, hlength, hshape⟩ := exists_shape_of_scan hscan
  have htext : t.text.toList = w := by
    rw [htoken, hscan, ← hlength]
    simp [Reading.tokenAt, Reading.token]
  rw [htext]
  exact ⟨after, hshape⟩

end SqlSelect
