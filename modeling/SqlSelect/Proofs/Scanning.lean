import SqlSelect.Lexer.Advance

namespace SqlSelect

/-- A reading that is no flaw is a token that others may follow. -/
def Reading.Goes (r : Reading) : Prop :=
  ∀ kind, r.verdict = .ok kind → kind.isTerminal = false

namespace Reading

theorem goes_token {width : Nat} {kind : TokenKind} (h : kind.isTerminal = false) :
    (token width kind).Goes := by
  intro k hk
  cases hk
  exact h

theorem goes_flaw {width : Nat} {f : Flaw} : (flaw width f).Goes := fun _ h => nomatch h

theorem goes_fixed {text : List Char} {m : Match} (h : m.kind.isTerminal = false) :
    (fixed text m).Goes := by
  unfold fixed
  split
  next => exact goes_token h
  next => exact goes_flaw

end Reading

theorem matchWord_kind {follows : List Char → Bool} {text : List Char} {w : String × TokenKind}
    {m : Match} (h : matchWord follows text w = some m) : m.kind = w.2 := by
  unfold matchWord at h
  split at h
  next => cases Option.some.inj h; rfl
  next => simp at h

theorem matchCompound_kind {text : List Char} {w : Compound} {m : Match}
    (h : matchCompound text w = some m) : m.kind = w.kind := by
  unfold matchCompound at h
  split at h
  next => cases Option.some.inj h; rfl
  next => simp at h

theorem findWord_kind {follows : List Char → Bool} {text : List Char}
    {words : List (String × TokenKind)} {m : Match}
    (hw : ∀ w ∈ words, w.2.isTerminal = false)
    (h : words.findSome? (matchWord follows text) = some m) : m.kind.isTerminal = false := by
  obtain ⟨w, hm, h⟩ := List.exists_of_findSome?_eq_some h
  rw [matchWord_kind h]
  exact hw w hm

theorem compound?_kind {text : List Char} {m : Match} (h : compound? text = some m) :
    m.kind.isTerminal = false := by
  obtain ⟨w, hw, h⟩ := List.exists_of_findSome?_eq_some h
  have hk : ∀ w ∈ compounds, w.kind.isTerminal = false := by decide
  rw [matchCompound_kind h]
  exact hk w hw

theorem word?_kind {text : List Char} {m : Match} (h : word? text = some m) :
    m.kind.isTerminal = false := by
  simp only [word?, Option.orElse_eq_orElse, Option.orElse_eq_or, Option.or_eq_some_iff] at h
  rcases h with h | ⟨_, h | ⟨_, h⟩⟩
  · exact findWord_kind (by decide) h
  · exact compound?_kind h
  · exact findWord_kind (by decide) h

theorem endNumber_goes {width : Nat} {text : List Char} : (endNumber width text).Goes := by
  unfold endNumber
  split
  next => exact Reading.goes_flaw
  next => exact Reading.goes_token rfl

theorem readPower_goes {width : Nat} {text : List Char} : (readPower width text).Goes := by
  unfold readPower
  split
  next => exact endNumber_goes
  next => exact Reading.goes_flaw

theorem readNumber_goes {text : List Char} : (readNumber text).Goes := by
  unfold readNumber
  split
  next =>
    split
    next => exact endNumber_goes
    next => exact Reading.goes_flaw
  next =>
    unfold readExponent
    split
    next => exact endNumber_goes
    next => exact readPower_goes

theorem readString_goes {quote : Char} {rest : List Char} : (readString quote rest).Goes := by
  unfold readString
  split
  next => exact Reading.goes_token rfl
  next => exact Reading.goes_flaw

theorem readBacktick_goes {rest : List Char} : (readBacktick rest).Goes := by
  unfold readBacktick
  split
  next => exact Reading.goes_token rfl
  next => exact Reading.goes_flaw

theorem readSymbol_goes {c : Char} {rest : List Char} : (readSymbol c rest).Goes := by
  unfold readSymbol
  split
  next m h => exact Reading.goes_fixed (findWord_kind (by decide) h)
  next => exact Reading.goes_flaw

theorem readFrom_goes {c : Char} {rest : List Char} : (readFrom c rest).Goes := by
  unfold readFrom
  split
  next => exact Reading.goes_token rfl
  split
  next => exact readNumber_goes
  split
  next => exact readString_goes
  split
  next => exact readBacktick_goes
  split
  next => exact Reading.goes_token rfl
  next => exact readSymbol_goes

theorem scan_nil : scan [] = .token 0 .eof := by
  have h : word? [] = none := by decide
  unfold scan
  split
  next m hm => cases h.symm.trans hm
  next => rfl

theorem scan_goes {c : Char} {rest : List Char} : (scan (c :: rest)).Goes := by
  unfold scan
  split
  next m h => exact Reading.goes_fixed (word?_kind h)
  next => exact readFrom_goes

/-- A token is the end of the text, and is found there only, or takes a character at least. -/
theorem scan_token {text : List Char} {kind : TokenKind} (h : (scan text).verdict = .ok kind) :
    text = [] ∧ kind = .eof ∧ (scan text).width = 0 ∨
      kind.isTerminal = false ∧ text.take (scan text).width ≠ [] := by
  cases text with
  | nil =>
    rw [scan_nil] at h ⊢
    cases h
    exact .inl ⟨rfl, rfl, rfl⟩
  | cons c rest =>
    have hk := scan_goes kind h
    have hw := scan_advances (c :: rest) kind h hk
    refine .inr ⟨hk, fun he => ?_⟩
    rcases List.take_eq_nil_iff.mp he with he | he
    · omega
    · cases he

theorem scan_flaw {text : List Char} {flaw : Flaw} (h : (scan text).verdict = .error flaw) :
    text ≠ [] := by
  rintro rfl
  rw [scan_nil] at h
  cases h

end SqlSelect
