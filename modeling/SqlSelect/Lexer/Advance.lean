import SqlSelect.Lexer.Reading

namespace SqlSelect

namespace Reading

/-- A reading that is a token and not the end of the text takes a character at least. -/
def Advances (r : Reading) : Prop :=
  ∀ kind, r.verdict = .ok kind → kind.isTerminal = false → 0 < r.width

theorem advances_token {width : Nat} {kind : TokenKind} (h : 0 < width) :
    (token width kind).Advances := fun _ _ _ => h

theorem advances_flaw {width : Nat} {f : Flaw} : (flaw width f).Advances :=
  fun _ h _ => nomatch h

theorem advances_fixed {text : List Char} {m : Match} (h : 0 < m.width) :
    (fixed text m).Advances := by
  unfold fixed
  split
  next => exact advances_token h
  next => exact advances_flaw

end Reading

theorem matchWord_width {follows : List Char → Bool} {text : List Char} {w : String × TokenKind}
    {m : Match} (h : matchWord follows text w = some m) : m.width = w.1.length := by
  unfold matchWord at h
  split at h
  next => cases Option.some.inj h; rfl
  next => simp at h

theorem matchCompound_width {text : List Char} {w : Compound} {m : Match}
    (h : matchCompound text w = some m) : m.width = w.width text := by
  unfold matchCompound at h
  split at h
  next => cases Option.some.inj h; rfl
  next => simp at h

theorem findWord_width_pos {follows : List Char → Bool} {text : List Char}
    {words : List (String × TokenKind)} {m : Match} (hw : ∀ w ∈ words, 0 < w.1.length)
    (h : words.findSome? (matchWord follows text) = some m) : 0 < m.width := by
  obtain ⟨w, hm, h⟩ := List.exists_of_findSome?_eq_some h
  rw [matchWord_width h]
  exact hw w hm

theorem compound?_width_pos {text : List Char} {m : Match} (h : compound? text = some m) :
    0 < m.width := by
  obtain ⟨w, hw, h⟩ := List.exists_of_findSome?_eq_some h
  have hp : ∀ w ∈ compounds, 0 < w.second.length := by decide
  have hs := hp w hw
  rw [matchCompound_width h, Compound.width]
  omega

theorem word?_width_pos {text : List Char} {m : Match} (h : word? text = some m) :
    0 < m.width := by
  simp only [word?, Option.orElse_eq_orElse, Option.orElse_eq_or, Option.or_eq_some_iff] at h
  rcases h with h | ⟨_, h | ⟨_, h⟩⟩
  · exact findWord_width_pos (by decide) h
  · exact compound?_width_pos h
  · exact findWord_width_pos (by decide) h

theorem frontWidth_pos {p : Char → Bool} {c : Char} {rest : List Char} (h : p c = true) :
    0 < frontWidth p (c :: rest) := by simp [frontWidth, h]

theorem endNumber_advances {width : Nat} {text : List Char} (h : 0 < width) :
    (endNumber width text).Advances := by
  unfold endNumber
  split
  next => exact Reading.advances_flaw
  next => exact Reading.advances_token h

theorem readPower_advances {width : Nat} {text : List Char} (h : 0 < width) :
    (readPower width text).Advances := by
  unfold readPower
  split
  next => exact endNumber_advances (by omega)
  next => exact Reading.advances_flaw

theorem readExponent_advances {width : Nat} {text : List Char} (h : 0 < width) :
    (readExponent width text).Advances := by
  unfold readExponent
  split
  next => exact endNumber_advances h
  next => exact readPower_advances (by omega)

theorem mantissa_pos {digit : Char → Bool} {c : Char} {rest : List Char} (h : digit c = true) :
    0 < mantissa digit (c :: rest) := by
  have hp : 0 < frontWidth digit (c :: rest) := frontWidth_pos h
  unfold mantissa
  split <;> omega

theorem readNumber_advances {c : Char} {rest : List Char} (h : isDecimal c = true) :
    (readNumber (c :: rest)).Advances := by
  unfold readNumber
  split
  next =>
    split
    next => exact endNumber_advances (by omega)
    next => exact Reading.advances_flaw
  next => exact readExponent_advances (mantissa_pos h)

theorem readString_advances {quote : Char} {rest : List Char} :
    (readString quote rest).Advances := by
  unfold readString
  split
  next => exact Reading.advances_token (by omega)
  next => exact Reading.advances_flaw

theorem readBacktick_advances {rest : List Char} : (readBacktick rest).Advances := by
  unfold readBacktick
  split
  next => exact Reading.advances_token (by omega)
  next => exact Reading.advances_flaw

theorem readSymbol_advances {c : Char} {rest : List Char} : (readSymbol c rest).Advances := by
  unfold readSymbol
  split
  next m h => exact Reading.advances_fixed (findWord_width_pos (by decide) h)
  next => exact Reading.advances_flaw

theorem readFrom_advances {c : Char} {rest : List Char} : (readFrom c rest).Advances := by
  unfold readFrom
  split
  next => exact Reading.advances_token (by omega)
  split
  next h => exact readNumber_advances h
  split
  next => exact readString_advances
  split
  next => exact readBacktick_advances
  split
  next h => exact Reading.advances_token (frontWidth_pos (isWordChar_of_isWordStart h))
  next => exact readSymbol_advances

theorem scan_advances (text : List Char) : (scan text).Advances := by
  unfold scan
  split
  next m h => exact Reading.advances_fixed (word?_width_pos h)
  next =>
    split
    next => exact fun _ h hk => by cases h; cases hk
    next => exact readFrom_advances

theorem scan_ne_nil {text : List Char} {kind : TokenKind} (h : (scan text).verdict = .ok kind)
    (hk : kind.isTerminal = false) : text ≠ [] := by
  intro he
  subst he
  cases h
  cases hk

/-- A token that is not the end of the text leaves less of it to read. -/
theorem scan_shortens {text : List Char} {kind : TokenKind} (h : (scan text).verdict = .ok kind)
    (hk : kind.isTerminal = false) : (text.drop (scan text).width).length < text.length := by
  have hp := scan_advances text kind h hk
  have hn := List.length_pos_iff.mpr (scan_ne_nil h hk)
  rw [List.length_drop]
  omega

end SqlSelect
