import SqlSelect.Parser
import SqlSelect.Proofs.Tiling

namespace SqlSelect

theorem Token.isError_of_not_terminal {t : Token} (h : t.kind.isTerminal = false) :
    t.isError = false := by
  unfold isError
  generalize t.kind = k at h
  cases k <;> first | rfl | cases h

namespace TokenList

variable {front : List Token} {final : Token}

theorem find?_isError_concat (hf : ∀ t ∈ front, t.isError = false) (final : Token) :
    (front ++ [final]).find? Token.isError = if final.isError then some final else none := by
  have hn : front.find? Token.isError = none :=
    List.find?_eq_none.mpr fun t ht => by simp [hf t ht]
  rw [List.find?_append, hn, Option.none_or, List.find?_cons, List.find?_nil]
  cases final.isError <;> rfl

theorem ofTokens_of_error (hf : ∀ t ∈ front, t.isError = false)
    (he : final.isError = true) : ofTokens (front ++ [final]) = .error (.ofErrorToken final) := by
  have hfind := find?_isError_concat hf final
  rw [if_pos he] at hfind
  unfold ofTokens
  split
  next t ht => rw [Option.some.inj (hfind.symm.trans ht)]
  next hn => cases hfind.symm.trans hn

theorem ofTokens_of_eof (hf : ∀ t ∈ front, t.isError = false)
    (he : final.isEof = true) : ∃ ts, ofTokens (front ++ [final]) = .ok ts ∧
      ts.front = front.toArray ∧ ts.final = final := by
  have hne : final.isError = false := by
    have hk : final.kind = .eof := by simpa [Token.isEof] using he
    simp [Token.isError, hk]
  have hfind := find?_isError_concat hf final
  rw [hne, if_neg Bool.false_ne_true] at hfind
  unfold ofTokens
  split
  next t ht => cases hfind.symm.trans ht
  next =>
    split
    next hl => simp at hl
    next last hl =>
      obtain rfl : final = last := by simpa using hl
      rw [dif_pos he]
      exact ⟨_, rfl, by simp, rfl⟩

end TokenList

/-- The tokens of a text are loaded as they are, unless the last of them is an error. -/
theorem ofTokens_tokenize (text : String) : ∃ front final, tokenize text = front ++ [final] ∧
    (∀ t ∈ front, t.kind.isTerminal = false) ∧
    (final.kind = .error ∧ TokenList.ofTokens (tokenize text) = .error (.ofErrorToken final) ∨
      final.kind = .eof ∧ ∃ ts : TokenList, ts.front = front.toArray ∧ ts.final = final ∧
        TokenList.ofTokens (tokenize text) = .ok ts) := by
  obtain ⟨front, final, he, hf, hfinal⟩ := (Lexer.ofText text).toTokens_eq_concat
  have he : tokenize text = front ++ [final] := he
  have hn : ∀ t ∈ front, t.isError = false := fun t ht => Token.isError_of_not_terminal (hf t ht)
  refine ⟨front, final, he, hf, ?_⟩
  by_cases hk : final.kind = .error
  · have herror : final.isError = true := by simp [Token.isError, hk]
    exact .inl ⟨hk, he ▸ TokenList.ofTokens_of_error hn herror⟩
  · have hk : final.kind = .eof := by
      generalize final.kind = k at hk hfinal
      cases k <;> first | rfl | exact (hk rfl).elim | cases hfinal
    have hend : final.isEof = true := by simp [Token.isEof, hk]
    obtain ⟨ts, ho, hfront, hlast⟩ := TokenList.ofTokens_of_eof hn hend
    exact .inr ⟨hk, ts, hfront, hlast, he ▸ ho⟩

/-- A text is loaded with all its tokens, unless the last of them is an error. -/
theorem tokenize_loads (text : String) : ∃ front final, tokenize text = front ++ [final] ∧
    (∀ t ∈ front, t.kind.isTerminal = false) ∧
    (final.kind = .error ∧ (∀ options, parse text options = .error (.ofErrorToken final)) ∨
      final.kind = .eof ∧ ∃ ts : TokenList, ts.front = front.toArray ∧ ts.final = final ∧
        ∀ options, parse text options = (Parser.mk ts options).parse) := by
  obtain ⟨front, final, he, hf, ⟨hk, ho⟩ | ⟨hk, ts, hfront, hlast, ho⟩⟩ := ofTokens_tokenize text
  · refine ⟨front, final, he, hf, .inl ⟨hk, fun options => ?_⟩⟩
    rw [parse, Parser.ofText, Parser.ofTokens, ho]
    rfl
  · refine ⟨front, final, he, hf, .inr ⟨hk, ts, hfront, hlast, fun options => ?_⟩⟩
    rw [parse, Parser.ofText, Parser.ofTokens, ho]
    rfl

/-- What a text is loaded as has its tokens. -/
theorem Parser.toList_of_ofText {text : String} {options : Options} {p : Parser}
    (h : ofText text options = .ok p) : p.tokens.toList = tokenize text := by
  obtain ⟨front, final, he, _, ⟨_, ho⟩ | ⟨_, ts, hfront, hlast, ho⟩⟩ := ofTokens_tokenize text
  · rw [ofText, ofTokens, ho] at h
    cases h
  · rw [ofText, ofTokens, ho] at h
    cases h
    rw [he, TokenList.toList, hfront, hlast]

end SqlSelect
