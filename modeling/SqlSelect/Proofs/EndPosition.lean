import SqlSelect.Proofs.Loading

namespace SqlSelect

/-- A token ends on the line it begins on, and in a column of 64 bits. -/
def Token.WithinLine (t : Token) : Prop :=
  '\n' ∉ t.text.toList ∧ t.position.column + t.text.length < wordBound

instance (t : Token) : Decidable t.WithinLine := inferInstanceAs (Decidable (_ ∧ _))

theorem Position.line_after (p : Position) (text : List Char) :
    (p.after text).line = p.line + text.count '\n' := by
  induction text generalizing p with
  | nil => rfl
  | cons c text ih =>
    rw [after_cons, ih, List.count_cons]
    unfold next
    by_cases hc : c = '\n'
    · simp [hc]
      omega
    · simp [hc]

theorem Position.after_of_one_line (p : Position) {text : List Char} (h : '\n' ∉ text) :
    p.after text = ⟨p.line, p.column + text.length⟩ := by
  have hline := p.line_after text
  rw [List.count_eq_zero.mpr h] at hline
  rcases p.after_cases text with hlt | ⟨_, hcolumn⟩
  · omega
  · exact Position.mk.injEq .. ▸ ⟨hline, hcolumn⟩

/-- What is put after a token stands where the token ends if that is within its line. -/
theorem Token.endAfter_position_iff (t : Token) :
    t.endAfter.position = t.position.after t.text.toList ↔ t.WithinLine := by
  constructor
  · intro h
    have hline := t.position.line_after t.text.toList
    rw [← h] at hline
    have hcount : t.text.toList.count '\n' = 0 := Nat.left_eq_add.mp hline
    have hn := List.count_eq_zero.mp hcount
    refine ⟨hn, ?_⟩
    rw [Position.after_of_one_line _ hn] at h
    have hcolumn : (t.position.column + t.text.length) % wordBound =
      t.position.column + t.text.length := congrArg Position.column h
    rw [← hcolumn]
    exact Nat.mod_lt _ (by decide)
  · rintro ⟨hn, hlt⟩
    rw [Position.after_of_one_line _ hn]
    exact congrArg (Position.mk _) (Nat.mod_eq_of_lt hlt)

theorem TokenList.ofTokens_of_not_eof {tokens : List Token} {last : Token}
    (he : ∀ t ∈ tokens, t.isError = false) (hl : tokens.getLast? = some last)
    (hn : last.isEof = false) :
    ∃ ts, ofTokens tokens = .ok ts ∧ ts.front = tokens.toArray ∧ ts.final = last.endAfter := by
  have hfind : tokens.find? Token.isError = none := by simpa using he
  unfold ofTokens
  split
  next t ht => cases hfind.symm.trans ht
  next =>
    split
    next hnone => cases hl.symm.trans hnone
    next last' hl' =>
      obtain rfl := Option.some.inj (hl.symm.trans hl')
      rw [dif_neg (by simp [hn])]
      exact ⟨_, rfl, rfl, rfl⟩

theorem TokenList.eq_iff {ts ts' : TokenList} :
    ts = ts' ↔ ts.front = ts'.front ∧ ts.final = ts'.final := by
  cases ts
  cases ts'
  simp

/-- A text that does not end in white space ends where its last token does. -/
theorem Tiles.final_eq {p : Position} {text : List Char} {front : List Token}
    {last final : Token} (h : Tiles p text (front ++ [last, final])) (hk : final.kind = .eof)
    (hend : ∀ c ∈ text.getLast?, isSpace c = false) :
    final = ⟨.eof, "", last.position.after last.text.toList⟩ := by
  generalize hts : front ++ [last, final] = ts at h
  induction h generalizing front with
  | last =>
    have hlen := congrArg List.length hts
    simp at hlen
  | @step p gap rest t ts _ hp _ _ h ih =>
    have hrest : ∀ c ∈ rest.getLast?, isSpace c = false := fun c hc => hend c (by
      rw [List.getLast?_append, hc]
      rfl)
    cases front with
    | cons t' front =>
      rw [List.cons_append, List.cons.injEq] at hts
      exact ih hrest hts.2
    | nil =>
      obtain ⟨rfl, rfl⟩ := List.cons.inj hts
      cases h with
      | step _ _ _ _ h => cases h
      | @last _ gap' rest' _ hgap hfinal he =>
        obtain ⟨_, htext, rfl⟩ := he.resolve_right fun herror => by cases hk.symm.trans herror.1
        rw [List.append_nil] at hrest
        have hnil : gap' = [] := by
          refine List.getLast?_eq_none_iff.mp (Option.eq_none_iff_forall_not_mem.mpr fun c hc => ?_)
          cases (hgap c (List.mem_of_getLast? hc)).symm.trans (hrest c hc)
        rw [hnil, Position.after_nil, Position.after_append, ← hp] at hfinal
        rw [← hk, ← htext, ← hfinal]

/-- Where a text does not end in white space, its tokens are loaded as the text is if the end of input
that they get is put where the last of them ends. -/
theorem Parser.ofTokens_eq_ofText_iff {tokens : List Token} {last final : Token} {text : String}
    (he : ∀ t ∈ tokens, t.isError = false) (hl : tokens.getLast? = some last)
    (hn : last.isEof = false) (htext : tokenize text = tokens ++ [final]) (hk : final.kind = .eof)
    (hend : ∀ c ∈ text.toList.getLast?, isSpace c = false) (options : Options) :
    ofTokens tokens options = ofText text options ↔
      last.endAfter.position = last.position.after last.text.toList := by
  have hf : final = ⟨.eof, "", last.position.after last.text.toList⟩ := by
    obtain ⟨front, rfl⟩ := List.getLast?_eq_some_iff.mp hl
    have htiles := tiles_tokenize text
    rw [htext, List.append_assoc] at htiles
    exact htiles.final_eq hk hend
  have heof : final.isEof = true := by rw [hf]; rfl
  obtain ⟨ts, ho, hfront, hfinal⟩ := TokenList.ofTokens_of_not_eof he hl hn
  obtain ⟨ts', ho', hfront', hfinal'⟩ := TokenList.ofTokens_of_eof he heof
  have hlists : ts = ts' ↔ last.endAfter = final := by
    rw [TokenList.eq_iff, hfront, hfront', hfinal, hfinal']
    exact and_iff_right rfl
  have hposition : last.endAfter = final ↔
      last.endAfter.position = last.position.after last.text.toList := by
    rw [hf]
    exact ⟨congrArg Token.position, congrArg (Token.mk TokenKind.eof "")⟩
  rw [ofText, htext, ofTokens, ofTokens, ho, ho', ← hposition, ← hlists]
  exact ⟨fun h => congrArg Parser.tokens (Except.ok.inj h), fun h => by rw [h]⟩

/-- Tokens that do not end with an end of input get one. It stands on the line of the last token, and
where the reading of that token ends exactly if the token ends on that line, in a column of 64 bits.
Tokens of a text that does not end in white space get the end of input that the text has exactly in
that case too. -/
theorem appended_end_iff {tokens : List Token} {last : Token}
    (he : ∀ t ∈ tokens, t.isError = false) (hl : tokens.getLast? = some last)
    (hn : last.isEof = false) :
    ∃ ts, TokenList.ofTokens tokens = .ok ts ∧
      ts.toList = tokens ++ [⟨.eof, "", ⟨last.position.line,
        (last.position.column + last.text.length) % wordBound⟩⟩] ∧
      (ts.final.position = last.position.after last.text.toList ↔ last.WithinLine) ∧
      ∀ text final, tokenize text = tokens ++ [final] → final.kind = .eof →
        (∀ c ∈ text.toList.getLast?, isSpace c = false) → ∀ options,
          (Parser.ofTokens tokens options = Parser.ofText text options ↔ last.WithinLine) := by
  obtain ⟨ts, ho, hfront, hfinal⟩ := TokenList.ofTokens_of_not_eof he hl hn
  have hiff := last.endAfter_position_iff
  refine ⟨ts, ho, ?_, hfinal ▸ hiff, fun text final htext hk hend options => ?_⟩
  · rw [TokenList.toList, hfront, hfinal]
    rfl
  · rw [← hiff]
    exact Parser.ofTokens_eq_ofText_iff he hl hn htext hk hend options

theorem appended_end_iff_of_one_line :
    let last : Token := ⟨.literal, "a", ⟨1, 8⟩⟩
    let tokens : List Token := [⟨.select, "SELECT", ⟨1, 1⟩⟩, last]
    (∀ t ∈ tokens, t.isError = false) ∧ tokens.getLast? = some last ∧ last.isEof = false ∧
      Parser.ofTokens tokens {} = Parser.ofText "SELECT a" {} := by
  intro last tokens
  have htext : tokenize "SELECT a" = tokens ++ [⟨.eof, "", ⟨1, 9⟩⟩] :=
    Lexer.toTokens_of_firstTokens 3 (by decide +kernel) (by decide)
  have hend : ∀ c ∈ "SELECT a".toList.getLast?, isSpace c = false := fun c hc => by
    have hc : 'a' = c := Option.some.inj hc
    rw [← hc]
    rfl
  have he : ∀ t ∈ tokens, t.isError = false := by decide
  have hl : tokens.getLast? = some last := rfl
  obtain ⟨_, _, _, _, h⟩ := appended_end_iff he hl rfl
  exact ⟨he, hl, rfl, (h _ _ htext rfl hend {}).mpr (by decide)⟩

/-- After a string of two lines, the end of input is put on the first. -/
theorem appended_end_of_two_lines :
    let last : Token := ⟨.string, "'a\nb'", ⟨1, 1⟩⟩
    tokenize "'a\nb'" = [last, ⟨.eof, "", last.position.after last.text.toList⟩] ∧
      last.position.after last.text.toList = ⟨2, 3⟩ ∧
      (∃ p, Parser.ofTokens [last] {} = .ok p ∧ p.tokens.toList = [last, ⟨.eof, "", ⟨1, 6⟩⟩]) ∧
      Parser.ofTokens [last] {} ≠ Parser.ofText "'a\nb'" {} := by
  intro last
  have htext : tokenize "'a\nb'" = [last, ⟨.eof, "", last.position.after last.text.toList⟩] :=
    Lexer.toTokens_of_firstTokens 2 (by decide +kernel) (by decide)
  refine ⟨htext, by decide, ⟨_, rfl, by decide⟩, fun h => ?_⟩
  rw [Parser.ofText, htext] at h
  have hp := congrArg (fun r => r.toOption.map (·.tokens.final.position)) h
  exact absurd hp (by decide)

end SqlSelect
