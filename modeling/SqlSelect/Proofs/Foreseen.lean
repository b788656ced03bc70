import SqlSelect.Proofs.EndPosition
import SqlSelect.Proofs.Grounds
import SqlSelect.Proofs.NormalForm
import SqlSelect.Proofs.Spacing
import SqlSelect.Proofs.TokenShape

namespace SqlSelect

/-- The words that make a keyword with the word for a join. -/
def joinOpenings : List String := ["inner", "outer", "left", "right"]

section

variable {text w rest gap : List Char} {k : TokenKind} {m : Match} {n : Nat}

theorem function?_of_word? (hk : m.kind.isFunction = true) (h : word? text = some m) :
    function? text = some m := by
  rcases word?_cases h with h | h | h
  · have hkeyword : ∀ v ∈ keywords, v.2.isFunction = false := by decide
    obtain ⟨v, hv, h⟩ := List.exists_of_findSome?_eq_some h
    simp [matchWord_kind h, hkeyword v hv] at hk
  · have hcompound : ∀ v ∈ compounds, v.kind.isFunction = false := by decide
    obtain ⟨v, hv, h⟩ := List.exists_of_findSome?_eq_some h
    simp [matchCompound_kind h, hcompound v hv] at hk
  · exact h

/-- A function name is a word, and is read as such only before a parenthesis. -/
theorem call_of_scan (hk : k.isFunction = true) (h : scan (w ++ rest) = .token w.length k) :
    (∀ c ∈ w, isWordChar c = true) ∧ ∃ after, rest = '(' :: after := by
  cases shape_of_scan h with
  | worded hm =>
    obtain ⟨hw, hopens, _⟩ := function?_parts (function?_of_word? hk hm)
    exact ⟨hw, eq_cons_of_opensCall hopens⟩
  | symbol hm =>
    have hsymbol : ∀ v ∈ symbols, v.2.isFunction = false := by decide
    simp [hsymbol _ hm] at hk
  | _ => cases hk

/-- The keyword for a join is read only where it is a whole word. -/
theorem keywordAt_of_join (h : scan text = .token n .join) : KeywordAt text .join := by
  obtain ⟨w, rest, rfl, -, hshape⟩ := exists_shape_of_scan h
  generalize hk : TokenKind.join = k at hshape
  cases hshape with
  | worded hm =>
    subst hk
    rcases word?_eq_some_iff.mp hm with ⟨hkeyword, _⟩ | ⟨⟨v, hv, hkind, _⟩, _⟩ | ⟨hfunction, _⟩
    · exact hkeyword
    · have hne : ∀ v ∈ compounds, v.kind ≠ .join := by decide
      exact (hne v hv hkind).elim
    · have hne : ∀ v ∈ functions, v.2 ≠ .join := by decide
      exact (hne _ hfunction.1 rfl).elim
  | symbol hm =>
    have hne : ∀ v ∈ symbols, v.2 ≠ .join := by decide
    exact (hne _ hm hk.symm).elim
  | _ => cases hk

/-- A word that makes a keyword with the next one is not read by itself. -/
theorem not_keywordAt_join (hg : ∀ d ∈ gap, isSpace d = true) (hw : lowered w ∈ joinOpenings)
    (h : scan (w ++ (gap ++ text)) = .token w.length .literal) : ¬KeywordAt text .join := by
  rintro ⟨hkeyword, hend⟩
  have hjoin : ∀ v ∈ keywords, v.2 = .join → v.1 = "join" := by decide
  have hspelling : spelling text = "join" := hjoin _ hkeyword rfl
  have hopening : ∀ v ∈ joinOpenings, headIs isWordStart v.toList = true ∧
      (compoundOf? v "join").isSome = true := by decide
  obtain ⟨hstart, hcompound⟩ := hopening _ hw
  rw [lowered, String.toList_ofList, headIs_lower isWordStart_caseBlind] at hstart
  obtain ⟨c, w, rfl, hc⟩ := eq_cons_of_headIs hstart
  have hword : headIs isWordChar text = true := by
    refine (frontWidth_pos_iff (p := isWordChar)).mp ?_
    rw [frontWidth, ← frontWord, ← length_spelling, hspelling]
    decide
  have hinked : headIs isSpace text = false := by
    obtain ⟨d, text, rfl, hd⟩ := eq_cons_of_headIs hword
    refine Bool.eq_false_iff.mpr fun hs => ?_
    cases hd.symm.trans (isWordChar_of_isSpace hs)
  obtain ⟨hn, hbare, hafter⟩ := scan_bare_parts hc h
  have hgap : gap ≠ [] := by
    rintro rfl
    cases hword.symm.trans hafter
  have hnone := (word?_eq_none.mp hn).2.1
  rw [compound?_gap hbare hg hgap hinked, if_pos hend, hspelling, Option.map_eq_none_iff] at hnone
  rw [hnone] at hcompound
  cases hcompound

end

/-- One token, the white space after it and the next token, which is what is read of `rest`. -/
structure Successive (t : Token) (gap rest : List Char) (u : Token) : Prop where
  blank : ∀ c ∈ gap, isSpace c = true
  read : scan (t.text.toList ++ (gap ++ rest)) = .token t.text.toList.length t.kind
  next : u = (scan rest).tokenAt rest (t.position.after (t.text.toList ++ gap))

namespace Successive

variable {t u : Token} {gap rest : List Char}

/-- After a function name comes the parenthesis of its call, right where the name ends. -/
theorem call (h : Successive t gap rest u) (hk : t.kind.isFunction = true) :
    u = ⟨.leftParen, "(", ⟨t.position.line, t.position.column + t.text.length⟩⟩ := by
  obtain ⟨hg, hread, rfl⟩ := h
  obtain ⟨hw, after, hafter⟩ := call_of_scan hk hread
  obtain ⟨rfl, rfl⟩ : gap = [] ∧ rest = '(' :: after := by
    cases gap with
    | nil => exact ⟨rfl, hafter⟩
    | cons c gap =>
      obtain rfl := (List.cons.inj hafter).1
      have hspace := hg '(' List.mem_cons_self
      exact absurd hspace (by decide)
  have hline : '\n' ∉ t.text.toList := fun hn => by
    have hword := hw _ hn
    exact absurd hword (by decide)
  have hscan : scan ('(' :: after) = .token 1 .leftParen := rfl
  rw [hscan, List.append_nil, Position.after_of_one_line _ hline, String.length_toList]
  rfl

/-- After a word that makes a keyword with the next one, the next one is not read by itself. -/
theorem not_join (h : Successive t gap rest u) (hk : t.kind = .literal)
    (ht : lowered t.text.toList ∈ joinOpenings) : u.kind ≠ .join := by
  obtain ⟨hg, hread, rfl⟩ := h
  rw [hk] at hread
  intro hjoin
  exact not_keywordAt_join hg ht hread (keywordAt_of_join (Reading.eq_token_of_tokenAt nofun hjoin))

end Successive

namespace Lexer

variable {lx : Lexer} {t : Token} {i : Nat}

theorem Settled.successive_nextToken (h : lx.Settled)
    (hk : ¬lx.nextToken.1.kind.isTerminal = true) : ∃ gap rest,
      Successive lx.nextToken.1 gap rest lx.nextToken.2.nextToken.1 := by
  obtain ⟨_, hread, _, hsettled⟩ := h.nextToken_lexeme hk
  obtain ⟨gap, rest, _, _, hp, hends | ⟨_, _, _, _, hpos⟩⟩ := h.nextToken_cases
  · exact (hk hends.isTerminal).elim
  · refine ⟨lx.nextToken.2.rest.takeWhile isSpace, lx.nextToken.2.rest.dropWhile isSpace,
      List.all_eq_true.mp List.all_takeWhile, ?_, ?_⟩
    · rw [List.takeWhile_append_dropWhile]
      exact hread
    · rw [hsettled.nextToken_eq, hpos, hp, Position.after_append, Position.after_append]

theorem head?_toTokens (lx : Lexer) : lx.toTokens.head? = some lx.nextToken.1 := by
  by_cases hk : lx.nextToken.1.kind.isTerminal = true
  · rw [toTokens_of_terminal hk, List.head?_cons]
  · rw [toTokens_of_not_terminal hk, List.head?_cons]

/-- Every token but the last has one after it. -/
theorem Settled.successive (h : lx.Settled) (ht : lx.toTokens[i]? = some t)
    (hk : t.kind.isTerminal = false) :
    ∃ u gap rest, lx.toTokens[i + 1]? = some u ∧ Successive t gap rest u := by
  induction i generalizing lx with
  | zero =>
    rw [← List.head?_eq_getElem?, head?_toTokens] at ht
    cases Option.some.inj ht
    have hk := Bool.eq_false_iff.mp hk
    obtain ⟨gap, rest, hs⟩ := h.successive_nextToken hk
    refine ⟨_, gap, rest, ?_, hs⟩
    rw [toTokens_of_not_terminal hk, List.getElem?_cons_succ, ← List.head?_eq_getElem?,
      head?_toTokens]
  | succ i ih =>
    by_cases hn : lx.nextToken.1.kind.isTerminal = true
    · rw [toTokens_of_terminal hn] at ht
      cases ht
    · rw [toTokens_of_not_terminal hn, List.getElem?_cons_succ] at ht ⊢
      exact ih (h.nextToken_lexeme hn).2.2.2 ht

end Lexer

theorem exists_successive {text : String} {i : Nat} {t : Token} (ht : (tokenize text)[i]? = some t)
    (hk : t.kind.isTerminal = false) :
    ∃ u gap rest, (tokenize text)[i + 1]? = some u ∧ Successive t gap rest u := by
  have hs : (Lexer.ofText text).Settled := ⟨rfl, rfl⟩
  exact hs.successive ht hk

theorem not_terminal_of_isFunction {k : TokenKind} (hk : k.isFunction = true) :
    k.isTerminal = false := by
  cases k <;> first | rfl | cases hk

/-- An alias ends with its name. -/
theorem Node.LaidOut.kind_last_of_alias {ts : TokenList} {n : Node} (h : n.LaidOut ts)
    (hk : n.kind = .alias) : ts.kind n.last = .literal := by
  rw [Node.LaidOut, hk] at h
  obtain ⟨u, _, hname⟩ := Form.spans_mul.mp h
  obtain ⟨hliteral, hend⟩ := Form.spans_one.mp hname
  have hlast : n.last = u.index := Nat.succ.inj (congrArg Place.index hend)
  rw [hlast]
  exact List.mem_singleton.mp hliteral

namespace Parser

variable {text : String} {options : Options} {p : Parser} {i : Nat}

/-- What a text is loaded as has the tokens of the text, one after the other. -/
theorem exists_successive_of_ofText (hp : ofText text options = .ok p)
    (hk : (p.tokens.kind i).isTerminal = false) :
    ∃ gap rest, Successive (p.tokens.token i) gap rest (p.tokens.token (i + 1)) := by
  have heof : p.tokens.kind i ≠ .eof := fun he => by
    rw [he] at hk
    cases hk
  have hsize := TokenList.lt_size_of_kind heof
  have ht : p.tokens.toList[i]? = some (p.tokens.token i) := TokenList.getElem?_toList (by omega)
  rw [toList_of_ofText hp] at ht
  obtain ⟨u, gap, rest, hu, hs⟩ := exists_successive ht hk
  rw [← toList_of_ofText hp, TokenList.getElem?_toList hsize] at hu
  cases Option.some.inj hu
  exact ⟨gap, rest, hs⟩

/-- No error of a text is that a function name is not called. -/
theorem not_uncalled_of_ofText (hp : ofText text options = .ok p) {α : Type} {r : Except Fault α}
    {f : Fault} (hr : p.tokens.Grounds r) (hf : r = .error f) :
    f.complaint ≠ .expected (.kind .leftParen) := by
  intro hc
  obtain ⟨hmissed, name, hindex, hname⟩ := (hr f hf).uncalled hc
  obtain ⟨gap, rest, hs⟩ := exists_successive_of_ofText hp (not_terminal_of_isFunction hname)
  refine hmissed ?_
  rw [hindex, TokenList.kind, hs.call hname]

/-- All nodes of a tree are laid out, unless it is a parenthesis that stands by itself. -/
theorem laidOut_of_tree {t : Tree}
    (ht : (∃ part start, p.run part start = .ok t) ∨ p.parse = .ok t) : t.source = p.tokens ∧
      ((∃ first last, t.root = .leaf .parenthesis first last) ∨
        ∀ n ∈ t.root.preorder, n.LaidOut p.tokens) := by
  obtain ⟨hs, part, start, hn⟩ := exists_run_of_tree ht
  refine ⟨hs, ?_⟩
  by_cases hp : part = .parenthesis
  · subst hp
    obtain ⟨close, _, he⟩ := bind_eq_ok.mp hn
    exact .inl ⟨start, close, (Except.ok.inj he).symm⟩
  · have hf := part.run_makes hp p.tokens p.options.maxDepth _ _ hn
    obtain ⟨_, _, _, hall⟩ := Stretch.Fits.role_iff.mp hf
    exact .inr (Node.forall_preorder_iff.mpr hall)

end Parser

/-- What is looked ahead for is what is read next. Every function name has an opening parenthesis
after it, right where it ends; so no production misses one there. No bare word that makes a keyword
with the word for a join has that word after it; so no alias of a tree has. -/
theorem tokenize_foreseen (text : String) :
    (∀ i t, (tokenize text)[i]? = some t → t.kind.isFunction = true → (tokenize text)[i + 1]? =
      some ⟨.leftParen, "(", ⟨t.position.line, t.position.column + t.text.length⟩⟩) ∧
    (∀ i t u, (tokenize text)[i]? = some t → (tokenize text)[i + 1]? = some u →
      t.kind = .literal → lowered t.text.toList ∈ joinOpenings → u.kind ≠ .join) ∧
    ∀ options p, Parser.ofText text options = .ok p →
      (∀ f : Fault, (∃ (part : Production) (depth start : Nat),
          part.run p.tokens depth start = .error f) ∨ p.complete = .error f →
        f.complaint ≠ .expected (.kind .leftParen)) ∧
      ∀ t, (∃ part start, p.run part start = .ok t) ∨ p.parse = .ok t → ∀ n ∈ t.root.preorder,
        n.kind = .alias → lowered (t.source.token n.last).text.toList ∈ joinOpenings →
          t.source.kind (n.last + 1) ≠ .join := by
  refine ⟨fun i t ht hk => ?_, fun i t u ht hu hk hw => ?_, fun options p hp => ⟨?_, ?_⟩⟩
  · obtain ⟨u, gap, rest, hu, hs⟩ := exists_successive ht (not_terminal_of_isFunction hk)
    rw [hu, hs.call hk]
  · obtain ⟨u', gap, rest, hu', hs⟩ := exists_successive ht (by rw [hk]; rfl)
    cases hu.symm.trans hu'
    exact hs.not_join hk hw
  · rintro f (⟨part, depth, start, hf⟩ | hf)
    · exact Parser.not_uncalled_of_ofText hp (part.run_grounds p.tokens depth start) hf
    · exact Parser.not_uncalled_of_ofText hp p.complete_grounds hf
  · intro t ht n hn hk hw
    obtain ⟨hsource, hnodes⟩ := Parser.laidOut_of_tree ht
    rw [hsource] at hw ⊢
    have hname : p.tokens.kind n.last = .literal := by
      rcases hnodes with ⟨first, last, hroot⟩ | hl
      · rw [hroot] at hn
        cases List.mem_singleton.mp hn
        cases hk
      · exact (hl n hn).kind_last_of_alias hk
    obtain ⟨gap, rest, hs⟩ := Parser.exists_successive_of_ofText hp (by rw [hname]; rfl)
    exact hs.not_join hname hw

theorem tokenize_foreseen_of_call_and_alias :
    let text := "SELECT Count(a) Left FROM t"
    let tokens : List Token := [⟨.select, "SELECT", ⟨1, 1⟩⟩, ⟨.count, "Count", ⟨1, 8⟩⟩,
      ⟨.leftParen, "(", ⟨1, 13⟩⟩, ⟨.literal, "a", ⟨1, 14⟩⟩, ⟨.rightParen, ")", ⟨1, 15⟩⟩,
      ⟨.literal, "Left", ⟨1, 17⟩⟩, ⟨.from, "FROM", ⟨1, 22⟩⟩, ⟨.literal, "t", ⟨1, 27⟩⟩]
    let p : Parser := ⟨⟨tokens.toArray, ⟨.eof, "", ⟨1, 28⟩⟩, rfl, by decide⟩, {}⟩
    tokenize text = tokens ++ [⟨.eof, "", ⟨1, 28⟩⟩] ∧ Parser.ofText text {} = .ok p ∧
      (tokenize text)[2]? = some ⟨.leftParen, "(", ⟨1, 8 + "Count".length⟩⟩ ∧
      TokenKind.from ≠ .join ∧ ∃ t f, p.run .select 0 = .ok t ∧
        .leaf .alias 5 5 ∈ t.root.preorder ∧ t.source.kind 6 ≠ .join ∧
        Production.function.run p.tokens 1 0 = .error f ∧
          f.complaint ≠ .expected (.kind .leftParen) := by
  intro text tokens p
  have htokens : tokenize text = tokens ++ [⟨.eof, "", ⟨1, 28⟩⟩] :=
    Lexer.toTokens_of_firstTokens 9 (by decide +kernel) (by decide)
  have hp : Parser.ofText text {} = .ok p := by
    rw [Parser.ofText, htokens]
    rfl
  obtain ⟨hcalls, hjoins, hparts⟩ := tokenize_foreseen text
  obtain ⟨hfaults, haliases⟩ := hparts {} p hp
  have hat (i : Nat) : (tokenize text)[i]? = (tokens ++ [⟨.eof, "", ⟨1, 28⟩⟩])[i]? := by
    rw [htokens]
  refine ⟨htokens, hp, hcalls 1 _ (hat 1) rfl, hjoins 5 _ _ (hat 5) (hat 6) rfl (by decide), ?_⟩
  have ht : p.run .select 0 = .ok ⟨p.tokens, ⟨.select, 0, 5, [⟨.field, 1, 5,
      [⟨.expression, 1, 4, [⟨.function, 1, 4, [⟨.expression, 3, 3, [.leaf .operand 3 3]⟩]⟩]⟩,
       .leaf .alias 5 5]⟩]⟩⟩ := rfl
  have halias := haliases _ (.inl ⟨_, _, ht⟩) (.leaf .alias 5 5) (by decide) rfl (by decide)
  have hf : Production.function.run p.tokens 1 0 = .error ⟨.expected .functionName, 0⟩ := rfl
  exact ⟨_, _, ht, by decide, halias, hf, hfaults _ (.inl ⟨_, _, _, hf⟩)⟩

end SqlSelect
