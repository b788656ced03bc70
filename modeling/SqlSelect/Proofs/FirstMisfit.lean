import SqlSelect.Proofs.Loading
import SqlSelect.Proofs.LocatingQuery
import SqlSelect.Proofs.LongestMatch
import SqlSelect.Proofs.Viable

namespace SqlSelect

open Phrase

/-- A parenthesis in which there is no expression, and a `NOT` after it. The tokens up to where the
parenthesis opens are viable. -/
def Overlooked (tokens : List Token) : Prop :=
  ∃ (front inside : List Token) (opening closing no : Token),
    tokens = front ++ opening :: (inside ++ [closing, no]) ∧
    Viable ((front ++ [opening]).map (·.kind)) ∧
    Parenthesized (opening :: (inside ++ [closing])) ∧
    no.kind = .not ∧ ¬Nonterminal.expression.Sentence inside

/-- A complaint about a token of a text is one of the parser's that all its tokens are given to. -/
theorem fault_of_parse {text : String} {options : Options} {message : String} {p : Position}
    (h : parse text options = .error (.grammatical message p)) :
    ∃ (ts : TokenList) (x : Fault), tokenize text = ts.toList ∧
      (Parser.mk ts options).complete = .error x ∧
      x.complaint.toError options.maxDepth (ts.token x.index) = .grammatical message p := by
  obtain ⟨front, final, htokens, -, ⟨-, he⟩ | ⟨-, ts, hfront, hfinal, hp⟩⟩ := tokenize_loads text
  · cases (he options).symm.trans h
  have hp := (hp options).symm.trans h
  unfold Parser.parse at hp
  split at hp
  next => cases hp
  next =>
    cases hc : (Parser.mk ts options).complete with
    | ok n =>
      rw [hc] at hp
      cases hp
    | error x =>
      rw [hc] at hp
      refine ⟨ts, x, ?_, hc, Except.error.inj hp⟩
      rw [htokens, TokenList.toList, hfront, hfinal]

theorem Complaint.toError_eq_grammatical {c : Complaint} {limit : Nat} {t : Token}
    {message : String} {position : Position}
    (h : c.toError limit t = .grammatical message position) :
    t.position = position ∧ c ≠ .tooDeep := by
  cases c with
  | tooDeep => cases h
  | _ => exact ⟨(ParseError.grammatical.inj h).2, nofun⟩

namespace TokenList

variable {ts : TokenList} {i j : Nat} {x : Fault}

theorem Located.index_lt_size (h : ts.Located acceptable 0 x) : x.index < ts.size := by
  rcases h with h | ⟨_, _, _, _, _, hnot, _, hi, _⟩
  · exact h.lt_size (by decide)
  · rw [hi]
    exact lt_size_of_kind (by simp [hnot])

theorem Overlooks.overlooked {opening : Nat} (hb : ts.Begins acceptable 0 (opening + 1))
    (h : ts.Overlooks opening x) : Overlooked (ts.slice 0 x.index) := by
  obtain ⟨_, close, hc, hnot, _, hi, hs⟩ := h
  have hlt : opening < close := closing_lt hc
  have hp := parenthesized_of_closing hc
  have hspan : ts.span opening close =
      ts.token opening :: (ts.slice (opening + 1) close ++ [ts.token close]) := by
    show ts.slice opening (close + 1) = _
    rw [slice_succ (by omega), slice_cons hlt, List.cons_append]
  refine ⟨ts.slice 0 opening, ts.slice (opening + 1) close, ts.token opening, ts.token close,
    ts.token (close + 1), ?_, ?_, hspan ▸ hp, hnot, ?_⟩
  · rw [hi, slice_succ (Nat.zero_le _), slice_succ (Nat.zero_le _),
      ← slice_append (Nat.zero_le opening) (by omega), slice_cons hlt]
    simp
  · rw [← slice_succ (Nat.zero_le opening)]
    exact hb.viable
  · rwa [sentence_slice (by omega)]

end TokenList

namespace Parser

variable {p : Parser} {x : Fault}

theorem complete_located (h : p.complete = .error x) (hx : x.Misfit) :
    p.tokens.Located acceptable 0 x := by
  have hn := nested_makes p.tokens p.options.maxDepth
  rcases bind_eq_error.mp h with h | ⟨query, hq, h⟩
  · exact (Rule.query_locates hn (nested_locates _ _) 0 x h hx).mul
  have hs := (Rule.query_greedy hn 0 query hq).spells
  split at h
  next => cases h
  next =>
    cases h
    refine .inl (TokenList.Spells.begins (.seq hs ?_))
    show p.tokens.Spells _ _ (queryEnd p.tokens query.last)
    unfold queryEnd
    split
    next hk => exact .take (TokenList.spells_kind.mpr ⟨hk, rfl⟩)
    next => exact .skip

end Parser

/-- Where no parenthesis is left open, the tokens before the one that is complained about are
viable; but what comes after a parenthesis and a `NOT` may be complained about before the
parenthesis is read. -/
theorem parse_grammatical_viable {text : String} {options : Options} {message : String}
    {p : Position} (h : parse text options = .error (.grammatical message p))
    (hm : message ≠ "unmatched parenthesis: '(' is never closed") :
    ∃ k t, (tokenize text)[k]? = some t ∧ t.position = p ∧
      (∀ l t', (tokenize text)[l]? = some t' → t'.position = p → l = k) ∧
      (Viable (((tokenize text).take k).map (·.kind)) ∨
        Overlooked ((tokenize text).take k) ∧ t.kind.isNegatable = false ∧
          message = s!"expected LIKE, BETWEEN or IN after NOT, found {t.describe}") := by
  obtain ⟨ts, x, htokens, hc, hx⟩ := fault_of_parse h
  obtain ⟨rfl, hdeep⟩ := Complaint.toError_eq_grammatical hx
  have hunclosed : x.complaint ≠ .unclosed := fun hu => by
    rw [hu] at hx
    exact hm (ParseError.grammatical.inj hx).1.symm
  have hl : ts.Located acceptable 0 x := Parser.complete_located hc ⟨hunclosed, hdeep⟩
  have hlt := hl.index_lt_size
  have htoken : (tokenize text)[x.index]? = some (ts.token x.index) :=
    htokens ▸ TokenList.getElem?_toList hlt
  have hs : (Lexer.ofText text).Settled := ⟨rfl, rfl⟩
  refine ⟨x.index, ts.token x.index, htoken, rfl,
    fun l t' ht hp => hs.toTokens_tiles.index_eq htoken ht hp, ?_⟩
  rw [htokens, TokenList.take_toList (Nat.le_of_lt hlt)]
  rcases hl with hb | ⟨opening, hb, ho⟩
  · exact .inl hb.viable
  · refine .inr ⟨ho.overlooked hb, ?_, ?_⟩
    · obtain ⟨_, _, _, _, hk, hi, _⟩ := ho
      rw [hi]
      exact hk
    · rw [ho.1] at hx
      exact (ParseError.grammatical.inj hx).1.symm

theorem parse_grammatical_viable_of_missing_field :
    let text := "SELECT a,\n  FROM t"
    let message := "expected an operand, found 'FROM'"
    parse text {} = .error (.grammatical message ⟨2, 3⟩) ∧
      message ≠ "unmatched parenthesis: '(' is never closed" ∧
      ∃ k t, (tokenize text)[k]? = some t ∧ t.position = ⟨2, 3⟩ ∧
        (∀ l t', (tokenize text)[l]? = some t' → t'.position = ⟨2, 3⟩ → l = k) ∧
        (Viable (((tokenize text).take k).map (·.kind)) ∨
          Overlooked ((tokenize text).take k) ∧ t.kind.isNegatable = false ∧
            message = s!"expected LIKE, BETWEEN or IN after NOT, found {t.describe}") := by
  intro text message
  let ts : TokenList := ⟨#[⟨.select, "SELECT", ⟨1, 1⟩⟩, ⟨.literal, "a", ⟨1, 8⟩⟩,
    ⟨.comma, ",", ⟨1, 9⟩⟩, ⟨.from, "FROM", ⟨2, 3⟩⟩, ⟨.literal, "t", ⟨2, 8⟩⟩],
    ⟨.eof, "", ⟨2, 9⟩⟩, rfl, by decide⟩
  have htokens : tokenize text = ts.toList :=
    Lexer.toTokens_of_firstTokens 6 (by decide +kernel) (by decide)
  have h : parse text {} = .error (.grammatical message ⟨2, 3⟩) := by
    rw [parse, Parser.ofText, htokens]
    rfl
  have hm : message ≠ "unmatched parenthesis: '(' is never closed" := by decide
  exact ⟨h, hm, parse_grammatical_viable h hm⟩

/-- A token after an empty parenthesis is complained about, though nothing acceptable begins with
the tokens before it. -/
theorem parse_past_empty_parenthesis :
    let text := "SELECT a FROM t WHERE () NOT 5"
    let message := "expected LIKE, BETWEEN or IN after NOT, found '5'"
    parse text {} = .error (.grammatical message ⟨1, 30⟩) ∧
      message ≠ "unmatched parenthesis: '(' is never closed" ∧
      (tokenize text)[8]?.map (·.position) = some ⟨1, 30⟩ ∧
      ¬Viable (((tokenize text).take 8).map (·.kind)) := by
  intro text message
  let ts : TokenList := ⟨#[⟨.select, "SELECT", ⟨1, 1⟩⟩, ⟨.literal, "a", ⟨1, 8⟩⟩,
    ⟨.from, "FROM", ⟨1, 10⟩⟩, ⟨.literal, "t", ⟨1, 15⟩⟩, ⟨.where, "WHERE", ⟨1, 17⟩⟩,
    ⟨.leftParen, "(", ⟨1, 23⟩⟩, ⟨.rightParen, ")", ⟨1, 24⟩⟩, ⟨.not, "NOT", ⟨1, 26⟩⟩,
    ⟨.number, "5", ⟨1, 30⟩⟩], ⟨.eof, "", ⟨1, 31⟩⟩, rfl, by decide⟩
  have htokens : tokenize text = ts.toList :=
    Lexer.toTokens_of_firstTokens 10 (by decide +kernel) (by decide)
  have h : parse text {} = .error (.grammatical message ⟨1, 30⟩) := by
    rw [parse, Parser.ofText, htokens]
    rfl
  refine ⟨h, by decide, by rw [htokens]; rfl, fun hv => ?_⟩
  rw [htokens] at hv
  have ho : ((ts.toList.take 8).map (·.kind))[5]? = some .leftParen := rfl
  exact hv.getElem?_succ_ne ho rfl

end SqlSelect
