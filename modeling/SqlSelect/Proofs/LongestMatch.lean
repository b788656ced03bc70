import SqlSelect.Proofs.GreedyQuery
import SqlSelect.Proofs.IndexSafety

namespace SqlSelect

/-- As many parentheses close among some tokens as open. -/
def Balanced (tokens : List Token) : Prop :=
  tokens.countP (·.kind == .leftParen) = tokens.countP (·.kind == .rightParen)

/-- A parenthesis and the tokens up to the one that closes it, where for the first time as many
have closed as have opened. -/
structure Parenthesized (tokens : List Token) : Prop where
  opens : tokens.head?.map (·.kind) = some .leftParen
  balanced : Balanced tokens
  least (m : Nat) : 0 < m → m < tokens.length → ¬Balanced (tokens.take m)

namespace TokenList

variable {ts : TokenList} {bound i j m c start inner : Nat} {outer : List Nat}

/-- The number of tokens of a kind from `i` up to `j`, without the one at `j`. -/
def count (ts : TokenList) (k : TokenKind) (i j : Nat) : Nat :=
  (ts.slice i j).countP (·.kind == k)

theorem count_self (k : TokenKind) : ts.count k i i = 0 := by
  rw [count, slice_of_le (Nat.le_refl i), List.countP_nil]

theorem count_step (k : TokenKind) (h : i < j) :
    ts.count k i j = ts.count k (i + 1) j + if ts.kind i = k then 1 else 0 := by
  rw [count, slice_cons h, List.countP_cons]
  simp only [beq_iff_eq]
  rfl

/-- Where `opened` parentheses are open before `i` and one around them, that one closes at `c`: no
sooner have as many closed. -/
structure Closes (ts : TokenList) (opened i c : Nat) : Prop where
  first_le : i ≤ c
  count_eq : ts.count .rightParen i (c + 1) = ts.count .leftParen i (c + 1) + opened + 1
  count_le (m : Nat) : i ≤ m → m ≤ c →
    ts.count .rightParen i m ≤ ts.count .leftParen i m + opened

namespace Closes

theorem here (hk : ts.kind i = .rightParen) : ts.Closes 0 i i := by
  refine ⟨Nat.le_refl i, ?_, fun m hi hm => ?_⟩
  · rw [count_step _ (Nat.lt_succ_self i), count_step _ (Nat.lt_succ_self i), count_self,
      count_self]
    simp [hk]
  · rw [Nat.le_antisymm hm hi, count_self]
    exact Nat.zero_le _

/-- One token more may open a parenthesis or close one. -/
theorem step {before after : Nat} (h : ts.Closes after (i + 1) c)
    (ho : before + (if ts.kind i = .leftParen then 1 else 0) =
      after + if ts.kind i = .rightParen then 1 else 0) : ts.Closes before i c := by
  have hle := h.first_le
  refine ⟨by omega, ?_, fun m hi hm => ?_⟩
  · have := h.count_eq
    rw [count_step _ (show i < c + 1 by omega), count_step _ (show i < c + 1 by omega)]
    omega
  · rcases Nat.lt_or_eq_of_le hi with hlt | rfl
    · have := h.count_le m hlt hm
      rw [count_step _ hlt, count_step _ hlt]
      omega
    · rw [count_self]
      exact Nat.zero_le _

end Closes

theorem closes_of_closeFrom (h : closeFrom ts bound i inner outer = .ok c) :
    ts.Closes outer.length i c := by
  induction bound generalizing i inner outer with
  | zero => cases h
  | succ bound ih =>
    unfold closeFrom at h
    split at h
    next hk => exact (ih h).step (by simp [hk])
    next hk =>
      split at h
      next =>
        cases h
        exact .here hk
      next => exact (ih h).step (by simp [hk])
    next => cases h
    next ho hc _ => exact (ih h).step (by rw [if_neg ho, if_neg hc])

/-- The parenthesis that closes another is found by counting. -/
theorem parenthesized_of_closing (h : closing ts start = .ok c) :
    Parenthesized (ts.span start c) := by
  have ho := (closing_kinds h).1
  unfold closing at h
  rw [if_pos ho] at h
  have hc : ts.Closes 0 (start + 1) c := closes_of_closeFrom h
  have hlt := hc.first_le
  have hstep (j : Nat) (hj : start < j) :
      ts.count .leftParen start j = ts.count .leftParen (start + 1) j + 1 ∧
        ts.count .rightParen start j = ts.count .rightParen (start + 1) j := by
    rw [count_step _ hj, count_step _ hj]
    simp [ho]
  have hlen : (ts.span start c).length = c + 1 - start := by simp [span]
  refine ⟨?_, ?_, fun m hm hl => ?_⟩
  · show (ts.slice start (c + 1)).head?.map _ = _
    rw [slice_cons (by omega)]
    exact congrArg some ho
  · have := hc.count_eq
    show ts.count .leftParen start (c + 1) = ts.count .rightParen start (c + 1)
    have := hstep (c + 1) (by omega)
    omega
  · have := hc.count_le (start + m) (by omega) (by omega)
    have := hstep (start + m) (by omega)
    have ht : (ts.span start c).take m = ts.slice start (start + m) := take_slice (by omega)
    rw [ht]
    show ¬ts.count .leftParen start (start + m) = ts.count .rightParen start (start + m)
    omega

/-- From an index on there are not two parentheses, one longer than the other. -/
theorem le_of_parenthesized {last : Nat} (hle : start ≤ c) (hc : Parenthesized (ts.span start c))
    (hl : Parenthesized (ts.span start last)) : last ≤ c := by
  refine Nat.le_of_not_lt fun hlt => ?_
  have hlen : (ts.span start last).length = last + 1 - start := by simp [span]
  have ht : (ts.span start last).take (c + 1 - start) = ts.span start c := by
    show (ts.slice start (last + 1)).take _ = ts.slice start (c + 1)
    rw [take_slice (by omega), show start + (c + 1 - start) = c + 1 by omega]
  exact hl.least (c + 1 - start) (by omega) (by omega) (ht ▸ hc.balanced)

end TokenList

/-- The rule of the grammar that a production is for. A lone parenthesis has none. -/
def Production.nonterminal? : Production → Option Nonterminal
  | .query => some .query
  | .selectQuery => some .selectQuery
  | .select => some .select
  | .field => some .field
  | .from => some .from
  | .source => some .source
  | .join => some .join
  | .where => some .where
  | .having => some .having
  | .condition => some .condition
  | .expression => some .expression
  | .function => some .function
  | .parenthesis => none
  | .groupBy => some .groupBy
  | .orderBy => some .orderBy
  | .limit => some .limit

/-- The token lists that a production is for. -/
def Production.Describes (part : Production) (tokens : List Token) : Prop :=
  match part.nonterminal? with
  | some n => n.Sentence tokens
  | none => Parenthesized tokens

namespace Production

variable {ts : TokenList} {part : Production} {depth start : Nat} {n : Node}

theorem run_greedy {x : Nonterminal} (hx : part.nonterminal? = some x) (ts : TokenList)
    (depth : Nat) : Rule.Greedy ts (.part x) (part.run ts depth) := by
  have hn := nested_makes ts depth
  cases part with
  | query => cases hx; exact Rule.query_greedy hn
  | selectQuery => cases hx; exact Rule.selectQuery_greedy hn
  | select => cases hx; exact Rule.selectClause_greedy hn
  | field => cases hx; exact Rule.field_greedy hn
  | «from» => cases hx; exact Rule.fromClause_greedy hn
  | source => cases hx; exact Rule.source_greedy hn
  | join => cases hx; exact Rule.joinClause_greedy hn
  | «where» => cases hx; exact Rule.Greedy.part (Rule.conditionClause_greedy hn)
  | having => cases hx; exact Rule.Greedy.part (Rule.conditionClause_greedy hn)
  | condition => cases hx; exact Rule.condition_greedy hn
  | expression => cases hx; exact Rule.expression_greedy hn
  | function => cases hx; exact Rule.function_greedy hn
  | parenthesis => cases hx
  | groupBy => cases hx; exact Rule.Greedy.part Rule.columnsClause_greedy
  | orderBy => cases hx; exact Rule.Greedy.part Rule.columnsClause_greedy
  | limit => cases hx; exact Rule.limitClause_greedy

/-- What a production finds begins where it is to begin, and of all runs of tokens from there that
the production is for it covers the longest. -/
theorem run_describes (h : part.run ts depth start = .ok n) :
    n.first = start ∧ part.Describes (ts.span start n.last) ∧
      ∀ last, part.Describes (ts.span start last) → last ≤ n.last := by
  have hle : start ≤ n.last := ((part.run_tracked ts depth start).holds h).le
  have hslice (last : Nat) : ts.span start last = ts.slice start (last + 1) := rfl
  refine ⟨(run_first_le h).1, ?_⟩
  unfold Describes
  split
  next x hx =>
    have hl := run_greedy hx ts depth start n h
    rw [hslice, TokenList.sentence_slice (by omega)]
    refine ⟨hl.spells, fun last hs => ?_⟩
    by_cases hlast : start ≤ last + 1
    · have := hl.le ((TokenList.sentence_slice hlast).mp hs)
      omega
    · omega
  next hx =>
    obtain rfl : part = .parenthesis := by cases part <;> first | rfl | cases hx
    obtain ⟨close, hc, h⟩ := bind_eq_ok.mp h
    cases h
    have hp := TokenList.parenthesized_of_closing hc
    exact ⟨hp, fun last hs => TokenList.le_of_parenthesized hle hp hs⟩

end Production

namespace Parser

/-- What is found begins where it is to begin, and is the longest of the runs of tokens from there
that are what is looked for. So is the query that a token list begins with, whatever comes after. -/
theorem run_longest (p : Parser) :
    (∀ part start t, p.run part start = .ok t →
      t.root.first = start ∧ part.Describes (t.root.tokens t.source) ∧
        ∀ last, part.Describes (p.tokens.span start last) → last ≤ t.root.last) ∧
    ∀ t, p.parse = .ok t →
      t.root.first = 0 ∧ Nonterminal.query.Sentence (t.root.tokens t.source) ∧
        ∀ last, Nonterminal.query.Sentence (p.tokens.span 0 last) → last ≤ t.root.last := by
  have hfound {part : Production} {start : Nat} {n : Node}
      (h : part.run p.tokens p.options.maxDepth start = .ok n) :
      n.first = start ∧ part.Describes (n.tokens p.tokens) ∧
        ∀ last, part.Describes (p.tokens.span start last) → last ≤ n.last := by
    obtain ⟨hf, hd, hl⟩ := Production.run_describes h
    exact ⟨hf, by rwa [Node.tokens, hf], hl⟩
  refine ⟨fun part start t h => ?_, fun t h => ?_⟩
  · obtain ⟨hs, hn⟩ := run_eq_ok.mp h
    rw [hs]
    exact hfound hn
  · obtain ⟨_, hs, hc⟩ := parse_eq_ok.mp h
    rw [hs]
    exact hfound (complete_eq_ok.mp hc).1

theorem run_longest_of_dotted_name :
    let p : Parser := ⟨⟨#[⟨.select, "SELECT", ⟨1, 1⟩⟩, ⟨.literal, "a", ⟨1, 8⟩⟩,
      ⟨.from, "FROM", ⟨1, 10⟩⟩, ⟨.literal, "t", ⟨1, 15⟩⟩, ⟨.dot, ".", ⟨1, 16⟩⟩,
      ⟨.leftParen, "(", ⟨1, 17⟩⟩, ⟨.rightParen, ")", ⟨1, 18⟩⟩, ⟨.leftParen, "(", ⟨1, 19⟩⟩,
      ⟨.rightParen, ")", ⟨1, 20⟩⟩], ⟨.eof, "", ⟨1, 21⟩⟩, rfl, by decide⟩, ⟨1, true⟩⟩
    (∃ t, p.run .parenthesis 5 = .ok t ∧ t.root.last = 6 ∧
      Parenthesized (t.root.tokens t.source) ∧
      ∀ last, Parenthesized (p.tokens.span 5 last) → last ≤ 6) ∧
    ∃ t, p.parse = .ok t ∧ t.root.last = 3 ∧
      Nonterminal.query.Sentence (t.root.tokens t.source) ∧
      ∀ last, Nonterminal.query.Sentence (p.tokens.span 0 last) → last ≤ 3 := by
  intro p
  have hrun : p.run .parenthesis 5 = .ok ⟨p.tokens, ⟨.parenthesis, 5, 6, []⟩⟩ := rfl
  have hparse : p.parse = .ok ⟨p.tokens, ⟨.query, 0, 3, [⟨.selectQuery, 0, 3,
      [⟨.select, 0, 1, [⟨.field, 1, 1, [⟨.expression, 1, 1, [⟨.operand, 1, 1, []⟩]⟩]⟩]⟩,
       ⟨.from, 2, 3, [⟨.source, 3, 3, []⟩]⟩]⟩]⟩⟩ := rfl
  exact ⟨⟨_, hrun, rfl, ((run_longest p).1 _ _ _ hrun).2⟩,
    ⟨_, hparse, rfl, ((run_longest p).2 _ hparse).2⟩⟩

end Parser

end SqlSelect
