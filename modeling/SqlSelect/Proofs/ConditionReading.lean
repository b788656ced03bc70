import SqlSelect.Proofs.ConditionLayout
import SqlSelect.Proofs.ExpressionReading

namespace SqlSelect

open Nonterminal

namespace Rule

variable {ts : TokenList} {a : Nat} {nest : Nest} {i j : Nat}

theorem spells_parenthesized_of_signed (h : ts.Spells signed i j) (ho : ts.kind i = .leftParen) :
    ts.Spells (Phrase.parenthesized (.part .expression)) i j := by
  obtain ⟨u, hs, hop⟩ := Form.spans_mul.mp h
  rcases Form.spans_opt.mp hs with rfl | hs
  · rcases Form.spans_add.mp (Form.spans_part.mp hop) with hop | hop
    · exact (TokenList.Spells.absurd_kind hop ho rfl (by decide)).elim
    · exact hop
  · exact (TokenList.Spells.absurd_kind hs ho rfl (by decide)).elim

/-- An expression that begins with a parenthesis either goes on with an operator after it, or is
all in the parenthesis. -/
theorem spells_expression_cases (h : ts.Spells (.part .expression) i j)
    (ho : ts.kind i = .leftParen) : ∃ close, closing ts i = .ok close ∧
      ts.Spells (.part .expression) (i + 1) close ∧ ts.kind close = .rightParen ∧
      (j = close + 1 ∨ close + 1 < j ∧ ∃ e, operatorLast ts (close + 1) = .ok (some e)) := by
  obtain ⟨u, hs, hstar⟩ := Form.spans_mul.mp (Form.spans_part.mp h)
  obtain ⟨_, close, he, hc, rfl⟩ :=
    TokenList.spells_parenthesized.mp (spells_parenthesized_of_signed hs ho)
  refine ⟨close, he.closing rfl ho hc, he, hc, ?_⟩
  rcases Form.spans_star.mp hstar with rfl | ⟨v, hop, hmore⟩
  · exact .inl rfl
  · have hle := TokenList.Spells.le hmore
    have hlt := TokenList.Spells.lt hop rfl
    refine .inr ⟨by omega, ?_⟩
    rcases (Form.spans_add.mp hop).imp Form.spans_mul.mp Form.spans_mul.mp with
      ⟨w, ho, _⟩ | ⟨w, hm, _⟩
    · obtain ⟨e, he, _⟩ := operatorLast_of_operator ho
      exact ⟨e, he⟩
    · obtain ⟨e, he, _⟩ := operatorLast_of_membership hm
      exact ⟨e, he⟩

/-- An expression that begins with a parenthesis goes on at least to where that closes. -/
theorem closing_lt_of_spells {close : Nat} (h : ts.Spells (.part .expression) i j)
    (hc : closing ts i = .ok close) : close < j := by
  obtain ⟨close', hc', _, _, hj⟩ := spells_expression_cases h (closing_kinds hc).1
  cases hc.symm.trans hc'
  omega

theorem enclosedCondition_reads (hn : nest.Reads ts a) {close : Nat} (ha : a ≤ i)
    (ho : ts.kind i = .leftParen) (h : ts.Spells (.part .condition) (i + 1) close)
    (hc : ts.kind close = .rightParen) :
    ∃ s, enclosedCondition nest i close = .ok s ∧ s.last = close := by
  obtain ⟨inner, hi, _⟩ := hn.fill (e := .condition) ha ho h hc i .conditionEnd
  exact ⟨_, bind_eq_ok.mpr ⟨inner, hi, rfl⟩, rfl⟩

theorem plainTerm_reads (hn : nest.Reads ts a) (ha : a ≤ i)
    (h : ts.Spells (.part .expression) i j) (hj : ts.kind j ∉ Nonterminal.expression.extending) :
    ∃ s, plainTerm ts nest i = .ok s ∧ s.last + 1 = j := by
  obtain ⟨e, he, hl⟩ := expression_reads hn i j ha h hj
  exact ⟨_, bind_eq_ok.mpr ⟨e, he, rfl⟩, hl⟩

/-- Looking past the parenthesis is right: a condition in parentheses is not followed by an
operator, and an expression all in parentheses is a condition in parentheses as well. -/
theorem term_reads (hn : nest.Reads ts a) (ha : a ≤ i)
    (h : ts.Spells (.part .conditionTerm) i j)
    (hj : ts.kind j ∉ Nonterminal.expression.extending) :
    ∃ s, term ts nest i = .ok s ∧ s.last + 1 = j := by
  have hnone : operatorLast ts j = .ok none :=
    operatorLast_eq_none fun hk => hj (List.mem_cons_of_mem _ hk)
  have henclosed {close : Nat} (ho : ts.kind i = .leftParen)
      (hi : ts.Spells (.part .condition) (i + 1) close) (hc : ts.kind close = .rightParen)
      (hl : j = close + 1) : ∃ s, term ts nest i = .ok s ∧ s.last + 1 = j := by
    obtain ⟨s, hs, rfl⟩ := enclosedCondition_reads hn ha ho hi hc
    refine ⟨s, ?_, hl.symm⟩
    rw [hl] at hnone
    unfold term
    rw [if_pos ho]
    exact bind_eq_ok.mpr ⟨_, hi.closing rfl ho hc, bind_eq_ok.mpr ⟨none, hnone, hs⟩⟩
  rcases Form.spans_add.mp (Form.spans_part.mp h) with h | h
  · obtain ⟨ho, close, hi, hc, hl⟩ := TokenList.spells_parenthesized.mp h
    exact henclosed ho hi hc hl
  · by_cases ho : ts.kind i = .leftParen
    · obtain ⟨close, hclose, hi, hc, hl | ⟨_, e, he⟩⟩ := spells_expression_cases h ho
      · exact henclosed ho (.part (.seq (.part (.right hi)) .stop)) hc hl
      · obtain ⟨s, hs, hl⟩ := plainTerm_reads hn ha h hj
        refine ⟨s, ?_, hl⟩
        unfold term
        rw [if_pos ho]
        exact bind_eq_ok.mpr ⟨close, hclose, bind_eq_ok.mpr ⟨some e, he, hs⟩⟩
    · unfold term
      rw [if_neg ho]
      exact plainTerm_reads hn ha h hj

theorem connected_eq_none {last : Nat} (hk : ts.kind (last + 1) ∉ [TokenKind.and, .or]) :
    connected ts nest last = .ok none := by
  refine if_pos ?_
  rw [Bool.not_eq_true', ← Bool.not_eq_true]
  exact fun hc => hk (mem_connectives.mpr hc)

theorem connected_reads (hn : nest.Reads ts a) :
    ReadsAfter ts a (Phrase.kinds [.and, .or] * .part .conditionTerm)
      Nonterminal.expression.extending (connected ts nest) := by
  refine ⟨fun {last j} ha h hj => ?_, connected_eq_none⟩
  · obtain ⟨hk, h⟩ := TokenList.spells_kinds_mul.mp h
    have hb : ∀ k ∈ Nonterminal.conditionTerm.starts, k.beginsExpression = true := by decide
    obtain ⟨s, hs, hl⟩ := term_reads hn (by omega) h hj
    refine ⟨⟨.leaf .operator (last + 1) (last + 1) :: s.nodes, s.last⟩, ?_, hl⟩
    unfold connected
    rw [mem_connectives.mp hk, hb _ (TokenList.Spells.kind_mem h rfl)]
    exact bind_eq_ok.mpr ⟨s, hs, rfl⟩

theorem condition_reads (hn : nest.Reads ts a) :
    Reads ts a (.part .condition) Nonterminal.condition.extending (condition ts nest) := by
  intro i j ha h hj
  have hsize := TokenList.Spells.lt_size h rfl rfl
  obtain ⟨u, ht, hs⟩ := Form.spans_mul.mp (Form.spans_part.mp h)
  have hle := TokenList.Spells.le ht
  have hk : ts.kind u ∉ Nonterminal.expression.extending :=
    TokenList.Spells.kind_not_mem hs (by decide) fun hk => hj (by simp_all [extending])
  obtain ⟨first, hf, rfl⟩ := term_reads hn ha ht hk
  obtain ⟨more, hm, hl⟩ := (connected_reads hn).many_star rfl (by decide) ts.size (by omega)
    hs hj (by omega)
  exact ⟨_, bind_eq_ok.mpr ⟨first, hf, bind_eq_ok.mpr ⟨more, hm, rfl⟩⟩, hl⟩

end Rule

end SqlSelect
