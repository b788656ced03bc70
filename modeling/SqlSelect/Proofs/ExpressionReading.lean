import SqlSelect.Proofs.ExpressionLayout
import SqlSelect.Proofs.Reading

namespace SqlSelect

open Nonterminal

def Enclosed.nonterminal : Enclosed → Nonterminal
  | .selectQuery => .selectQuery
  | .condition => .condition
  | .expression => .expression

/-- Inside every parenthesis from index `a` on, what is asked for is found if it is there. -/
def Nest.Reads (ts : TokenList) (a : Nat) (nest : Nest) : Prop :=
  ∀ blame (e : Enclosed) p, a ≤ p → ts.kind p = .leftParen →
    Rule.Reads ts (p + 1) (.part e.nonterminal) e.nonterminal.extending (nest blame e)

theorem Nest.Reads.fill {ts : TokenList} {a : Nat} {nest : Nest} (hn : nest.Reads ts a)
    {e : Enclosed} {p close : Nat} (ha : a ≤ p) (ho : ts.kind p = .leftParen)
    (h : ts.Spells (.part e.nonterminal) (p + 1) close) (hc : ts.kind close = .rightParen)
    (blame : Nat) (x : Expectation) :
    ∃ n, fill nest blame e (p + 1) close x = .ok n ∧ n.last + 1 = close := by
  have hk : ts.kind close ∉ e.nonterminal.extending := by
    rw [hc]
    cases e <;> decide
  obtain ⟨n, hi, hl⟩ := hn blame e p ha ho _ _ (Nat.le_refl _) h hk
  exact ⟨n, fill_eq_ok.mpr ⟨hi, hl⟩, hl⟩

theorem Nest.Reads.enclosed {ts : TokenList} {a : Nat} {nest : Nest} (hn : nest.Reads ts a)
    {e : Enclosed} {p j : Nat} (ha : a ≤ p)
    (h : ts.Spells (Phrase.parenthesized (.part e.nonterminal)) p j) (blame : Nat)
    (x : Expectation) : ∃ close n, closing ts p = .ok close ∧
      SqlSelect.fill nest blame e (p + 1) close x = .ok n ∧ close + 1 = j := by
  obtain ⟨ho, close, hi, hc, rfl⟩ := TokenList.spells_parenthesized.mp h
  obtain ⟨n, hf, _⟩ := hn.fill ha ho hi hc blame x
  exact ⟨close, n, hi.closing rfl ho hc, hf, rfl⟩

namespace Rule

variable {ts : TokenList} {a : Nat} {nest : Nest} {i j : Nat}

theorem nameLast_reads (star : Bool) {members : List TokenKind}
    (hm : ∀ k ∈ members, k = .literal ∨ star = true ∧ k = .star)
    (h : ts.Spells (Phrase.kind .literal * .opt (Phrase.kind .dot * Phrase.kinds members)) i j)
    (hj : ts.kind j ≠ .dot) : ts.kind i = .literal ∧ nameLast ts star i + 1 = j := by
  obtain ⟨hl, h⟩ := TokenList.spells_kind_mul.mp h
  refine ⟨hl, ?_⟩
  unfold nameLast
  rcases Form.spans_opt.mp h with rfl | h
  · simp [hj]
  · obtain ⟨hd, h⟩ := TokenList.spells_kind_mul.mp h
    obtain ⟨hk, rfl⟩ := TokenList.spells_kinds.mp h
    have := hm _ hk
    simp_all

theorem function_reads (hn : nest.Reads ts a) :
    Reads ts a (.part .function) [] (function ts nest) := by
  intro i j ha h _
  obtain ⟨hk, hp⟩ := TokenList.spells_kinds_mul.mp (Form.spans_part.mp h)
  have ho := (TokenList.spells_parenthesized.mp hp).1
  obtain ⟨close, n, hc, hf, hl⟩ := hn.enclosed (e := .expression) (by omega) hp i .callEnd
  refine ⟨⟨.function, i, close, [n]⟩, ?_, hl⟩
  unfold function
  rw [mem_functionKinds.mp hk]
  exact bind_eq_ok.mpr ⟨(), expect_eq_ok.mpr ho,
    bind_eq_ok.mpr ⟨close, hc, bind_eq_ok.mpr ⟨n, hf, rfl⟩⟩⟩

theorem enclosedExpression_reads (hn : nest.Reads ts a) :
    Reads ts a (Phrase.parenthesized (.part .expression)) [] (enclosedExpression ts nest) := by
  intro i j ha h _
  obtain ⟨close, n, hc, hf, hl⟩ := hn.enclosed (e := .expression) ha h i .expressionEnd
  exact ⟨_, bind_eq_ok.mpr ⟨close, hc, bind_eq_ok.mpr ⟨n, hf, rfl⟩⟩, hl⟩

theorem operand_reads (hn : nest.Reads ts a) :
    Reads ts a (.part .operand) [.dot] (operand ts nest) := by
  intro i j ha h hj
  have hj' : ts.kind j ∉ ([] : List TokenKind) := List.not_mem_nil
  unfold operand
  rcases Form.spans_add.mp (Form.spans_part.mp h) with h | h
  · rcases Form.spans_add.mp h with h | h
    · rcases Form.spans_add.mp h with h | h
      · obtain ⟨hk, hl⟩ := nameLast_reads true (by simp) h (by simpa using hj)
        exact ⟨_, if_pos hk, hl⟩
      · obtain ⟨hk, rfl⟩ := TokenList.spells_kinds.mp h
        have hl : ts.kind i ≠ .literal := fun he => by simp [he] at hk
        exact ⟨_, (if_neg hl).trans (if_pos (mem_atoms.mp hk)), rfl⟩
    · obtain ⟨n, hf, hl⟩ := function_reads hn i j ha h hj'
      have hk : ∀ k ∈ functionKinds,
          k ≠ .literal ∧ k.isAtom = false ∧ k ≠ .leftParen ∧ k.isFunction = true := by decide
      obtain ⟨hl', ha', hp, hf'⟩ := hk _ (TokenList.Spells.kind_mem h rfl)
      exact ⟨n, by simpa [hl', ha', hp, hf'] using hf, hl⟩
  · obtain ⟨n, hf, hl⟩ := enclosedExpression_reads hn i j ha h hj'
    have hk := (TokenList.spells_parenthesized.mp h).1
    exact ⟨n, by simpa [hk, TokenKind.isAtom] using hf, hl⟩

theorem signedOperand_reads (hn : nest.Reads ts a) :
    Reads ts a signed [.dot] (signedOperand ts nest) := by
  intro i j ha h hj
  have hk : ∀ k ∈ Nonterminal.operand.starts, k.isSign = false := by decide
  obtain ⟨u, hs, ho⟩ := Form.spans_mul.mp h
  have hu := hk _ (TokenList.Spells.kind_mem ho rfl)
  unfold signedOperand
  rcases Form.spans_opt.mp hs with rfl | hs
  · simpa [hu] using operand_reads hn u j ha ho hj
  · obtain ⟨hsign, rfl⟩ := TokenList.spells_kinds.mp hs
    obtain ⟨n, ho, hl⟩ := operand_reads hn (i + 1) j (by omega) ho hj
    rw [mem_signs.mp hsign, hu]
    exact ⟨_, bind_eq_ok.mpr ⟨n, ho, rfl⟩, hl⟩

theorem valueList_reads (hn : nest.Reads ts a) :
    Reads ts a (.part .list) [] (valueList ts nest) := by
  intro i j ha h _
  obtain ⟨ho, close, he, hc, rfl⟩ := TokenList.spells_parenthesized.mp (Form.spans_part.mp h)
  obtain ⟨values, hv, rfl⟩ := (hn i .expression i ha ho).commaList rfl rfl (by decide)
    (Nat.le_refl _) he (by rw [hc]; decide)
  refine ⟨⟨.list, i, values.last + 1, values.nodes⟩, ?_, rfl⟩
  unfold valueList
  rw [if_neg (not_not_intro ho)]
  exact bind_eq_ok.mpr ⟨_, he.closing rfl ho hc, bind_eq_ok.mpr ⟨values, hv, if_pos rfl⟩⟩

theorem operatorLast_eq_none (h : ts.kind i ∉ .not :: .in :: operatorKinds) :
    operatorLast ts i = .ok none := by
  simp only [List.mem_cons, not_or] at h
  have ho : ¬(ts.kind i).isOperator = true := fun he =>
    (isOperator_iff.mp he).elim h.2.2 h.2.1
  unfold operatorLast
  rw [if_neg ho, if_neg h.1]

theorem operatorLast_not (hn : ts.kind i = .not) (hk : (ts.kind (i + 1)).isNegatable = true) :
    operatorLast ts i = .ok (some (i + 1)) := by
  unfold operatorLast
  rw [if_neg (by rw [hn]; decide), if_pos hn, if_pos hk]

theorem operatorLast_of_operator {u : Nat} (h : ts.Spells (.part .operator) i u) :
    ∃ e, operatorLast ts i = .ok (some e) ∧ e + 1 = u ∧ ts.kind e ≠ .in := by
  rcases Form.spans_add.mp (Form.spans_part.mp h) with h | h
  · obtain ⟨hk, rfl⟩ := TokenList.spells_kinds.mp h
    refine ⟨i, if_pos (isOperator_iff.mpr (.inl hk)), rfl, fun he => ?_⟩
    rw [he] at hk
    revert hk
    decide
  · obtain ⟨hn, h⟩ := TokenList.spells_kind_mul.mp h
    obtain ⟨hk, rfl⟩ := TokenList.spells_kinds.mp h
    have hm : ∀ k ∈ [TokenKind.like, .between], k.isNegatable = true ∧ k ≠ .in := by decide
    exact ⟨i + 1, operatorLast_not hn (hm _ hk).1, rfl, (hm _ hk).2⟩

theorem operatorLast_of_membership {u : Nat} (h : ts.Spells membership i u) :
    ∃ e, operatorLast ts i = .ok (some e) ∧ e + 1 = u ∧ ts.kind e = .in := by
  rcases Form.spans_add.mp h with h | h
  · obtain ⟨hk, rfl⟩ := TokenList.spells_kind.mp h
    exact ⟨i, if_pos (isOperator_iff.mpr (.inr hk)), rfl, hk⟩
  · obtain ⟨hn, h⟩ := TokenList.spells_kind_mul.mp h
    obtain ⟨hk, rfl⟩ := TokenList.spells_kind.mp h
    exact ⟨i + 1, operatorLast_not hn (by rw [hk]; decide), rfl, hk⟩

theorem operation_reads (hn : nest.Reads ts a) :
    ReadsAfter ts a (.part .operator * signed + membership * .part .list) [.dot]
      (operation ts nest) := by
  refine ⟨fun {last j} ha h hj => ?_, fun {last} hk => ?_⟩
  · unfold operation
    rcases (Form.spans_add.mp h).imp Form.spans_mul.mp Form.spans_mul.mp with
      ⟨u, ho, h⟩ | ⟨u, hm, h⟩
    · obtain ⟨e, he, rfl, hi⟩ := operatorLast_of_operator ho
      have hle := TokenList.Spells.lt ho rfl
      obtain ⟨n, hr, hl⟩ := signedOperand_reads hn (e + 1) j (by omega) h hj
      refine ⟨⟨[.leaf .operator (last + 1) e, n], n.last⟩,
        bind_eq_ok.mpr ⟨some e, he, ?_⟩, hl⟩
      dsimp only
      rw [if_neg hi]
      exact bind_eq_ok.mpr ⟨n, hr, rfl⟩
    · obtain ⟨e, he, rfl, hi⟩ := operatorLast_of_membership hm
      have hle := TokenList.Spells.lt hm rfl
      obtain ⟨n, hr, hl⟩ := valueList_reads hn (e + 1) j (by omega) h List.not_mem_nil
      refine ⟨⟨[.leaf .operator (last + 1) e, n], n.last⟩,
        bind_eq_ok.mpr ⟨some e, he, ?_⟩, hl⟩
      dsimp only
      rw [if_pos hi]
      exact bind_eq_ok.mpr ⟨n, hr, rfl⟩
  · have hs : ∀ k ∈ (.not :: .in :: operatorKinds : List TokenKind), k ∈
        Form.starts (.part .operator * signed + membership * .part .list) := by decide
    exact bind_eq_ok.mpr ⟨none, operatorLast_eq_none fun h => hk (hs _ h), rfl⟩

theorem expression_reads (hn : nest.Reads ts a) :
    Reads ts a (.part .expression) Nonterminal.expression.extending (expression ts nest) := by
  intro i j ha h hj
  have hk : ∀ k ∈ Form.starts (.part .operator * signed + membership * .part .list) ++ [.dot],
      k ∈ Nonterminal.expression.extending := by decide
  obtain ⟨s, hs, hl⟩ := (signedOperand_reads hn).chain_star (operation_reads hn) rfl rfl rfl
    (by decide) ha (Form.spans_part.mp h) fun h => hj (hk _ h)
  exact ⟨_, bind_eq_ok.mpr ⟨s, hs, rfl⟩, hl⟩

end Rule

end SqlSelect
