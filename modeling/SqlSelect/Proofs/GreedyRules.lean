import SqlSelect.Proofs.Acceptance
import SqlSelect.Proofs.Greedy

namespace SqlSelect

open Nonterminal

/-- With as many levels as there are parentheses, whatever a list has in them is found. -/
theorem nested_openings_reads (ts : TokenList) : (nested ts (ts.openings 0)).Reads ts 0 :=
  nested_reads (Nat.le_refl _)

theorem Nonterminal.signed_extends : signed.Extends [.dot] :=
  .of_reads (by decide) fun ts => Rule.signedOperand_reads (nested_openings_reads ts)

theorem Nonterminal.expression_extends : Form.Extends (.part .expression) expression.extending :=
  .of_reads (by decide) fun ts => Rule.expression_reads (nested_openings_reads ts)

theorem Nonterminal.conditionTerm_extends :
    Form.Extends (.part .conditionTerm) expression.extending := by
  refine .of_found (fun ts i =>
    (Rule.term ts (nested ts (ts.openings 0)) i).toOption.map (·.last + 1)) (by decide) ?_
  intro ts i j h hj
  obtain ⟨s, hs, hl⟩ := Rule.term_reads (nested_openings_reads ts) (Nat.zero_le i) h hj
  rw [hs, ← hl]
  rfl

variable {ts : TokenList} {nest : Nest} {i j : Nat}

namespace Rule

theorem nameLast_longest (star : Bool) {members : List TokenKind}
    (hm : ∀ k, k ∈ members ↔ k = .literal ∨ star = true ∧ k = .star)
    (h : ts.kind i = .literal) :
    ts.Longest (Phrase.kind .literal * .opt (Phrase.kind .dot * Phrase.kinds members)) i
      (nameLast ts star i + 1) := by
  refine .kind_mul h ?_
  unfold nameLast
  split
  next hk =>
    have hk : ts.kind (i + 1) = .dot ∧ ts.kind (i + 2) ∈ members := by simpa [hm] using hk
    exact (TokenList.Longest.kind_mul hk.1 (.kinds hk.2)).take
  next hk =>
    refine ⟨.skip, fun h => ?_⟩
    rcases Form.spans_opt.mp h with rfl | h
    · exact Nat.le_refl _
    · obtain ⟨hd, h⟩ := TokenList.spells_kind_mul.mp h
      have hl := (hm _).mp (TokenList.spells_kinds.mp h).1
      exact (hk (by simpa [hd] using hl)).elim

/-- What fills a parenthesis makes one with it, of the only length that one can have there. -/
theorem enclosed_longest (hn : nest.Makes ts) {e : Enclosed} {p close blame : Nat}
    {x : Expectation} {n : Node} (hc : closing ts p = .ok close)
    (h : fill nest blame e (p + 1) close x = .ok n) :
    ts.Longest (Phrase.parenthesized (.part e.nonterminal)) p (close + 1) := by
  have hs : ts.Spells (Phrase.parenthesized (.part e.nonterminal)) p (close + 1) := by
    cases e <;> exact (hn.enclosed hc h).spells.bracket
  exact .of_extends hs (.parenthesized rfl) List.not_mem_nil

theorem function_greedy (hn : nest.Makes ts) :
    Greedy ts (.part .function) (function ts nest) :=
  fun i n h => .of_extends (function_makes hn i n h).spells
    (.part (.letter_mul (.parenthesized rfl))) List.not_mem_nil

theorem enclosedExpression_greedy (hn : nest.Makes ts) :
    Greedy ts (Phrase.parenthesized (.part .expression)) (enclosedExpression ts nest) := by
  intro i n h
  obtain ⟨close, hc, h⟩ := bind_eq_ok.mp h
  obtain ⟨inner, ha, h⟩ := bind_eq_ok.mp h
  cases h
  exact enclosed_longest (e := .expression) hn hc ha

theorem operand_greedy (hn : nest.Makes ts) : Greedy ts (.part .operand) (operand ts nest) := by
  intro i n h
  refine .part ?_
  unfold operand at h
  split at h
  next hk =>
    cases h
    have hi : ∀ k ∈ [TokenKind.literal], k ∉ Nonterminal.atomKinds ∧ k ∉ functionKinds ∧
      k ∉ [TokenKind.leftParen] := by decide
    have hi := hi _ (List.mem_singleton.mpr hk)
    exact .left (.left (.left (nameLast_longest true (by simp) hk) rfl hi.1) rfl hi.2.1) rfl hi.2.2
  split at h
  next hl hk =>
    cases h
    have hi : ∀ k ∈ Nonterminal.atomKinds, k ∉ functionKinds ∧ k ∉ [TokenKind.leftParen] := by
      decide
    have hk := mem_atoms.mpr hk
    have hi := hi _ hk
    have hl : ts.kind i ∉ [TokenKind.literal] := fun hm => hl (List.mem_singleton.mp hm)
    exact .left (.left (.right (.kinds hk) rfl hl) rfl hi.1) rfl hi.2
  split at h
  next hk =>
    have hi : ∀ k ∈ [TokenKind.leftParen],
        k ∉ [TokenKind.literal] ++ Nonterminal.atomKinds ++ functionKinds := by decide
    exact .right (enclosedExpression_greedy hn i n h) rfl (hi _ (List.mem_singleton.mpr hk))
  split at h
  next ho hk =>
    have hi : ∀ k ∈ functionKinds, k ∉ [TokenKind.literal] ++ Nonterminal.atomKinds := by decide
    have ho : ts.kind i ∉ [TokenKind.leftParen] := fun hm => ho (List.mem_singleton.mp hm)
    exact .left (.right (function_greedy hn i n h) rfl (hi _ (mem_functionKinds.mpr hk))) rfl ho
  next => cases h

theorem signedOperand_greedy (hn : nest.Makes ts) :
    Greedy ts signed (signedOperand ts nest) := by
  intro i n h
  have hs : Form.Extends (.opt (Phrase.kinds [.plus, .minus])) [.plus, .minus] :=
    (Form.Extends.letter _).opt rfl
  unfold signedOperand at h
  split at h
  next hk =>
    have hi : ts.kind i ∉ [TokenKind.plus, .minus] := fun hm => by simp [mem_signs.mp hm] at hk
    exact (TokenList.Longest.of_not_mem_starts .skip hi).mul (operand_greedy hn i n h) hs
      (by decide)
  next hk =>
    split at h
    next => cases h
    next =>
      obtain ⟨inner, hi, h⟩ := bind_eq_ok.mp h
      cases h
      have hsign := mem_signs.mpr (by simpa using hk)
      exact (TokenList.Longest.kinds hsign).take.mul (operand_greedy hn _ inner hi) hs
        (by decide)

theorem valueList_greedy (hn : nest.Makes ts) : Greedy ts (.part .list) (valueList ts nest) :=
  fun i n h => .of_extends (valueList_makes hn i n h).spells
    (Form.Extends.part (.parenthesized rfl)) List.not_mem_nil

theorem not_mem_of_operatorLast (h : operatorLast ts i = .ok none) :
    ts.kind i ∉ .not :: .in :: operatorKinds := by
  unfold operatorLast at h
  split at h
  next => cases h
  next ho =>
    split at h
    next =>
      split at h
      next => cases h
      next => cases h
    next hn =>
      intro hk
      rcases List.mem_cons.mp hk with hk | hk
      · exact hn hk
      · exact ho (isOperator_iff.mpr ((List.mem_cons.mp hk).symm))

/-- Which operator stands at an index tells how the phrase after it is made. -/
theorem spells_operation
    (h : ts.Spells (.part .operator * signed + membership * .part .list) i j) :
    ∃ e, operatorLast ts i = .ok (some e) ∧
      (ts.kind e ≠ .in ∧ ts.Spells signed (e + 1) j ∨
        ts.kind e = .in ∧ ts.Spells (.part .list) (e + 1) j) := by
  rcases (Form.spans_add.mp h).imp Form.spans_mul.mp Form.spans_mul.mp with
    ⟨u, ho, h⟩ | ⟨u, hm, h⟩
  · obtain ⟨e, he, rfl, hi⟩ := operatorLast_of_operator ho
    exact ⟨e, he, .inl ⟨hi, h⟩⟩
  · obtain ⟨e, he, rfl, hi⟩ := operatorLast_of_membership hm
    exact ⟨e, he, .inr ⟨hi, h⟩⟩

theorem operation_extends :
    Form.Extends (.part .operator * signed + membership * .part .list) [.dot] := by
  intro ts i u u' hu hu' hlt
  obtain ⟨e, he, hu⟩ := spells_operation hu
  obtain ⟨e', he', hu'⟩ := spells_operation hu'
  cases he.symm.trans he'
  rcases hu with ⟨hk, hu⟩ | ⟨hk, hu⟩
  · have hu' := hu'.resolve_right fun h => hk h.1
    exact signed_extends ts _ u u' hu hu'.2 hlt
  · have hu' := hu'.resolve_left fun h => h.1 hk
    have hl : Form.Extends (.part .list) [] := Form.Extends.part (.parenthesized rfl)
    exact (List.not_mem_nil (hl ts _ u u' hu hu'.2 hlt)).elim

theorem operation_greedy (hn : nest.Makes ts) :
    GreedyAfter ts (.part .operator * signed + membership * .part .list)
      (operation ts nest) := by
  refine ⟨fun {last s} h => ⟨?_, fun {k} hk => ?_⟩, fun {last} h hk => ?_⟩
  · exact (operation_fits hn h).spells
  · obtain ⟨e, he, hk⟩ := spells_operation hk
    obtain ⟨o, ho, h⟩ := bind_eq_ok.mp h
    cases he.symm.trans ho
    dsimp only at h
    rcases hk with ⟨hi, hk⟩ | ⟨hi, hk⟩
    · rw [if_neg hi] at h
      obtain ⟨right, hr, h⟩ := bind_eq_ok.mp h
      cases h
      exact (signedOperand_greedy hn _ right hr).le hk
    · rw [if_pos hi] at h
      obtain ⟨right, hr, h⟩ := bind_eq_ok.mp h
      cases h
      exact (valueList_greedy hn _ right hr).le hk
  · obtain ⟨o, ho, h⟩ := bind_eq_ok.mp h
    cases o with
    | none =>
      have hs : ∀ k ∈ Form.starts (.part .operator * signed + membership * .part .list),
          k ∈ (.not :: .in :: operatorKinds : List TokenKind) := by decide
      exact not_mem_of_operatorLast ho (hs _ hk)
    | some e =>
      dsimp only at h
      split at h
      next =>
        obtain ⟨_, _, h⟩ := bind_eq_ok.mp h
        cases h
      next =>
        obtain ⟨_, _, h⟩ := bind_eq_ok.mp h
        cases h

theorem expression_greedy (hn : nest.Makes ts) :
    Greedy ts (.part .expression) (expression ts nest) := by
  intro i n h
  obtain ⟨s, hs, h⟩ := bind_eq_ok.mp h
  cases h
  exact .part ((signedOperand_greedy hn).chain_star (operation_greedy hn) signed_extends (by decide)
    rfl rfl operation_extends (by decide) hs)

theorem plainTerm_longest (hn : nest.Makes ts) {s : Stretch} (h : plainTerm ts nest i = .ok s) :
    ts.Longest (.part .expression) i (s.last + 1) := by
  obtain ⟨e, he, h⟩ := bind_eq_ok.mp h
  cases h
  exact expression_greedy hn i e he

theorem enclosedCondition_last {close : Nat} {s : Stretch}
    (h : enclosedCondition nest i close = .ok s) : s.last = close := by
  obtain ⟨_, _, h⟩ := bind_eq_ok.mp h
  cases h
  rfl

/-- Looking past the parenthesis tells which of the two readings of a term is longer: a condition in
parentheses ends with them, and only an operator after them goes on. -/
theorem term_longest (hn : nest.Makes ts) {s : Stretch} (h : term ts nest i = .ok s) :
    ts.Longest (.part .conditionTerm) i (s.last + 1) := by
  refine ⟨spells_term (term_fits hn h).spells, fun {k} hk => ?_⟩
  unfold term at h
  split at h
  next ho =>
    obtain ⟨close, hc, h⟩ := bind_eq_ok.mp h
    obtain ⟨o, hop, h⟩ := bind_eq_ok.mp h
    rcases Form.spans_add.mp (Form.spans_part.mp hk) with hk | hk
    · obtain ⟨_, j, hj, hr, rfl⟩ := TokenList.spells_parenthesized.mp hk
      cases hc.symm.trans (hj.closing rfl ho hr)
      cases o with
      | none =>
        have := enclosedCondition_last h
        omega
      | some e => exact closing_lt_of_spells (plainTerm_longest hn h).spells hc
    · cases o with
      | none =>
        obtain ⟨j, hj, _, _, hend⟩ := spells_expression_cases hk ho
        cases hc.symm.trans hj
        rcases hend with rfl | ⟨_, e, he⟩
        · have := enclosedCondition_last h
          omega
        · cases hop.symm.trans he
      | some e => exact (plainTerm_longest hn h).le hk
  next ho =>
    rcases Form.spans_add.mp (Form.spans_part.mp hk) with hk | hk
    · exact (ho (TokenList.spells_parenthesized.mp hk).1).elim
    · exact (plainTerm_longest hn h).le hk

theorem connected_greedy (hn : nest.Makes ts) :
    GreedyAfter ts (Phrase.kinds [.and, .or] * .part .conditionTerm) (connected ts nest) := by
  refine ⟨fun {last s} h => ?_, fun {last} h hk => ?_⟩
  · unfold connected at h
    split at h
    next => cases h
    next hk =>
      split at h
      next => cases h
      next =>
        obtain ⟨right, hr, h⟩ := bind_eq_ok.mp h
        cases h
        have ht : ts.Longest (.part .conditionTerm) (last + 2) (right.last + 1) :=
          term_longest hn hr
        exact .kinds_mul (mem_connectives.mpr (by simpa using hk)) ht
  · rw [Form.starts_kinds_mul] at hk
    unfold connected at h
    rw [mem_connectives.mp hk] at h
    split at h
    next => contradiction
    next =>
      split at h
      next => cases h
      next =>
        obtain ⟨_, _, h⟩ := bind_eq_ok.mp h
        cases h

theorem condition_greedy (hn : nest.Makes ts) :
    Greedy ts (.part .condition) (condition ts nest) := by
  intro i n h
  obtain ⟨first, hf, h⟩ := bind_eq_ok.mp h
  obtain ⟨more, hm, h⟩ := bind_eq_ok.mp h
  cases h
  have hmore : ts.Longest (.star (Phrase.kinds [.and, .or] * .part .conditionTerm))
      (first.last + 1) (more.last + 1) :=
    (connected_greedy hn).many_star rfl rfl conditionTerm_extends.letter_mul (by decide) hm
      (by omega)
  exact .part ((term_longest hn hf).mul hmore conditionTerm_extends (by decide))

end Rule

end SqlSelect
