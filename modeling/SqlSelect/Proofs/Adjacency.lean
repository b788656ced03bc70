import SqlSelect.Proofs.Lookahead

namespace SqlSelect

/-- How many literals stand directly before a place, one after another. -/
def TokenList.literalsBefore (ts : TokenList) : Nat → Nat
  | 0 => 0
  | i + 1 => if ts.kind i = .literal then ts.literalsBefore i + 1 else 0

/-- The kinds that name or stand for a value by themselves. -/
def TokenKind.names : List TokenKind := [.literal, .string, .parameter]

namespace Nonterminal

/-- How many literals may stand directly before a phrase of each rule: two where it begins with a
keyword, and none where it may begin with a name. -/
def literalsAllowed : Nonterminal → Nat
  | .query | .selectQuery | .select | .from | .join | .where | .having | .groupBy | .orderBy
  | .limit | .operator | .function | .list => 2
  | .field | .source | .condition | .conditionTerm | .expression | .operand | .orderedColumn => 0

/-- How many literals a phrase of each rule may end with. -/
def literalsLeft : Nonterminal → Nat
  | .query | .selectQuery | .select | .field | .from | .join => 2
  | .source | .where | .having | .condition | .conditionTerm | .expression | .operand
  | .groupBy | .orderBy | .orderedColumn => 1
  | .operator | .function | .list | .limit => 0

end Nonterminal

/-- How many literals stand before a place at most, after a token that at most `n` stand before;
none if a third name may follow two. -/
def Terminal.literalsAfter (t : Terminal) (n : Nat) : Option Nat :=
  if 2 ≤ n ∧ ∃ k ∈ TokenKind.names, k ∈ t.kinds then none
  else some (if .literal ∈ t.kinds then n + 1 else 0)

/-- The same after a phrase. -/
def Form.literalsAfter : Phrase → Nat → Option Nat
  | one t, n => t.literalsAfter n
  | part m, n => if n ≤ m.literalsAllowed then some m.literalsLeft else none
  | between a b f, n => do b.literalsAfter (← f.literalsAfter (← a.literalsAfter n))
  | seq f g, n => do g.literalsAfter (← f.literalsAfter n)
  | alt f g, n => return max (← f.literalsAfter n) (← g.literalsAfter n)
  | opt f, n => return max n (← f.literalsAfter n)
  | star f, n => do if (← f.literalsAfter n) ≤ n then some n else none

theorem Nonterminal.literalsAfter_rule (m : Nonterminal) :
    ∃ n ≤ m.literalsLeft, m.rule.literalsAfter m.literalsAllowed = some n := by
  cases m <;> exact ⟨_, by decide, rfl⟩

namespace TokenList

variable {ts : TokenList} {f : Phrase} {i j u m n : Nat}

/-- No name stands after two literals, from one index up to another. -/
def NoThird (ts : TokenList) (i j : Nat) : Prop :=
  ∀ p, i ≤ p → p < j → 2 ≤ ts.literalsBefore p → ts.kind p ∉ TokenKind.names

theorem NoThird.refl (ts : TokenList) (i : Nat) : ts.NoThird i i := fun p hi hj _ => by omega

theorem NoThird.trans (h : ts.NoThird i u) (h' : ts.NoThird u j) : ts.NoThird i j := by
  intro p hi hj
  by_cases hu : p < u
  · exact h p hi hu
  · exact h' p (by omega) hj

theorem TakesAt.literals {t : Terminal} (h : ts.TakesAt t i j) (ht : t.literalsAfter n = some m)
    (hi : ts.literalsBefore i ≤ n) : ts.literalsBefore j ≤ m ∧ ts.NoThird i j := by
  obtain ⟨ha, rfl⟩ := h
  unfold Terminal.literalsAfter at ht
  split at ht
  next => cases ht
  next hn =>
    cases ht
    have hk : ts.kind i ∈ t.kinds := ha.mem_kinds
    refine ⟨?_, fun p hi hj hp hm => ?_⟩
    · rw [literalsBefore]
      split
      next hl =>
        rw [if_pos (hl ▸ hk)]
        omega
      next => exact Nat.zero_le _
    · obtain rfl : p = i := by omega
      exact hn ⟨by omega, _, hm, hk⟩

/-- Wherever no more literals stand before a phrase than may, no name comes after two literals
in it. -/
theorem Spells.literals (h : ts.Spells f i j) (hf : f.literalsAfter n = some m)
    (hi : ts.literalsBefore i ≤ n) : ts.literalsBefore j ≤ m ∧ ts.NoThird i j := by
  induction h generalizing n m with
  | one h => exact h.literals hf hi
  | @part r i j _ ih =>
    rw [Form.literalsAfter] at hf
    split at hf
    next hn =>
      cases hf
      obtain ⟨m, hm, hr⟩ := r.literalsAfter_rule
      obtain ⟨hj, hij⟩ := ih hr (by omega)
      exact ⟨by omega, hij⟩
    next => cases hf
  | between ha _ hb ih =>
    obtain ⟨n₁, h₁, hf⟩ := Option.bind_eq_some_iff.mp hf
    obtain ⟨n₂, h₂, hf⟩ := Option.bind_eq_some_iff.mp hf
    obtain ⟨hu, hiu⟩ := ha.literals h₁ hi
    obtain ⟨hv, huv⟩ := ih h₂ hu
    obtain ⟨hj, hvj⟩ := hb.literals hf hv
    exact ⟨hj, (hiu.trans huv).trans hvj⟩
  | seq _ _ ihf ihg =>
    obtain ⟨n₁, h₁, hf⟩ := Option.bind_eq_some_iff.mp hf
    obtain ⟨hu, hiu⟩ := ihf h₁ hi
    obtain ⟨hj, huj⟩ := ihg hf hu
    exact ⟨hj, hiu.trans huj⟩
  | left _ ih =>
    obtain ⟨n₁, h₁, hf⟩ := Option.bind_eq_some_iff.mp hf
    obtain ⟨n₂, h₂, hf⟩ := Option.bind_eq_some_iff.mp hf
    cases hf
    obtain ⟨hj, hij⟩ := ih h₁ hi
    exact ⟨by omega, hij⟩
  | right _ ih =>
    obtain ⟨n₁, h₁, hf⟩ := Option.bind_eq_some_iff.mp hf
    obtain ⟨n₂, h₂, hf⟩ := Option.bind_eq_some_iff.mp hf
    cases hf
    obtain ⟨hj, hij⟩ := ih h₂ hi
    exact ⟨by omega, hij⟩
  | skip =>
    obtain ⟨n₁, h₁, hf⟩ := Option.bind_eq_some_iff.mp hf
    cases hf
    exact ⟨by omega, .refl ts _⟩
  | take _ ih =>
    obtain ⟨n₁, h₁, hf⟩ := Option.bind_eq_some_iff.mp hf
    cases hf
    obtain ⟨hj, hij⟩ := ih h₁ hi
    exact ⟨by omega, hij⟩
  | stop =>
    obtain ⟨n₁, h₁, hf⟩ := Option.bind_eq_some_iff.mp hf
    split at hf
    next =>
      cases hf
      exact ⟨hi, .refl ts _⟩
    next => cases hf
  | step _ _ ihf ihs =>
    have hs := hf
    obtain ⟨n₁, h₁, hf⟩ := Option.bind_eq_some_iff.mp hf
    split at hf
    next hle =>
      cases hf
      obtain ⟨hu, hiu⟩ := ihf h₁ hi
      obtain ⟨hj, huj⟩ := ihs hs (by omega)
      exact ⟨hj, hiu.trans huj⟩
    next => cases hf

/-- No name comes after two literals in a query. -/
theorem Spells.not_third (h : ts.Spells (.part .query) 0 j) (hi : i + 2 < j)
    (h₁ : ts.kind i = .literal) (h₂ : ts.kind (i + 1) = .literal) :
    ts.kind (i + 2) ∉ TokenKind.names := by
  refine (Spells.literals (n := 0) h rfl (Nat.le_refl 0)).2 (i + 2) (Nat.zero_le _) hi ?_
  rw [literalsBefore, if_pos h₂, literalsBefore, if_pos h₁]
  omega

end TokenList

end SqlSelect
