import SqlSelect.Proofs.Grammar

namespace SqlSelect

/-- The token at `i` is accepted, and `j` is the index after it. -/
def TokenList.TakesAt (ts : TokenList) (t : Terminal) (i j : Nat) : Prop :=
  t.Accepts (ts.token i) ∧ j = i + 1

/-- The tokens from `i` up to `j`, without the one at `j`, spell a phrase. -/
abbrev TokenList.Spells (ts : TokenList) (f : Phrase) (i j : Nat) : Prop :=
  f.Spans ts.TakesAt Nonterminal.rule i j

theorem Nonterminal.rule_proper (n : Nonterminal) : n.rule.proper = true := by
  cases n <;> rfl

namespace TokenList

variable {ts : TokenList} {f : Phrase} {i j : Nat}

theorem takesAt_lt (t : Terminal) (i j : Nat) (h : ts.TakesAt t i j) : id i < id j := by
  obtain ⟨_, rfl⟩ := h
  exact Nat.lt_succ_self i

theorem Spells.le (h : ts.Spells f i j) : i ≤ j := Form.Spans.le takesAt_lt h

theorem Spells.lt (h : ts.Spells f i j) (hf : f.proper = true) : i < j :=
  Form.Spans.lt takesAt_lt Nonterminal.rule_proper h hf

@[simp] theorem spells_kinds {ks : List TokenKind} :
    ts.Spells (Phrase.kinds ks) i j ↔ ts.kind i ∈ ks ∧ j = i + 1 := Form.spans_one

@[simp] theorem spells_kind {k : TokenKind} :
    ts.Spells (Phrase.kind k) i j ↔ ts.kind i = k ∧ j = i + 1 := by
  rw [Phrase.kind, spells_kinds, List.mem_singleton]

theorem spells_kinds_mul {ks : List TokenKind} :
    ts.Spells (Phrase.kinds ks * f) i j ↔ ts.kind i ∈ ks ∧ ts.Spells f (i + 1) j := by
  simp [and_assoc]

theorem spells_kind_mul {k : TokenKind} :
    ts.Spells (Phrase.kind k * f) i j ↔ ts.kind i = k ∧ ts.Spells f (i + 1) j := by
  rw [Phrase.kind, spells_kinds_mul, List.mem_singleton]

@[simp] theorem spells_parenthesized : ts.Spells (Phrase.parenthesized f) i j ↔
    ts.kind i = .leftParen ∧ ∃ k, ts.Spells f (i + 1) k ∧ ts.kind k = .rightParen ∧ j = k + 1 := by
  refine Form.spans_between.trans ⟨?_, ?_⟩
  · rintro ⟨u, k, ⟨ho, rfl⟩, hf, hc, rfl⟩
    exact ⟨List.mem_singleton.mp ho, k, hf, List.mem_singleton.mp hc, rfl⟩
  · rintro ⟨ho, k, hf, hc, rfl⟩
    exact ⟨i + 1, k, ⟨List.mem_singleton.mpr ho, rfl⟩, hf, List.mem_singleton.mpr hc, rfl⟩

end TokenList

end SqlSelect
