import SqlSelect.Proofs.Greedy
import SqlSelect.Proofs.NormalForm
import SqlSelect.Proofs.NumberValue

namespace SqlSelect

open NodeKind

/-- A token is a number, of no more than 64 bits, that stands for `n`. -/
def TokenList.NumberAt (ts : TokenList) (i n : Nat) : Prop :=
  ts.kind i = .number ∧ Denotes (ts.token i).text.toList n ∧ n < 2 ^ 64

def TokenList.HasValue (ts : TokenList) (i : Nat) : Prop := ∃ n, ts.NumberAt i n

namespace Rule

variable {ts : TokenList} {i : Nat} {n : Node}

theorem limitArgument_eq_ok :
    limitArgument ts i = .ok n ↔ ts.HasValue i ∧ n = .leaf .operand i i := by
  have hvalue : (ts.kind i = .number && (unsigned? (ts.token i).text).isSome) = true ↔
      ts.HasValue i := by
    simp only [Bool.and_eq_true, decide_eq_true_eq, Option.isSome_iff_exists, unsigned?_eq_some,
      TokenList.HasValue, TokenList.NumberAt, exists_and_left]
  unfold limitArgument
  split
  next h => simp [hvalue.mp h, eq_comm]
  next h => exact iff_of_false nofun fun hn => h (hvalue.mpr hn.1)

/-- A second argument is read just if a comma or `OFFSET` announces it. -/
theorem limitClause_eq_ok : limitClause ts i = .ok n ↔ ts.kind i = .limit ∧ ts.HasValue (i + 1) ∧
    (ts.kind (i + 2) ∈ [TokenKind.comma, .offset] ∧ ts.HasValue (i + 3) ∧
        n = ⟨.limit, i, i + 3, [.leaf .operand (i + 1) (i + 1), .leaf .operand (i + 3) (i + 3)]⟩ ∨
      ts.kind (i + 2) ∉ [TokenKind.comma, .offset] ∧
        n = ⟨.limit, i, i + 1, [.leaf .operand (i + 1) (i + 1)]⟩) := by
  have hp (k : TokenKind) :
      (k == .comma || k == .offset) = true ↔ k ∈ [TokenKind.comma, .offset] := by simp
  simp only [limitClause, offsetArgument, bind_eq_ok, chain_eq_ok, many_succ_eq_ok, many_zero_eq_ok,
    announced_eq_none, announced_eq_some, limitArgument_eq_ok, hp]
  constructor
  · rintro ⟨_, hk, s, ⟨_, _, ⟨hv, rfl⟩, h, rfl⟩, he⟩
    refine ⟨expect_eq_ok.mp hk, hv, ?_⟩
    rcases h with ⟨hn, rfl⟩ | ⟨_, _, ⟨ho, _, ⟨hv', rfl⟩, rfl⟩, rfl, rfl⟩
    · exact .inr ⟨hn, (Except.ok.inj he).symm⟩
    · exact .inl ⟨ho, hv', (Except.ok.inj he).symm⟩
  · rintro ⟨hk, hv, ⟨ho, hv', rfl⟩ | ⟨hn, rfl⟩⟩
    · exact ⟨(), expect_eq_ok.mpr hk, _, ⟨_, _, ⟨hv, rfl⟩,
        .inr ⟨_, _, ⟨ho, _, ⟨hv', rfl⟩, rfl⟩, rfl, rfl⟩, rfl⟩, rfl⟩
    · exact ⟨(), expect_eq_ok.mpr hk, _, ⟨_, _, ⟨hv, rfl⟩, .inl ⟨hn, rfl⟩, rfl⟩, rfl⟩

theorem limitClause_error_iff (hk : ts.kind i = .limit) : (∃ f, limitClause ts i = .error f) ↔
    ¬ts.HasValue (i + 1) ∨
      ts.kind (i + 2) ∈ [TokenKind.comma, .offset] ∧ ¬ts.HasValue (i + 3) := by
  have hok : (∃ n, limitClause ts i = .ok n) ↔ ts.HasValue (i + 1) ∧
      (ts.kind (i + 2) ∈ [TokenKind.comma, .offset] → ts.HasValue (i + 3)) := by
    simp only [limitClause_eq_ok, hk, true_and, exists_and_left, exists_or, exists_eq, and_true]
    by_cases ho : ts.kind (i + 2) ∈ [TokenKind.comma, .offset] <;> simp [ho]
  cases h : limitClause ts i with
  | ok n =>
    obtain ⟨hv, hv'⟩ := hok.mp ⟨n, h⟩
    refine iff_of_false nofun ?_
    rintro (hn | ⟨ho, hn⟩)
    · exact hn hv
    · exact hn (hv' ho)
  | error f =>
    refine iff_of_true ⟨f, rfl⟩ ?_
    by_cases hv : ts.HasValue (i + 1)
    · refine .inr (Classical.not_imp.mp fun hv' => ?_)
      obtain ⟨n, hn⟩ := hok.mpr ⟨hv, hv'⟩
      cases h.symm.trans hn
    · exact .inl hv

end Rule

end SqlSelect
