import SqlSelect.Proofs.MeteredRules

namespace SqlSelect

namespace Metered

variable {ts : TokenList} {limit budget depth : Nat} {r : Routine} {i : Nat}

/-- A call is charged for the ranks below its own and for all ranks of every level of parentheses
that is left. -/
theorem run_eq (h : Routine.ranks * (limit - depth) + r.rank < budget) :
    run ts limit budget depth r i = r.plain ts (nested ts (limit - depth)) i := by
  induction budget generalizing depth r i with
  | zero => omega
  | succ budget ih =>
    unfold run
    refine body_eq (nested_makes ts _) ⟨fun {r' j} hr hj => ?_, fun {blame j e} hj => ?_⟩
    · dsimp only
      rw [if_pos (by omega)]
      exact ih (by omega)
    · dsimp only
      split
      next hl =>
        rw [show limit - depth = 0 by omega]
        rfl
      next hl =>
        have hd : limit - depth = limit - (depth + 1) + 1 := by omega
        have hr := (Routine.part e.production).rank_lt_ranks
        rw [hd, Nat.mul_succ] at h
        rw [if_pos (.inl hj), ih (by omega), hd]
        rfl

-- A select list alone takes seven calls, each in the one before.
example :
    run ⟨#[⟨.select, "SELECT", ⟨1, 1⟩⟩, ⟨.literal, "a", ⟨1, 8⟩⟩], ⟨.eof, "", ⟨1, 9⟩⟩, rfl,
      by decide⟩ 0 6 0 (.part .query) 0 = .error .overrun := rfl

end Metered

namespace Parser

/-- Every part of the grammar ends, wherever it starts, as it does where loops have no bound and all
calls are watched: no turn of a loop fails to go forward, no call fails to go forward or down the
ranks, and calls do not nest deeper than all the ranks for each level of parentheses that is
allowed and once more. What stops it is a fault of the tokens, or nothing does. -/
theorem run_within_budget (p : Parser) (part : Production) (start extra : Nat) :
    let watched := Metered.run p.tokens p.options.maxDepth
      (Routine.ranks * (p.options.maxDepth + 1) + extra) 0 (.part part) start
    watched = Metered.carry .ofNode (part.run p.tokens p.options.maxDepth start) ∧
      (∀ s, watched = .ok s → ∃ n, s = .ofNode n ∧ p.run part start = .ok ⟨p.tokens, n⟩) ∧
      ∀ stop, watched = .error stop → ∃ f, stop = .fault f ∧
        p.run part start = .error (f.toError p.tokens p.options) := by
  have h : Metered.run p.tokens p.options.maxDepth
      (Routine.ranks * (p.options.maxDepth + 1) + extra) 0 (.part part) start =
        Metered.carry .ofNode (part.run p.tokens p.options.maxDepth start) := by
    have hr := (Routine.part part).rank_lt_ranks
    refine Metered.run_eq ?_
    rw [Nat.sub_zero, Nat.mul_succ]
    omega
  refine ⟨h, ?_⟩
  rw [h]
  unfold run
  cases part.run p.tokens p.options.maxDepth start with
  | ok n =>
    refine ⟨fun s hs => ⟨n, ?_, rfl⟩, nofun⟩
    cases hs
    rfl
  | error f =>
    refine ⟨nofun, fun stop hs => ⟨f, ?_, rfl⟩⟩
    cases hs
    rfl

end Parser

end SqlSelect
