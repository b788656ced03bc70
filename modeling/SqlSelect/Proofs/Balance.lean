import SqlSelect.Proofs.LongestMatch

namespace SqlSelect

/-- Among some tokens as many parentheses close as open, and never more have closed than opened. -/
structure WellNested (tokens : List Token) : Prop where
  balanced : Balanced tokens
  prefix_le (m : Nat) : (tokens.take m).countP (·.kind == .rightParen) ≤
    (tokens.take m).countP (·.kind == .leftParen)

namespace TokenList

variable {ts : TokenList} {f : Phrase} {i j k m c start : Nat}

theorem count_trans (l : TokenKind) (hij : i ≤ j) (hjk : j ≤ k) :
    ts.count l i k = ts.count l i j + ts.count l j k := by
  rw [count, ← slice_append hij hjk, List.countP_append]
  rfl

theorem count_succ (l : TokenKind) (h : i ≤ j) :
    ts.count l i (j + 1) = ts.count l i j + if ts.kind j = l then 1 else 0 := by
  rw [count_trans l h (Nat.le_succ j), count_step l (Nat.lt_succ_self j), count_self, Nat.zero_add]

/-- The tokens from `i` up to `j`, without the one at `j`, are well nested. -/
structure Nests (ts : TokenList) (i j : Nat) : Prop where
  le : i ≤ j
  count_eq : ts.count .leftParen i j = ts.count .rightParen i j
  count_le (m : Nat) : i ≤ m → m ≤ j → ts.count .rightParen i m ≤ ts.count .leftParen i m

namespace Nests

theorem refl (ts : TokenList) (i : Nat) : ts.Nests i i := by
  refine ⟨Nat.le_refl i, by rw [count_self, count_self], fun m hi hm => ?_⟩
  rw [Nat.le_antisymm hm hi, count_self]
  exact Nat.zero_le _

theorem trans (h : ts.Nests i j) (hk : ts.Nests j k) : ts.Nests i k := by
  have hij := h.le
  have hjk := hk.le
  refine ⟨Nat.le_trans hij hjk, ?_, fun m hi hm => ?_⟩
  · rw [count_trans _ hij hjk, count_trans _ hij hjk, h.count_eq, hk.count_eq]
  · by_cases hj : m ≤ j
    · exact h.count_le m hi hj
    · have := h.count_eq
      have := hk.count_le m (by omega) hm
      rw [count_trans _ hij (show j ≤ m by omega), count_trans _ hij (show j ≤ m by omega)]
      omega

theorem token (h : ts.kind i ∉ [TokenKind.leftParen, .rightParen]) : ts.Nests i (i + 1) := by
  simp only [List.mem_cons, List.not_mem_nil, or_false, not_or] at h
  have hcount (l : TokenKind) (hl : ts.kind i ≠ l) : ts.count l i (i + 1) = 0 := by
    rw [count_succ l (Nat.le_refl i), count_self, if_neg hl]
  refine ⟨Nat.le_succ i, by rw [hcount _ h.1, hcount _ h.2], fun m hi hm => ?_⟩
  rcases Nat.lt_or_eq_of_le hm with hlt | rfl
  · obtain rfl : m = i := by omega
    rw [count_self]
    exact Nat.zero_le _
  · rw [hcount _ h.2]
    exact Nat.zero_le _

/-- Around what is well nested, one parenthesis opens and one closes. -/
theorem parenthesized (ho : ts.kind i = .leftParen) (h : ts.Nests (i + 1) j)
    (hc : ts.kind j = .rightParen) : ts.Nests i (j + 1) := by
  have hij := h.le
  have hopen (m : Nat) (hm : i < m) : ts.count .leftParen i m = ts.count .leftParen (i + 1) m + 1 ∧
      ts.count .rightParen i m = ts.count .rightParen (i + 1) m := by
    rw [count_step _ hm, count_step _ hm]
    simp [ho]
  have heq := h.count_eq
  have hleft : ts.count .leftParen (i + 1) (j + 1) = ts.count .leftParen (i + 1) j := by
    simp [count_succ _ hij, hc]
  have hright : ts.count .rightParen (i + 1) (j + 1) = ts.count .rightParen (i + 1) j + 1 := by
    simp [count_succ _ hij, hc]
  refine ⟨by omega, ?_, fun m hi hm => ?_⟩
  · have := hopen (j + 1) (by omega)
    omega
  · rcases Nat.lt_or_eq_of_le hi with hlt | rfl
    · have := hopen m hlt
      rcases Nat.lt_or_eq_of_le hm with hlt | rfl
      · have := h.count_le m (by omega) (by omega)
        omega
      · omega
    · rw [count_self]
      exact Nat.zero_le _

theorem wellNested (h : ts.Nests i j) : WellNested (ts.slice i j) := by
  have hlen : (ts.slice i j).length = j - i := by simp [slice]
  have hle := h.le
  refine ⟨h.count_eq, fun m => ?_⟩
  by_cases hm : i + m ≤ j
  · rw [take_slice hm]
    exact h.count_le (i + m) (by omega) hm
  · rw [List.take_of_length_le (by omega)]
    exact Nat.le_of_eq h.count_eq.symm

end Nests

/-- Every phrase of the grammar is well nested, since parentheses stand in it in pairs only. -/
theorem Spells.nests (h : ts.Spells f i j) (hf : f.bracketed = true) : ts.Nests i j := by
  induction h with
  | @one t i _ h =>
    obtain ⟨ht, rfl⟩ := h
    have hk := of_decide_eq_true (List.all_eq_true.mp hf _ ht.mem_kinds)
    exact .token (kind_not_mem_mono (by decide) hk)
  | @part n _ _ _ ih => exact ih n.bracketed_rule
  | between ha _ hb ih =>
    obtain ⟨ha, rfl⟩ := ha
    obtain ⟨hb, rfl⟩ := hb
    simp only [Form.bracketed, Bool.and_eq_true, decide_eq_true_eq] at hf
    have ho := ha.mem_kinds
    have hc := hb.mem_kinds
    rw [hf.1.1] at ho
    rw [hf.1.2] at hc
    exact .parenthesized (List.mem_singleton.mp ho) (ih hf.2) (List.mem_singleton.mp hc)
  | seq _ _ ihf ihg =>
    have hf := (Bool.and_eq_true _ _).mp hf
    exact (ihf hf.1).trans (ihg hf.2)
  | left _ ih => exact ih ((Bool.and_eq_true _ _).mp hf).1
  | right _ ih => exact ih ((Bool.and_eq_true _ _).mp hf).2
  | skip | stop => exact .refl ts _
  | take _ ih => exact ih hf
  | step _ _ ihf ihs => exact (ihf hf).trans (ihs hf)

theorem closes_of_closing (h : closing ts start = .ok c) : ts.Closes 0 (start + 1) c := by
  have ho := (closing_kinds h).1
  unfold closing at h
  rw [if_pos ho] at h
  exact closes_of_closeFrom h

theorem nests_of_closing (h : closing ts start = .ok c) : ts.Nests start (c + 1) := by
  have hc := closes_of_closing h
  obtain ⟨hopen, hclose⟩ := closing_kinds h
  refine .parenthesized hopen ⟨hc.first_le, ?_, fun m hi hm => ?_⟩ hclose
  · have heq := hc.count_eq
    rw [count_succ _ hc.first_le, count_succ _ hc.first_le, hclose, if_pos rfl,
      if_neg (by decide)] at heq
    omega
  · have := hc.count_le m hi hm
    omega

/-- What is well nested after a parenthesis that opens ends before that closes, and no parenthesis
closes right after it but that one. -/
theorem Nests.inside (h : ts.Nests (start + 1) (k + 1)) (hc : closing ts start = .ok c) :
    k < c ∧ (k + 1 ≠ c → ts.kind (k + 1) ≠ .rightParen) := by
  have hcloses := closes_of_closing hc
  have heq := hcloses.count_eq
  have hlt : k < c := by
    refine Nat.lt_of_not_le fun hle => ?_
    have := h.count_le (c + 1) (by have := hcloses.first_le; omega) (by omega)
    omega
  refine ⟨hlt, fun hne hk => ?_⟩
  have hle := h.le
  have hcount := hcloses.count_le (k + 2) (by omega) (by omega)
  have hbalance := h.count_eq
  rw [count_succ _ hle, count_succ _ hle, hk, if_pos rfl, if_neg (by decide)] at hcount
  omega

end TokenList

variable {ts : TokenList} {i : Nat} {n : Node} {s : Stretch}

theorem Node.All.nests (h : n.All (Node.LaidOut ts)) :
    n.All fun m => ts.Nests m.first (m.last + 1) := by
  refine h.nested.mono fun m hm => ?_
  have hs : ts.Spells m.kind.phrase m.first (m.last + 1) := hm.spells (.of m.kind) rfl
  refine hs.nests ?_
  cases m.kind <;> rfl

/-- What a rule finds is well nested, and so is a list of it. -/
theorem Rule.Makes.nests {k : NodeKind} {rule : Rule} (hr : rule.Makes ts (.of k))
    (h : rule i = .ok n) : ts.Nests i (n.last + 1) := by
  obtain ⟨_, rfl, _, hl⟩ := Stretch.Fits.role_iff.mp (hr i n h)
  exact hl.nests.root

theorem Rule.Makes.commaList_nests {k : NodeKind} {rule : Rule} (hr : rule.Makes ts (.of k))
    (h : SqlSelect.commaList ts rule i = .ok s) : ts.Nests i (s.last + 1) := by
  refine (hr.commaList h).spells.nests ?_
  cases k <;> rfl

theorem Production.run_nests {part : Production} {depth : Nat}
    (h : part.run ts depth i = .ok n) :
    n.first = i ∧ n.All fun m => ts.Nests m.first (m.last + 1) := by
  by_cases hp : part = .parenthesis
  · subst hp
    obtain ⟨close, hc, h⟩ := bind_eq_ok.mp h
    cases h
    exact ⟨rfl, .mk (TokenList.nests_of_closing hc) nofun⟩
  · obtain ⟨_, hf, _, hl⟩ := Stretch.Fits.role_iff.mp (part.run_makes hp ts depth i n h)
    exact ⟨hf, hl.nests⟩

end SqlSelect
