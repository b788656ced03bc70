import SqlSelect.Production

namespace SqlSelect

theorem bind_eq_ok {ε α β : Type} {x : Except ε α} {f : α → Except ε β} {b : β} :
    x >>= f = .ok b ↔ ∃ a, x = .ok a ∧ f a = .ok b := by
  cases x with
  | error e => exact ⟨nofun, nofun⟩
  | ok a => exact ⟨fun h => ⟨a, rfl, h⟩, fun ⟨_, ha, hb⟩ => Except.ok.inj ha ▸ hb⟩

variable {ts : TokenList} {step : Nat → Except Fault (Option Stretch)} {s : Stretch}

theorem many_zero_eq_ok {last : Nat} : many step 0 last = .ok s ↔ s = ⟨[], last⟩ :=
  ⟨fun h => (Except.ok.inj h).symm, fun h => h ▸ rfl⟩

theorem many_succ_eq_ok {bound last : Nat} : many step (bound + 1) last = .ok s ↔
    step last = .ok none ∧ s = ⟨[], last⟩ ∨
      ∃ one more, step last = .ok (some one) ∧ many step bound one.last = .ok more ∧
        s = ⟨one.nodes ++ more.nodes, more.last⟩ := by
  rw [many, bind_eq_ok]
  constructor
  · rintro ⟨o, ho, h⟩
    cases o with
    | none => exact .inl ⟨ho, (Except.ok.inj h).symm⟩
    | some one =>
      obtain ⟨more, hm, h⟩ := bind_eq_ok.mp h
      exact .inr ⟨one, more, ho, hm, (Except.ok.inj h).symm⟩
  · rintro (⟨ho, rfl⟩ | ⟨one, more, ho, hm, rfl⟩)
    · exact ⟨none, ho, rfl⟩
    · exact ⟨some one, ho, bind_eq_ok.mpr ⟨more, hm, rfl⟩⟩

theorem many_le {bound last : Nat}
    (hs : ∀ last s, step last = .ok (some s) → last ≤ s.last) (h : many step bound last = .ok s) :
    last ≤ s.last := by
  induction bound generalizing last s with
  | zero =>
    cases many_zero_eq_ok.mp h
    exact Nat.le_refl last
  | succ bound ih =>
    rcases many_succ_eq_ok.mp h with ⟨_, rfl⟩ | ⟨one, more, ho, hm, rfl⟩
    · exact Nat.le_refl last
    · have hle : one.last ≤ more.last := ih hm
      exact Nat.le_trans (hs _ _ ho) hle

theorem chain_eq_ok {bound start : Nat} {first : Rule} : chain bound first step start = .ok s ↔
    ∃ head more, first start = .ok head ∧ many step bound head.last = .ok more ∧
      s = ⟨head :: more.nodes, more.last⟩ := by
  simp only [chain, bind_eq_ok, Except.ok.injEq, exists_and_left, @eq_comm _ _ s]

theorem expect_eq_ok {k : TokenKind} {i : Nat} : expect ts k i = .ok () ↔ ts.kind i = k := by
  unfold expect
  split
  next h => simp [h]
  next h => simp [h, Fault.expected]

theorem announced_eq_some {p : TokenKind → Bool} {rule : Rule} {last : Nat} :
    announced ts p rule last = .ok (some s) ↔
      p (ts.kind (last + 1)) = true ∧ ∃ n, rule (last + 1) = .ok n ∧ s = .ofNode n := by
  unfold announced
  split
  next h =>
    simp only [h, bind_eq_ok, Except.ok.injEq, Option.some.injEq, @eq_comm _ _ s, true_and]
  next h => simp [h]

theorem closeFrom_kind {bound i inner c : Nat} {outer : List Nat}
    (h : closeFrom ts bound i inner outer = .ok c) : ts.kind c = .rightParen := by
  induction bound generalizing i inner outer with
  | zero => cases h
  | succ bound ih =>
    unfold closeFrom at h
    split at h
    next => exact ih h
    next hk =>
      split at h
      next => cases h; exact hk
      next => exact ih h
    next => cases h
    next => exact ih h

theorem closeFrom_le {bound i inner c : Nat} {outer : List Nat}
    (h : closeFrom ts bound i inner outer = .ok c) : i ≤ c := by
  induction bound generalizing i inner outer with
  | zero => cases h
  | succ bound ih =>
    unfold closeFrom at h
    split at h
    next => exact Nat.le_of_succ_le (ih h)
    next =>
      split at h
      next =>
        cases h
        exact Nat.le_refl _
      next => exact Nat.le_of_succ_le (ih h)
    next => cases h
    next => exact Nat.le_of_succ_le (ih h)

theorem closing_lt {start close : Nat} (h : closing ts start = .ok close) : start < close := by
  unfold closing at h
  split at h
  next =>
    have hle : start + 1 ≤ close := closeFrom_le h
    exact hle
  next => cases h

theorem closing_kinds {start c : Nat} (h : closing ts start = .ok c) :
    ts.kind start = .leftParen ∧ ts.kind c = .rightParen := by
  unfold closing at h
  split at h
  next ho => exact ⟨ho, closeFrom_kind h⟩
  next => cases h

/-- The closing parenthesis is the last token of the node that both make. -/
theorem closing_eq_parenthesis (ts : TokenList) (start : Nat) :
    closing ts start = Rule.parenthesis ts start >>= fun n => .ok n.last := by
  unfold Rule.parenthesis
  cases closing ts start with
  | ok => rfl
  | error => rfl

theorem fill_eq_ok {nest : Nest} {blame start close : Nat} {e : Enclosed} {x : Expectation}
    {n : Node} : fill nest blame e start close x = .ok n ↔
      nest blame e start = .ok n ∧ n.last + 1 = close := by
  unfold fill
  rw [bind_eq_ok]
  constructor
  · rintro ⟨inner, hi, h⟩
    split at h
    next hc => cases h; exact ⟨hi, hc⟩
    next => cases h
  · rintro ⟨hi, hc⟩
    exact ⟨n, hi, by rw [if_pos hc]⟩

end SqlSelect
