import SqlSelect.Proofs.Carrying
import SqlSelect.Proofs.ConditionReading

namespace SqlSelect

variable {ts ts' : TokenList} {a b e i : Nat} {nest nest' : Nest}

namespace TokenList.Carries

variable (hc : ts.Carries ts' a b e)

include hc

theorem nameLast (ha : a ≤ i) (hi : i ≤ e) (star : Bool) :
    SqlSelect.nameLast ts' star (moved a b i) = moved a b (SqlSelect.nameLast ts star i) := by
  have hk (k : TokenKind) (hk : k ∉ [TokenKind.semicolon, .rightParen, .eof]) {m : Nat}
      (hm : m ≤ 2) : decide (ts'.kind (moved a b i + m) = k) = decide (ts.kind (i + m) = k) := by
    rw [← moved_add ha]
    exact decide_eq_decide.mpr (hc.kind_iff hk (by omega) (by omega))
  unfold SqlSelect.nameLast
  rw [hk .dot (by decide) (by omega), hk .literal (by decide) (by omega),
    hk .star (by decide) (by omega), apply_ite (moved a b), moved_add ha]

theorem operatorLast {o : Option Nat} (ha : a ≤ i) (hi : i ≤ e + 1)
    (h : Rule.operatorLast ts i = .ok o) :
    Rule.operatorLast ts' (moved a b i) = .ok (o.map (moved a b)) := by
  unfold Rule.operatorLast at h ⊢
  rw [hc.test (p := TokenKind.isOperator) (by decide) ha (by omega)]
  have hn : ts'.kind (moved a b i) = .not ↔ ts.kind i = .not :=
    hc.kind_iff (by decide) ha (by omega)
  have hm : (ts'.kind (moved a b i + 1)).isNegatable = (ts.kind (i + 1)).isNegatable := by
    rw [← moved_add ha]
    exact hc.test (p := TokenKind.isNegatable) (by decide) (by omega) (by omega)
  simp only [hn, hm]
  split at h
  next ho =>
    cases h
    exact if_pos ho
  next ho =>
    rw [if_neg ho]
    split at h
    next hn =>
      rw [if_pos hn]
      split at h
      next hm =>
        cases h
        rw [if_pos hm, Option.map_some, moved_add ha]
      next => cases h
    next hn =>
      cases h
      exact if_neg hn

end TokenList.Carries

namespace Rule

variable (hc : ts.Carries ts' a b e) (hn : nest.Carried ts ts' a b e nest')

include hc hn

theorem function_carried :
    (function ts nest).Carried ts ts' a b e (function ts' nest') := by
  refine ⟨(function_makes hn.here).covers, (function_makes hn.there).covers,
    fun {i n} ha hi hl => ?_⟩
  unfold function
  rw [hc.kind_eq ha hi]
  split
  next => exact nofun
  next =>
    intro h
    obtain ⟨_, hp, h⟩ := bind_eq_ok.mp h
    obtain ⟨close, n, rfl, hlt, h⟩ := hn.enclosed hc
      (fun close n => ⟨.function, moved a b i, close, [n]⟩) (moved a b i) (by omega)
      (fun close n hy => by rw [hy] at hl; exact hl) h
    have hl : close ≤ e := hl
    have hp' : ts'.kind (moved a b (i + 1)) = .leftParen := by
      rw [hc.kind_eq (by omega) (by omega), expect_eq_ok.mp hp]
    rw [moved_add ha] at hp' h
    exact bind_eq_ok.mpr ⟨(), expect_eq_ok.mpr hp', h⟩

theorem enclosedExpression_carried :
    (enclosedExpression ts nest).Carried ts ts' a b e (enclosedExpression ts' nest') := by
  refine ⟨(enclosedExpression_makes hn.here).covers, (enclosedExpression_makes hn.there).covers,
    fun {i n} ha hi hl h => ?_⟩
  obtain ⟨close, n, rfl, _, h⟩ := hn.enclosed hc
    (fun close n => ⟨.parenthesis, moved a b i, close, [n.collapse [.operand, .function]]⟩)
    (moved a b i) ha (fun close n hy => by rw [hy] at hl; exact hl) h
  rw [Node.move_mk, List.map_singleton, Node.move_collapse]
  exact h

theorem operand_carried : (operand ts nest).Carried ts ts' a b e (operand ts' nest') := by
  refine ⟨(operand_makes hn.here).covers, (operand_makes hn.there).covers,
    fun {i n} ha hi hl => ?_⟩
  unfold operand
  rw [hc.kind_eq ha hi]
  split
  next =>
    rintro ⟨⟩
    rw [hc.nameLast ha hi, Node.move_leaf]
  split
  next =>
    rintro ⟨⟩
    rfl
  split
  next => exact (enclosedExpression_carried hc hn).carried ha hi hl
  split
  next => exact (function_carried hc hn).carried ha hi hl
  next => exact nofun

theorem signedOperand_carried :
    (signedOperand ts nest).Carried ts ts' a b e (signedOperand ts' nest') := by
  have ho := operand_carried hc hn
  refine ⟨(signedOperand_makes hn.here).covers, (signedOperand_makes hn.there).covers,
    fun {i n} ha hi hl => ?_⟩
  unfold signedOperand
  rw [hc.kind_eq ha hi, ← moved_add ha,
    hc.test (p := TokenKind.isSign) (by decide) (Nat.le_succ_of_le ha) (by omega)]
  split
  next => exact ho.carried ha hi hl
  split
  next => exact nofun
  next =>
    intro h
    obtain ⟨inner, hinner, h⟩ := bind_eq_ok.mp h
    cases h
    have hl : inner.last ≤ e := hl
    have hle := (ho.here hinner).le
    have hinner' := ho.carried (by omega) (by omega) hl hinner
    exact bind_eq_ok.mpr ⟨_, hinner', by simp [Node.move_mk]⟩

theorem valueList_carried :
    (valueList ts nest).Carried ts ts' a b e (valueList ts' nest') := by
  refine ⟨(valueList_makes hn.here).covers, (valueList_makes hn.there).covers,
    fun {i n} ha hi hl => ?_⟩
  unfold valueList
  rw [hc.kind_eq ha hi]
  split
  next => exact nofun
  next =>
    intro h
    obtain ⟨close, hclose, h⟩ := bind_eq_ok.mp h
    obtain ⟨values, hv, h⟩ := bind_eq_ok.mp h
    split at h
    next he =>
      cases h
      have hl : close ≤ e := hl
      have hv' := (hn.inside i (moved a b i) .expression).commaList hc (by omega) (by omega) hv
      have hle := ((Makes.commaList (hn.here i .expression) hv).covers rfl rfl).le
      rw [moved_add ha] at hv'
      refine bind_eq_ok.mpr ⟨_, hc.closing ha hl hclose, bind_eq_ok.mpr ⟨_, hv', ?_⟩⟩
      have he' : moved a b values.last + 1 = moved a b close := by
        rw [← moved_add (by omega), he]
      exact (if_pos he').trans (by rw [Node.move_mk]; rfl)
    next => cases h

theorem operation_carried :
    StepCarried ts ts' a b e (operation ts nest) (operation ts' nest') := by
  refine ⟨fun h => (operation_fits hn.here h).covers rfl rfl,
    fun h => (operation_fits hn.there h).covers rfl rfl, fun {last o} ha hl hs h => ?_⟩
  obtain ⟨op, hop, h⟩ := bind_eq_ok.mp h
  have hop' := hc.operatorLast (by omega) (by omega) hop
  rw [moved_add ha] at hop'
  refine bind_eq_ok.mpr ⟨_, hop', ?_⟩
  cases op with
  | none =>
    cases h
    rfl
  | some u =>
    have hu : last + 1 ≤ u := (Stretch.Fits.role_iff.mp (operator_fits hop)).2.2.1
    have hright {rule rule' : Rule} (hr : rule.Carried ts ts' a b e rule')
        (h : (rule (u + 1) >>= fun right =>
          .ok (some ⟨[Node.leaf .operator (last + 1) u, right], right.last⟩)) = .ok o) :
        u ≤ e ∧ (rule' (moved a b u + 1) >>= fun right =>
          .ok (some ⟨[Node.leaf .operator (moved a b last + 1) (moved a b u), right], right.last⟩))
            = .ok (o.map (Stretch.move a b)) := by
      obtain ⟨right, hright, h⟩ := bind_eq_ok.mp h
      cases h
      have hl : right.last ≤ e := hs _ rfl
      have hle := (hr.here hright).le
      have hright' := hr.carried (by omega) (by omega) hl hright
      rw [moved_add (by omega)] at hright'
      refine ⟨by omega, bind_eq_ok.mpr ⟨_, hright', ?_⟩⟩
      simp [Stretch.move, Node.move_leaf, moved_add ha]
    dsimp only [Option.map_some] at h ⊢
    split at h
    next hk =>
      obtain ⟨hl, h⟩ := hright (valueList_carried hc hn) h
      rw [hc.kind_eq (by omega) hl, if_pos hk]
      exact h
    next hk =>
      obtain ⟨hl, h⟩ := hright (signedOperand_carried hc hn) h
      rw [hc.kind_eq (by omega) hl, if_neg hk]
      exact h

theorem expression_carried :
    (expression ts nest).Carried ts ts' a b e (expression ts' nest') := by
  refine ⟨(expression_makes hn.here).covers, (expression_makes hn.there).covers,
    fun {i n} ha hi hl h => ?_⟩
  obtain ⟨s, hs, h⟩ := bind_eq_ok.mp h
  cases h
  have hs' := (signedOperand_carried hc hn).chain_loop (operation_carried hc hn) ha hl hs
  exact bind_eq_ok.mpr ⟨_, hs', by rw [Node.move_mk]; rfl⟩

omit hc in
/-- A parenthesis that an expression begins with is its first operand. -/
theorem closing_le_plainTerm {close : Nat} {s : Stretch} (hclose : closing ts i = .ok close)
    (h : plainTerm ts nest i = .ok s) : close ≤ s.last := by
  obtain ⟨n, hexpression, h⟩ := bind_eq_ok.mp h
  cases h
  have hs := (expression_makes hn.here i n hexpression).spells
  exact Nat.le_of_lt_succ (closing_lt_of_spells hs hclose)

omit hc in
theorem enclosedCondition_carried {close : Nat} {s : Stretch} (ha : a ≤ i) (hl : close ≤ e)
    (h : enclosedCondition nest i close = .ok s) :
    enclosedCondition nest' (moved a b i) (moved a b close) = .ok (s.move a b) := by
  obtain ⟨inner, hfill, h⟩ := bind_eq_ok.mp h
  cases h
  have hfill' := hn.fill (moved a b i) (by omega) hl hfill
  rw [moved_add ha] at hfill'
  refine bind_eq_ok.mpr ⟨_, hfill', ?_⟩
  rw [← Node.move_collapse]
  rfl

theorem plainTerm_carried {s : Stretch} (ha : a ≤ i) (hi : i ≤ e) (hl : s.last ≤ e)
    (h : plainTerm ts nest i = .ok s) :
    plainTerm ts' nest' (moved a b i) = .ok (s.move a b) := by
  obtain ⟨n, hn', h⟩ := bind_eq_ok.mp h
  cases h
  rw [Stretch.move_ofNode]
  exact bind_eq_ok.mpr ⟨_, (expression_carried hc hn).carried ha hi hl hn', rfl⟩

theorem term_carried {s : Stretch} (ha : a ≤ i) (hi : i ≤ e) (hl : s.last ≤ e)
    (h : term ts nest i = .ok s) : term ts' nest' (moved a b i) = .ok (s.move a b) := by
  unfold term at h ⊢
  rw [hc.kind_eq ha hi]
  split at h
  next ho =>
    rw [if_pos ho]
    obtain ⟨close, hclose, h⟩ := bind_eq_ok.mp h
    obtain ⟨op, hop, h⟩ := bind_eq_ok.mp h
    have hle : close ≤ e := by
      cases op with
      | none =>
        obtain ⟨inner, _, h⟩ := bind_eq_ok.mp h
        cases h
        exact hl
      | some u => exact Nat.le_trans (closing_le_plainTerm hn hclose h) hl
    have hlt := closing_lt hclose
    have hop' := hc.operatorLast (by omega) (by omega) hop
    rw [moved_add (by omega)] at hop'
    refine bind_eq_ok.mpr ⟨_, hc.closing ha hle hclose, bind_eq_ok.mpr ⟨_, hop', ?_⟩⟩
    cases op with
    | none => exact enclosedCondition_carried hn ha hle h
    | some u => exact plainTerm_carried hc hn ha hi hl h
  next ho =>
    rw [if_neg ho]
    exact plainTerm_carried hc hn ha hi hl h

theorem connected_carried :
    StepCarried ts ts' a b e (connected ts nest) (connected ts' nest') := by
  refine ⟨connected_covers hn.here, connected_covers hn.there, fun {last o} ha hl hs => ?_⟩
  unfold connected
  have hk : (ts'.kind (moved a b last + 1)).isConnective = (ts.kind (last + 1)).isConnective := by
    rw [← moved_add ha]
    exact hc.test (p := TokenKind.isConnective) (by decide) (by omega) (by omega)
  have hb : (ts'.kind (moved a b last + 2)).beginsExpression =
      (ts.kind (last + 2)).beginsExpression := by
    rw [← moved_add ha]
    exact hc.test (p := TokenKind.beginsExpression) (by decide) (by omega) (by omega)
  rw [hk, hb]
  split
  next =>
    rintro ⟨⟩
    rfl
  split
  next => exact nofun
  next =>
    intro h
    obtain ⟨right, hr, h⟩ := bind_eq_ok.mp h
    cases h
    have hl := hs _ rfl
    dsimp only at hl
    have hle := (term_covers hn.here hr).le
    have hr' := term_carried hc hn (by omega) (by omega) hl hr
    rw [moved_add ha] at hr'
    refine bind_eq_ok.mpr ⟨_, hr', ?_⟩
    simp [Stretch.move, Node.move_leaf, moved_add ha]

theorem condition_carried :
    (condition ts nest).Carried ts ts' a b e (condition ts' nest') := by
  refine ⟨(condition_makes hn.here).covers, (condition_makes hn.there).covers,
    fun {i n} ha hi hl h => ?_⟩
  obtain ⟨first, hf, h⟩ := bind_eq_ok.mp h
  obtain ⟨more, hm, h⟩ := bind_eq_ok.mp h
  cases h
  have hl : more.last ≤ e := hl
  have hstep := connected_carried hc hn
  have hle := hstep.last_le hm
  have hcover := term_covers hn.here hf
  have hle' := hcover.le
  have hf' := term_carried hc hn ha hi (by omega) hf
  have hm' := hstep.loop (by omega) hcover (term_covers hn.there hf') hm hl
  exact bind_eq_ok.mpr ⟨_, hf', bind_eq_ok.mpr ⟨_, hm', by simp [Node.move_mk, Stretch.move]⟩⟩

end Rule

end SqlSelect
