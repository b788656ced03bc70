import SqlSelect.Proofs.Covering
import SqlSelect.Proofs.Metered
import SqlSelect.Proofs.QueryLayout

namespace SqlSelect

/-- What a routine comes to without a watch. -/
def Routine.plain (ts : TokenList) (nest : Nest) : Routine → Metered.Rule
  | .part p => fun i => Metered.wrap (p.rule ts nest i)
  | .term => fun i => Metered.lift (Rule.term ts nest i)
  | .signedOperand => fun i => Metered.wrap (Rule.signedOperand ts nest i)
  | .operand => fun i => Metered.wrap (Rule.operand ts nest i)
  | .valueList => fun i => Metered.wrap (Rule.valueList ts nest i)
  | .orderedColumn => fun i => Metered.wrap (Rule.orderedColumn ts i)

namespace Metered

/-- The calls that a routine may make from an index on come to what they come to without a
watch. -/
structure Calls.Follow (ts : TokenList) (nest : Nest) (r : Routine) (start : Nat)
    (calls : Calls) : Prop where
  same {r' : Routine} {j : Nat} : r'.rank < r.rank → start ≤ j →
    calls.same r' j = r'.plain ts nest j
  inside {blame j : Nat} {e : Enclosed} : start < j → calls.inside blame e j = wrap (nest blame e j)

section

variable {α β γ δ : Type}

theorem carry_bind {form : α → β} {form' : γ → δ} {x : Except Fault α} {f : α → Except Fault γ}
    {g : β → Metered δ} (h : ∀ a, x = .ok a → g (form a) = carry form' (f a)) :
    (carry form x >>= g) = carry form' (x >>= f) := by
  cases x with
  | error f => rfl
  | ok a => exact h a rfl

end

variable {ts : TokenList} {start : Nat} {first : SqlSelect.Rule} {gfirst more : Rule} {gs : Step}
variable {step : Nat → Except Fault (Option Stretch)}

/-- What bounds the repetitions is not what ends them. -/
theorem loop_eq (hstep : ∀ last, start ≤ last → gs last = lift (step last))
    (hs : ∀ last s, step last = .ok (some s) → ts.Covers (last + 1) s.last) {bound last : Nat}
    (hl : start ≤ last) (hlt : last < ts.size) (hb : ts.size ≤ last + bound) :
    loop ts gs last = lift (many step bound last) := by
  induction bound generalizing last with
  | zero => omega
  | succ bound ih =>
    rw [loop, many, hstep last hl]
    refine carry_bind fun o ho => ?_
    cases o with
    | none => rfl
    | some s =>
      have hc := hs last s ho
      have hle := hc.le
      dsimp only
      rw [if_pos ⟨hle, hc.last_lt⟩, ih (by omega) hc.last_lt (by omega)]
      exact carry_bind fun _ _ => rfl

theorem once_eq {last : Nat} (h : gs last = lift (step last)) :
    once gs last = lift (many step 1 last) := by
  rw [once, many, h]
  refine carry_bind fun o _ => ?_
  cases o with
  | none => rfl
  | some s =>
    have hs : (⟨s.nodes ++ [], s.last⟩ : Stretch) = s := by rw [List.append_nil]
    exact congrArg Except.ok hs.symm

theorem followed_eq {bound : Nat} (hf : gfirst start = wrap (first start))
    (hm : ∀ n, first start = .ok n → more n.last = lift (many step bound n.last)) :
    followed gfirst more start = lift (chain bound first step start) := by
  rw [followed, chain, hf]
  refine carry_bind fun n hn => ?_
  rw [show more (Stretch.ofNode n).last = _ from hm n hn]
  exact carry_bind fun _ _ => rfl

theorem followed_loop_eq (hf : gfirst start = wrap (first start))
    (hc : ∀ n, first start = .ok n → ts.Covers start n.last)
    (hstep : ∀ last, start ≤ last → gs last = lift (step last))
    (hs : ∀ last s, step last = .ok (some s) → ts.Covers (last + 1) s.last) :
    followed gfirst (loop ts gs) start = lift (chain ts.size first step start) :=
  followed_eq hf fun n hn => loop_eq hstep hs (hc n hn).le (hc n hn).last_lt (Nat.le_add_left _ _)

theorem announced_eq {p : TokenKind → Bool} {rule : SqlSelect.Rule} {grule : Rule} {last : Nat}
    (h : grule (last + 1) = wrap (rule (last + 1))) :
    announced ts p grule last = lift (SqlSelect.announced ts p rule last) := by
  unfold announced SqlSelect.announced
  split
  next =>
    rw [h]
    exact carry_bind fun _ _ => rfl
  next => rfl

theorem commaList_eq {rule : SqlSelect.Rule} {grule : Rule}
    (h : ∀ j, start ≤ j → grule j = wrap (rule j))
    (hc : ∀ {i n}, rule i = .ok n → ts.Covers i n.last) :
    commaList ts grule start = lift (SqlSelect.commaList ts rule start) :=
  followed_loop_eq (h start (Nat.le_refl start)) (fun _ => hc)
    (fun last hl => announced_eq (h (last + 2) (by omega)))
    fun _ _ => announced_after_covers hc rfl

theorem aliased_eq (h : gfirst start = wrap (first start)) :
    aliased ts gfirst start = lift (Rule.aliased ts first start) :=
  followed_eq h fun _ _ => once_eq rfl

variable {nest : Nest} {r : Routine} {calls : Calls} {i : Nat}

theorem closing_eq (hc : calls.Follow ts nest r i) (hr : 0 < r.rank) {j : Nat} (hj : i ≤ j) :
    closing calls j = lift (SqlSelect.closing ts j) := by
  have hs : calls.same (.part .parenthesis) j = wrap (Rule.parenthesis ts j) := hc.same hr hj
  rw [closing, hs, closing_eq_parenthesis]
  exact carry_bind fun _ _ => rfl

theorem fill_eq (hc : calls.Follow ts nest r i) {blame j close : Nat} {e : Enclosed}
    {x : Expectation} (hj : i < j) :
    fill calls blame e j close x = wrap (SqlSelect.fill nest blame e j close x) := by
  rw [fill, SqlSelect.fill, hc.inside hj]
  refine carry_bind fun n _ => ?_
  dsimp only [Stretch.ofNode]
  split
  next => rfl
  next => rfl

theorem function_eq (hc : calls.Follow ts nest (.part .function) i) :
    function ts calls i = wrap (Rule.function ts nest i) := by
  unfold function Rule.function
  split
  next => rfl
  next =>
    refine carry_bind fun _ _ => ?_
    rw [closing_eq hc (by decide) (Nat.le_succ i)]
    refine carry_bind fun close _ => ?_
    rw [fill_eq hc (by omega)]
    exact carry_bind fun _ _ => rfl

theorem enclosedExpression_eq (hc : calls.Follow ts nest .operand i) :
    enclosedExpression calls i = wrap (Rule.enclosedExpression ts nest i) := by
  unfold enclosedExpression Rule.enclosedExpression
  rw [closing_eq hc (by decide) (Nat.le_refl i)]
  refine carry_bind fun close _ => ?_
  rw [fill_eq hc (by omega)]
  exact carry_bind fun _ _ => rfl

theorem operand_eq (hc : calls.Follow ts nest .operand i) :
    operand ts calls i = wrap (Rule.operand ts nest i) := by
  unfold operand Rule.operand
  split
  next => rfl
  split
  next => rfl
  split
  next => exact enclosedExpression_eq hc
  split
  next => exact hc.same (by decide) (Nat.le_refl i)
  next => rfl

theorem signedOperand_eq (hc : calls.Follow ts nest .signedOperand i) :
    signedOperand ts calls i = wrap (Rule.signedOperand ts nest i) := by
  unfold signedOperand Rule.signedOperand
  split
  next => exact hc.same (by decide) (Nat.le_refl i)
  split
  next => rfl
  next =>
    rw [hc.same (by decide) (Nat.le_succ i)]
    exact carry_bind fun _ _ => rfl

theorem valueList_eq (hn : nest.Makes ts) (hc : calls.Follow ts nest .valueList i) :
    valueList ts calls i = wrap (Rule.valueList ts nest i) := by
  unfold valueList Rule.valueList
  split
  next => rfl
  next =>
    rw [closing_eq hc (by decide) (Nat.le_refl i)]
    refine carry_bind fun close _ => ?_
    rw [commaList_eq (fun j hj => hc.inside hj) (hn i .expression).covers]
    refine carry_bind fun values _ => ?_
    split
    next => rfl
    next => rfl

theorem operation_eq (hc : calls.Follow ts nest (.part .expression) i) {last : Nat}
    (hl : i ≤ last) : operation ts calls last = lift (Rule.operation ts nest last) := by
  unfold operation Rule.operation
  refine carry_bind fun o ho => ?_
  cases o with
  | none => rfl
  | some e =>
    have he : last < e := by
      rcases Rule.operatorLast_eq_some ho with ⟨_, rfl⟩ | ⟨_, rfl⟩ | ⟨_, _, rfl⟩ <;> omega
    dsimp only
    split
    next =>
      rw [hc.same (by decide) (by omega)]
      exact carry_bind fun _ _ => rfl
    next =>
      rw [hc.same (by decide) (by omega)]
      exact carry_bind fun _ _ => rfl

theorem expression_eq (hn : nest.Makes ts) (hc : calls.Follow ts nest (.part .expression) i) :
    expression ts calls i = wrap (Rule.expression ts nest i) := by
  unfold expression Rule.expression
  rw [followed_loop_eq (hc.same (by decide) (Nat.le_refl i))
    (fun _ => (Rule.signedOperand_makes hn).covers) (fun _ => operation_eq hc)
    fun _ _ h => (Rule.operation_fits hn h).covers rfl rfl]
  exact carry_bind fun _ _ => rfl

theorem enclosedCondition_eq (hc : calls.Follow ts nest .term i) {close : Nat} :
    enclosedCondition calls i close = lift (Rule.enclosedCondition nest i close) := by
  unfold enclosedCondition Rule.enclosedCondition
  rw [fill_eq hc (Nat.lt_succ_self i)]
  exact carry_bind fun _ _ => rfl

theorem plainTerm_eq (hc : calls.Follow ts nest .term i) :
    calls.same (.part .expression) i = lift (Rule.plainTerm ts nest i) := by
  have hs : calls.same (.part .expression) i = wrap (Rule.expression ts nest i) :=
    hc.same (by decide) (Nat.le_refl i)
  rw [hs, Rule.plainTerm]
  cases Rule.expression ts nest i with
  | ok => rfl
  | error => rfl

theorem term_eq (hc : calls.Follow ts nest .term i) :
    term ts calls i = lift (Rule.term ts nest i) := by
  unfold term Rule.term
  split
  next =>
    rw [closing_eq hc (by decide) (Nat.le_refl i)]
    refine carry_bind fun close _ => carry_bind fun o _ => ?_
    cases o with
    | none => exact enclosedCondition_eq hc
    | some e => exact plainTerm_eq hc
  next => exact plainTerm_eq hc

theorem connected_eq (hc : calls.Follow ts nest (.part .condition) i) {last : Nat}
    (hl : i ≤ last) : connected ts calls last = lift (Rule.connected ts nest last) := by
  unfold connected Rule.connected
  split
  next => rfl
  split
  next => rfl
  next =>
    rw [hc.same (by decide) (by omega)]
    exact carry_bind fun _ _ => rfl

theorem condition_eq (hn : nest.Makes ts) (hc : calls.Follow ts nest (.part .condition) i) :
    condition ts calls i = wrap (Rule.condition ts nest i) := by
  have hs : calls.same .term i = lift (Rule.term ts nest i) :=
    hc.same (by decide) (Nat.le_refl i)
  unfold condition Rule.condition
  rw [hs]
  refine carry_bind fun first hf => ?_
  have hcover := Rule.term_covers hn hf
  rw [loop_eq (fun _ => connected_eq hc) (fun _ _ => Rule.connected_covers hn) hcover.le
    hcover.last_lt (Nat.le_add_left _ _)]
  exact carry_bind fun _ _ => rfl

theorem conditionClause_eq {keyword : TokenKind} {k : NodeKind} (hr : 6 < r.rank)
    (hc : calls.Follow ts nest r i) : conditionClause ts calls keyword k i =
      wrap (Rule.conditionClause ts nest keyword k i) := by
  unfold conditionClause Rule.conditionClause
  refine carry_bind fun _ _ => ?_
  have hs : calls.same (.part .condition) (i + 1) = wrap (Rule.condition ts nest (i + 1)) :=
    hc.same hr (Nat.le_succ i)
  rw [hs]
  exact carry_bind fun _ _ => rfl

theorem source_eq (hc : calls.Follow ts nest (.part .source) i) :
    source ts calls i = wrap (Rule.source ts nest i) := by
  unfold source Rule.source
  split
  next => rfl
  split
  next =>
    unfold subquery Rule.subquery
    rw [closing_eq hc (by decide) (Nat.le_refl i)]
    refine carry_bind fun close _ => ?_
    rw [fill_eq hc (by omega)]
    exact carry_bind fun _ _ => rfl
  next => rfl

theorem fromClause_eq (hc : calls.Follow ts nest (.part .from) i) :
    fromClause ts calls i = wrap (Rule.fromClause ts nest i) := by
  unfold fromClause Rule.fromClause
  refine carry_bind fun _ _ => ?_
  rw [aliased_eq (hc.same (by decide) (Nat.le_succ i))]
  exact carry_bind fun _ _ => rfl

theorem joinClause_eq (hn : nest.Makes ts) (hc : calls.Follow ts nest (.part .join) i) :
    joinClause ts calls i = wrap (Rule.joinClause ts nest i) := by
  unfold joinClause Rule.joinClause
  split
  next => rfl
  next =>
    rw [aliased_eq (hc.same (by decide) (Nat.le_succ i))]
    refine carry_bind fun s hs => ?_
    have hle := ((Rule.aliased_fits (Rule.source_makes hn) hs).covers rfl rfl).le
    have hon : announced ts (· == .on) (fun on => calls.same (.part .condition) (on + 1)) s.last =
        lift (Rule.onCondition ts nest s.last) :=
      announced_eq (hc.same (by decide) (by omega))
    rw [once_eq hon]
    exact carry_bind fun _ _ => rfl

theorem orderedColumn_eq : orderedColumn ts i = wrap (Rule.orderedColumn ts i) := by
  unfold orderedColumn Rule.orderedColumn
  rw [followed_eq rfl fun _ _ => once_eq rfl]
  exact carry_bind fun _ _ => rfl

theorem columnsClause_eq {keyword : TokenKind} {k : NodeKind} (hr : 0 < r.rank)
    (hc : calls.Follow ts nest r i) : columnsClause ts calls keyword k i =
      wrap (Rule.columnsClause ts keyword k i) := by
  unfold columnsClause Rule.columnsClause
  refine carry_bind fun _ _ => ?_
  have hs (j : Nat) (hj : i + 1 ≤ j) :
      calls.same .orderedColumn j = wrap (Rule.orderedColumn ts j) := hc.same hr (by omega)
  rw [commaList_eq hs Rule.orderedColumn_makes.covers]
  exact carry_bind fun _ _ => rfl

theorem limitClause_eq : limitClause ts i = wrap (Rule.limitClause ts i) := by
  unfold limitClause Rule.limitClause
  refine carry_bind fun _ _ => ?_
  rw [followed_eq rfl fun _ _ => once_eq rfl]
  exact carry_bind fun _ _ => rfl

theorem field_eq (hc : calls.Follow ts nest (.part .field) i) :
    field ts calls i = wrap (Rule.field ts nest i) := by
  unfold field Rule.field
  rw [aliased_eq (hc.same (by decide) (Nat.le_refl i))]
  exact carry_bind fun _ _ => rfl

theorem selectClause_eq (hn : nest.Makes ts) (hc : calls.Follow ts nest (.part .select) i) :
    selectClause ts calls i = wrap (Rule.selectClause ts nest i) := by
  unfold selectClause Rule.selectClause
  refine carry_bind fun _ _ => ?_
  rw [commaList_eq (fun j hj => hc.same (by decide) (by omega)) (Rule.field_makes hn).covers]
  exact carry_bind fun _ _ => rfl

/-- Optional clauses are calls of their productions. -/
theorem clauses_eq (hn : nest.Makes ts) (hc : calls.Follow ts nest r i)
    {l : List (TokenKind × Production)}
    (hl : ∀ c ∈ l, (Routine.part c.2).rank < r.rank ∧ c.2 ≠ .parenthesis) {last : Nat}
    (hi : i ≤ last) : clauses ts calls l last =
      lift (Rule.clauses ts (l.map fun c => (c.1, c.2.rule ts nest)) last) := by
  induction l generalizing last with
  | nil => rfl
  | cons c rest ih =>
    obtain ⟨hr, hp⟩ := hl c List.mem_cons_self
    rw [List.map_cons, clauses, Rule.clauses, followed,
      once_eq (announced_eq (hc.same hr (by omega)))]
    refine carry_bind fun one ho => ?_
    have hle : last ≤ one.last := many_le (fun last s h => by
      have := ((Production.rule_makes hn hp).announced_covers h).le
      omega) ho
    rw [ih (fun c hm => hl c (List.mem_cons_of_mem _ hm)) (by omega)]
    exact carry_bind fun _ _ => rfl

theorem selectQuery_eq (hn : nest.Makes ts) (hc : calls.Follow ts nest (.part .selectQuery) i) :
    selectQuery ts calls i = wrap (Rule.selectQuery ts nest i) := by
  unfold selectQuery Rule.selectQuery
  rw [hc.same (by decide) (Nat.le_refl i)]
  refine carry_bind fun select hs => ?_
  have hcover := (Rule.selectClause_makes hn).covers hs
  have hle := hcover.le
  dsimp only [Stretch.ofNode]
  rw [hc.same (by decide) (by omega)]
  refine carry_bind fun source hf => ?_
  have hcover := hcover.append ((Rule.fromClause_makes hn).covers hf)
  dsimp only [Stretch.ofNode]
  have hjoin : ∀ last s, SqlSelect.announced ts TokenKind.isJoin (Rule.joinClause ts nest) last =
      .ok (some s) → ts.Covers (last + 1) s.last :=
    fun _ _ => (Rule.joinClause_makes hn).announced_covers
  rw [loop_eq (fun last hl => announced_eq (hc.same (by decide) (by omega))) hjoin hcover.le
    hcover.last_lt (Nat.le_add_left _ _)]
  refine carry_bind fun joins hj => ?_
  have hcover := many_covers hjoin hcover hj
  rw [clauses_eq hn hc (by decide) hcover.le]
  exact carry_bind fun _ _ => rfl

theorem arm_eq (hc : calls.Follow ts nest (.part .query) i) {union : Nat} (hu : i ≤ union) :
    arm ts calls union = wrap (Rule.arm ts nest union) := by
  unfold arm Rule.arm
  split
  next => rfl
  next => exact hc.same (by decide) (by omega)

theorem query_eq (hn : nest.Makes ts) (hc : calls.Follow ts nest (.part .query) i) :
    query ts calls i = wrap (Rule.query ts nest i) := by
  unfold query Rule.query
  rw [followed_loop_eq (hc.same (by decide) (Nat.le_refl i))
    (fun _ => (Rule.selectQuery_makes hn).covers)
    (fun last hl => announced_eq (arm_eq hc (by omega)))
    fun _ _ h => (Rule.arm_fits hn h).covers rfl rfl]
  exact carry_bind fun _ _ => rfl

theorem body_eq (hn : nest.Makes ts) (hc : calls.Follow ts nest r i) :
    body ts calls r i = r.plain ts nest i := by
  cases r with
  | part part =>
    cases part with
    | query => exact query_eq hn hc
    | selectQuery => exact selectQuery_eq hn hc
    | select => exact selectClause_eq hn hc
    | field => exact field_eq hc
    | «from» => exact fromClause_eq hc
    | source => exact source_eq hc
    | join => exact joinClause_eq hn hc
    | «where» => exact conditionClause_eq (by decide) hc
    | having => exact conditionClause_eq (by decide) hc
    | condition => exact condition_eq hn hc
    | expression => exact expression_eq hn hc
    | function => exact function_eq hc
    | parenthesis => rfl
    | groupBy => exact columnsClause_eq (by decide) hc
    | orderBy => exact columnsClause_eq (by decide) hc
    | limit => exact limitClause_eq
  | term => exact term_eq hc
  | signedOperand => exact signedOperand_eq hc
  | operand => exact operand_eq hc
  | valueList => exact valueList_eq hn hc
  | orderedColumn => exact orderedColumn_eq

end Metered

end SqlSelect
