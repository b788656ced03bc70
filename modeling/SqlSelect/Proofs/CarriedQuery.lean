import SqlSelect.Proofs.CarriedRules

namespace SqlSelect

variable {ts ts' : TokenList} {a b e i : Nat} {nest nest' : Nest} {n : Node}

namespace Rule

/-- What a stretch is found for is a node of it. -/
theorem node_carried {k : NodeKind} {f g : Nat → Except Fault Stretch} (hl : n.last ≤ e)
    (hf : ∀ s : Stretch, s.last ≤ e → f i = .ok s → g (moved a b i) = .ok (s.move a b))
    (h : (f i >>= fun s => .ok ⟨k, i, s.last, s.nodes⟩) = .ok n) :
    (g (moved a b i) >>= fun s => .ok ⟨k, moved a b i, s.last, s.nodes⟩) = .ok (n.move a b) := by
  obtain ⟨s, hs, h⟩ := bind_eq_ok.mp h
  cases h
  exact bind_eq_ok.mpr ⟨_, hf s hl hs, by rw [Node.move_mk]; rfl⟩

section

variable (hc : ts.Carries ts' a b e)

include hc

theorem expect_carried {k : TokenKind} (ha : a ≤ i) (hi : i ≤ e) (h : expect ts k i = .ok ()) :
    expect ts' k (moved a b i) = .ok () := by
  rw [expect_eq_ok, hc.kind_eq ha hi]
  exact expect_eq_ok.mp h

/-- A node that begins with a keyword. -/
theorem keyword_carried {keyword : TokenKind} {k : NodeKind} {f g : Nat → Except Fault Stretch}
    (ha : a ≤ i) (hi : i ≤ e) (hl : n.last ≤ e)
    (hf : ∀ s : Stretch, s.last ≤ e → f (i + 1) = .ok s →
      g (moved a b (i + 1)) = .ok (s.move a b))
    (h : (expect ts keyword i >>= fun _ => f (i + 1) >>= fun s =>
      .ok ⟨k, i, s.last, s.nodes⟩) = .ok n) :
    (expect ts' keyword (moved a b i) >>= fun _ => g (moved a b i + 1) >>= fun s =>
      .ok ⟨k, moved a b i, s.last, s.nodes⟩) = .ok (n.move a b) := by
  obtain ⟨_, hk, h⟩ := bind_eq_ok.mp h
  obtain ⟨s, hs, h⟩ := bind_eq_ok.mp h
  cases h
  have hs' := hf s hl hs
  rw [moved_add ha] at hs'
  exact bind_eq_ok.mpr ⟨(), expect_carried hc ha hi hk,
    bind_eq_ok.mpr ⟨_, hs', by rw [Node.move_mk]; rfl⟩⟩

theorem aliasAfter_carried : StepCarried ts ts' a b e (aliasAfter ts) (aliasAfter ts') := by
  refine ⟨fun h => (aliasAfter_fits h).covers rfl rfl,
    fun h => (aliasAfter_fits h).covers rfl rfl, fun {last o} ha hl hs => ?_⟩
  have hk {k : TokenKind} (hk : k ∉ [TokenKind.semicolon, .rightParen, .eof]) {m : Nat}
      (hm : m ≤ 2) : ts'.kind (moved a b last + m) = k ↔ ts.kind (last + m) = k := by
    rw [← moved_add ha]
    exact hc.kind_iff hk (by omega) (by omega)
  unfold aliasAfter
  simp only [hk (k := .as) (by decide) (by omega : 1 ≤ 2),
    hk (k := .literal) (by decide) (by omega : 1 ≤ 2),
    hk (k := .literal) (by decide) (by omega : 2 ≤ 2)]
  split
  next =>
    split
    next =>
      rintro ⟨⟩
      simp [Stretch.move_ofNode, Node.move_leaf, moved_add ha]
    next => exact nofun
  next =>
    split
    next =>
      rintro ⟨⟩
      simp [Stretch.move_ofNode, Node.move_leaf, moved_add ha]
    next =>
      rintro ⟨⟩
      rfl

theorem columnName_carried : (columnName ts).Carried ts ts' a b e (columnName ts') := by
  refine ⟨columnName_makes.covers, columnName_makes.covers, fun {i n} ha hi hl => ?_⟩
  unfold columnName
  rw [hc.kind_eq ha hi]
  split
  next =>
    rintro ⟨⟩
    rw [hc.nameLast ha hi, Node.move_leaf]
  next => exact nofun

theorem direction_carried : StepCarried ts ts' a b e (direction ts) (direction ts') := by
  refine ⟨fun h => (direction_fits h).covers rfl rfl, fun h => (direction_fits h).covers rfl rfl,
    fun {last o} ha hl hs => ?_⟩
  have hk := hc.test (p := fun k => decide (k = .asc) || decide (k = .desc)) (i := last + 1)
    (by decide) (by omega) (by omega)
  unfold direction
  rw [← moved_add ha, hk]
  split
  next =>
    rintro ⟨⟩
    rw [Option.map_some, Stretch.move_ofNode, Node.move_leaf]
  next =>
    rintro ⟨⟩
    rfl

theorem orderedColumn_carried :
    (orderedColumn ts).Carried ts ts' a b e (orderedColumn ts') :=
  ⟨orderedColumn_makes.covers, orderedColumn_makes.covers, fun ha _ hl h =>
    node_carried hl (fun _ hl hs =>
      (columnName_carried hc).chain_opt (direction_carried hc) ha hl hs) h⟩

theorem columnsClause_carried {keyword : TokenKind} {k : NodeKind}
    (hk : k.layout = NodeKind.token keyword *
      .separated (NodeKind.role .column) (NodeKind.token .comma)) :
    (columnsClause ts keyword k).Carried ts ts' a b e (columnsClause ts' keyword k) :=
  ⟨(columnsClause_makes hk).covers, (columnsClause_makes hk).covers, fun ha hi hl h =>
    keyword_carried hc ha hi hl (fun _ hl hs =>
      (orderedColumn_carried hc).commaList hc (by omega) hl hs) h⟩

theorem limitArgument_carried :
    (limitArgument ts).Carried ts ts' a b e (limitArgument ts') := by
  refine ⟨limitArgument_makes.covers, limitArgument_makes.covers, fun {i n} ha hi hl => ?_⟩
  unfold limitArgument
  rw [hc.kind_eq ha hi, hc.text_eq ha hi]
  split
  next =>
    rintro ⟨⟩
    rfl
  next => exact nofun

theorem limitClause_carried : (limitClause ts).Carried ts ts' a b e (limitClause ts') :=
  have hoffset := (limitArgument_carried hc).announced_after hc
    (p := fun k : TokenKind => k == .comma || k == .offset) (by decide)
  ⟨limitClause_makes.covers, limitClause_makes.covers, fun ha hi hl h =>
    keyword_carried hc ha hi hl (fun _ hl hs =>
      (limitArgument_carried hc).chain_opt hoffset (by omega) hl hs) h⟩

variable (hn : nest.Carried ts ts' a b e nest')

include hn

theorem subquery_carried : (subquery ts nest).Carried ts ts' a b e (subquery ts' nest') := by
  refine ⟨(subquery_makes hn.here).covers, (subquery_makes hn.there).covers,
    fun {i n} ha hi hl h => ?_⟩
  obtain ⟨close, n, rfl, _, h⟩ := hn.enclosed hc
    (fun close n => ⟨.source, moved a b i, close, [n]⟩) (moved a b i) ha
    (fun close n hy => by rw [hy] at hl; exact hl) h
  rw [Node.move_mk, List.map_singleton]
  exact h

theorem source_carried : (source ts nest).Carried ts ts' a b e (source ts' nest') := by
  refine ⟨(source_makes hn.here).covers, (source_makes hn.there).covers,
    fun {i n} ha hi hl => ?_⟩
  unfold source
  rw [hc.kind_eq ha hi]
  split
  next =>
    rintro ⟨⟩
    rw [hc.nameLast ha hi, Node.move_leaf]
  split
  next => exact (subquery_carried hc hn).carried ha hi hl
  next => exact nofun

theorem fromClause_carried :
    (fromClause ts nest).Carried ts ts' a b e (fromClause ts' nest') :=
  ⟨(fromClause_makes hn.here).covers, (fromClause_makes hn.there).covers, fun ha hi hl h =>
    keyword_carried hc ha hi hl (fun _ hl hs =>
      (source_carried hc hn).chain_opt (aliasAfter_carried hc) (by omega) hl hs) h⟩

theorem joinClause_carried :
    (joinClause ts nest).Carried ts ts' a b e (joinClause ts' nest') := by
  refine ⟨(joinClause_makes hn.here).covers, (joinClause_makes hn.there).covers,
    fun {i n} ha hi hl => ?_⟩
  unfold joinClause
  rw [hc.kind_eq ha hi]
  split
  next => exact nofun
  next =>
    intro h
    obtain ⟨s, hs, h⟩ := bind_eq_ok.mp h
    obtain ⟨on, ho, h⟩ := bind_eq_ok.mp h
    cases h
    have hl : on.last ≤ e := hl
    have hon := (condition_carried hc hn).announced_after hc (p := (· == .on)) (by decide)
    have hle := hon.last_le ho
    have hcover := (aliased_fits (source_makes hn.here) hs).covers rfl rfl
    have hle' := hcover.le
    have hs' := (source_carried hc hn).chain_opt (aliasAfter_carried hc) (by omega)
      (by omega) hs
    rw [moved_add ha] at hs'
    have ho' := hon.many (by omega) ho hl
    exact bind_eq_ok.mpr ⟨_, hs', bind_eq_ok.mpr ⟨_, ho', by simp [Node.move_mk, Stretch.move]⟩⟩

theorem conditionClause_carried {keyword : TokenKind} {k : NodeKind}
    (hk : k.layout = NodeKind.token keyword * NodeKind.child .condition) :
    (conditionClause ts nest keyword k).Carried ts ts' a b e
      (conditionClause ts' nest' keyword k) := by
  refine ⟨(conditionClause_makes hn.here hk).covers, (conditionClause_makes hn.there hk).covers,
    fun {i n} ha hi hl h => ?_⟩
  obtain ⟨_, he, h⟩ := bind_eq_ok.mp h
  obtain ⟨c, hcond, h⟩ := bind_eq_ok.mp h
  cases h
  have hl : c.last ≤ e := hl
  have hcarry := condition_carried hc hn
  have hle := (hcarry.here hcond).le
  have hcond' := hcarry.carried (by omega) (by omega) hl hcond
  rw [moved_add ha] at hcond'
  exact bind_eq_ok.mpr ⟨(), expect_carried hc ha hi he,
    bind_eq_ok.mpr ⟨_, hcond', by simp [Node.move_mk]⟩⟩

theorem field_carried : (field ts nest).Carried ts ts' a b e (field ts' nest') :=
  ⟨(field_makes hn.here).covers, (field_makes hn.there).covers, fun ha _ hl h =>
    node_carried hl (fun _ hl hs =>
      (expression_carried hc hn).chain_opt (aliasAfter_carried hc) ha hl hs) h⟩

theorem selectClause_carried :
    (selectClause ts nest).Carried ts ts' a b e (selectClause ts' nest') :=
  ⟨(selectClause_makes hn.here).covers, (selectClause_makes hn.there).covers, fun ha hi hl h =>
    keyword_carried hc ha hi hl (fun _ hl hs =>
      (field_carried hc hn).commaList hc (by omega) hl hs) h⟩

end

def ClausesCarried (ts ts' : TokenList) (a b e : Nat) (cs cs' : List (TokenKind × Rule)) : Prop :=
  ∀ last s, a ≤ last → clauses ts cs last = .ok s →
    last ≤ s.last ∧ (s.last ≤ e → clauses ts' cs' (moved a b last) = .ok (s.move a b))

theorem clauses_nil_carried : ClausesCarried ts ts' a b e [] [] := by
  rintro last s _ ⟨⟩
  exact ⟨Nat.le_refl last, fun _ => rfl⟩

theorem clauses_cons_carried (hc : ts.Carries ts' a b e) {keyword : TokenKind}
    (hk : keyword ∉ [TokenKind.semicolon, .rightParen, .eof]) {rule rule' : Rule}
    (hr : rule.Carried ts ts' a b e rule') {cs cs' : List (TokenKind × Rule)}
    (hcs : ClausesCarried ts ts' a b e cs cs') :
    ClausesCarried ts ts' a b e ((keyword, rule) :: cs) ((keyword, rule') :: cs') := by
  intro last s ha h
  obtain ⟨one, ho, h⟩ := bind_eq_ok.mp h
  obtain ⟨more, hm, h⟩ := bind_eq_ok.mp h
  cases h
  have hne : keyword ≠ .semicolon ∧ keyword ≠ .rightParen ∧ keyword ≠ .eof := by simpa using hk
  have hp : ∀ k ∈ [TokenKind.semicolon, .rightParen], (k == keyword) = (.eof == keyword) := by
    simp [hne.1.symm, hne.2.1.symm, beq_false_of_ne hne.2.2.symm]
  have hstep := hr.announced hc (p := (· == keyword)) hp
  have hle := hstep.last_le ho
  obtain ⟨hle', hm'⟩ := hcs one.last more (by omega) hm
  refine ⟨Nat.le_trans hle hle', fun hl => ?_⟩
  have hl : more.last ≤ e := hl
  have ho' := hstep.many ha ho (by omega)
  exact bind_eq_ok.mpr ⟨_, ho', bind_eq_ok.mpr ⟨_, hm' hl, by simp [Stretch.move]⟩⟩

section

variable (hc : ts.Carries ts' a b e) (hn : nest.Carried ts ts' a b e nest')

include hc hn

theorem optionalClauses_carried :
    ClausesCarried ts ts' a b e (optionalClauses ts nest) (optionalClauses ts' nest') :=
  clauses_cons_carried hc (by decide) (conditionClause_carried hc hn rfl) <|
    clauses_cons_carried hc (by decide) (columnsClause_carried hc rfl) <|
    clauses_cons_carried hc (by decide) (conditionClause_carried hc hn rfl) <|
    clauses_cons_carried hc (by decide) (columnsClause_carried hc rfl) <|
    clauses_cons_carried hc (by decide) (limitClause_carried hc) clauses_nil_carried

theorem selectQuery_carried :
    (selectQuery ts nest).Carried ts ts' a b e (selectQuery ts' nest') := by
  refine ⟨(selectQuery_makes hn.here).covers, (selectQuery_makes hn.there).covers,
    fun {i n} ha hi hl h => ?_⟩
  obtain ⟨select, hs, h⟩ := bind_eq_ok.mp h
  obtain ⟨source, hf, h⟩ := bind_eq_ok.mp h
  obtain ⟨joins, hj, h⟩ := bind_eq_ok.mp h
  obtain ⟨rest, hr, h⟩ := bind_eq_ok.mp h
  cases h
  have hl : rest.last ≤ e := hl
  have hselect := selectClause_carried hc hn
  have hfrom := fromClause_carried hc hn
  have hjoin := (joinClause_carried hc hn).announced hc (p := TokenKind.isJoin) (by decide)
  have hle₁ := (hselect.here hs).le
  have hle₂ := (hfrom.here hf).le
  have hle₃ := hjoin.last_le hj
  obtain ⟨hle₄, hr'⟩ := optionalClauses_carried hc hn joins.last rest (by omega) hr
  have hs' := hselect.carried ha hi (by omega) hs
  have hf' := hfrom.carried (by omega) (by omega) (by omega) hf
  have hcover := hfrom.there hf'
  rw [Node.move_last] at hcover
  have hj' := hjoin.loop (by omega) (hfrom.here hf) hcover hj (by omega)
  rw [moved_add (by omega), ← Node.move_last] at hf'
  rw [← Node.move_last] at hj'
  exact bind_eq_ok.mpr ⟨_, hs', bind_eq_ok.mpr ⟨_, hf', bind_eq_ok.mpr ⟨_, hj',
    bind_eq_ok.mpr ⟨_, hr' hl, by simp [Node.move_mk, Stretch.move]⟩⟩⟩⟩

theorem arm_carried : StepCarried ts ts' a b e (announced ts (· == .union) (arm ts nest))
    (announced ts' (· == .union) (arm ts' nest')) := by
  have hquery := selectQuery_carried hc hn
  refine announced_carried hc (by decide) (fun _ _ h => (arm_fits hn.here h).covers rfl rfl)
    (fun _ _ h => (arm_fits hn.there h).covers rfl rfl) fun last n ha _ hl h => ?_
  unfold arm at h ⊢
  split at h
  next => cases h
  next hk =>
    have hle := (hquery.here h).le
    rw [← moved_add (by omega), hc.kind_eq (by omega) (by omega), if_neg hk]
    exact hquery.carried (by omega) (by omega) hl h

theorem query_carried : (query ts nest).Carried ts ts' a b e (query ts' nest') :=
  ⟨(query_makes hn.here).covers, (query_makes hn.there).covers, fun ha _ hl h =>
    node_carried hl (fun _ hl hs =>
      (selectQuery_carried hc hn).chain_loop (arm_carried hc hn) ha hl hs) h⟩

end

end Rule

theorem nested_carried (hc : ts.Carries ts' a b e) (depth : Nat) :
    (nested ts depth).Carried ts ts' a b e (nested ts' depth) := by
  induction depth with
  | zero => exact ⟨nested_makes ts 0, nested_makes ts' 0, fun _ _ _ => nofun⟩
  | succ depth ih =>
    refine ⟨nested_makes ts _, nested_makes ts' _, fun {i _ _ enclosed n} ha hi hl h => ?_⟩
    cases enclosed with
    | selectQuery => exact (Rule.selectQuery_carried hc ih).carried ha hi hl h
    | condition => exact (Rule.condition_carried hc ih).carried ha hi hl h
    | expression => exact (Rule.expression_carried hc ih).carried ha hi hl h

/-- A part that ends by `e` is found wherever its tokens stand, whatever stands before them and
from the third token after them on. -/
theorem Production.run_carried (hc : ts.Carries ts' a b e) (part : Production) {depth : Nat}
    (ha : a ≤ i) (hi : i ≤ e) (hl : n.last ≤ e) (h : part.run ts depth i = .ok n) :
    part.run ts' depth (moved a b i) = .ok (n.move a b) := by
  have hn := nested_carried hc depth
  cases part with
  | query => exact (Rule.query_carried hc hn).carried ha hi hl h
  | selectQuery => exact (Rule.selectQuery_carried hc hn).carried ha hi hl h
  | select => exact (Rule.selectClause_carried hc hn).carried ha hi hl h
  | field => exact (Rule.field_carried hc hn).carried ha hi hl h
  | «from» => exact (Rule.fromClause_carried hc hn).carried ha hi hl h
  | source => exact (Rule.source_carried hc hn).carried ha hi hl h
  | join => exact (Rule.joinClause_carried hc hn).carried ha hi hl h
  | «where» => exact (Rule.conditionClause_carried hc hn rfl).carried ha hi hl h
  | having => exact (Rule.conditionClause_carried hc hn rfl).carried ha hi hl h
  | condition => exact (Rule.condition_carried hc hn).carried ha hi hl h
  | expression => exact (Rule.expression_carried hc hn).carried ha hi hl h
  | function => exact (Rule.function_carried hc hn).carried ha hi hl h
  | parenthesis =>
    obtain ⟨close, hclose, h⟩ := bind_eq_ok.mp h
    cases h
    exact bind_eq_ok.mpr ⟨_, hc.closing ha hl hclose, rfl⟩
  | groupBy => exact (Rule.columnsClause_carried hc rfl).carried ha hi hl h
  | orderBy => exact (Rule.columnsClause_carried hc rfl).carried ha hi hl h
  | limit => exact (Rule.limitClause_carried hc).carried ha hi hl h

end SqlSelect
