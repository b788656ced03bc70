import SqlSelect.Proofs.Covering
import SqlSelect.Proofs.Moving
import SqlSelect.Proofs.QueryLayout

namespace SqlSelect

theorem many_of_bound {step : Nat → Except Fault (Option Stretch)} {bound bound' last : Nat}
    {s : Stretch} (hs : ∀ last s, step last = .ok (some s) → last < s.last)
    (h : many step bound last = .ok s) (hb : s.last < last + bound)
    (hb' : s.last ≤ last + bound') : many step bound' last = .ok s := by
  induction bound generalizing last bound' s with
  | zero =>
    cases many_zero_eq_ok.mp h
    exact (Nat.lt_irrefl last hb).elim
  | succ bound ih =>
    rcases many_succ_eq_ok.mp h with ⟨ho, rfl⟩ | ⟨one, more, ho, hm, rfl⟩
    · cases bound' with
      | zero => rfl
      | succ => exact many_succ_eq_ok.mpr (.inl ⟨ho, rfl⟩)
    · have hone := hs _ _ ho
      have hmore := many_le (fun last s ho => Nat.le_of_lt (hs last s ho)) hm
      dsimp only at hb hb'
      cases bound' with
      | zero => omega
      | succ bound' =>
        exact many_succ_eq_ok.mpr (.inr ⟨one, more, ho, ih hm (by omega) (by omega), rfl⟩)

/-- A rule finds in two lists what it finds, and what it finds by `e` it finds in the other list
where that is moved to. -/
structure Rule.Carried (ts ts' : TokenList) (a b e : Nat) (rule rule' : Rule) : Prop where
  here {i : Nat} {n : Node} : rule i = .ok n → ts.Covers i n.last
  there {i : Nat} {n : Node} : rule' i = .ok n → ts'.Covers i n.last
  carried {i : Nat} {n : Node} : a ≤ i → i ≤ e → n.last ≤ e → rule i = .ok n →
    rule' (moved a b i) = .ok (n.move a b)

/-- The same of a step. -/
structure StepCarried (ts ts' : TokenList) (a b e : Nat)
    (step step' : Nat → Except Fault (Option Stretch)) : Prop where
  here {last : Nat} {s : Stretch} : step last = .ok (some s) → ts.Covers (last + 1) s.last
  there {last : Nat} {s : Stretch} : step' last = .ok (some s) → ts'.Covers (last + 1) s.last
  carried {last : Nat} {o : Option Stretch} : a ≤ last → last ≤ e → (∀ s ∈ o, s.last ≤ e) →
    step last = .ok o → step' (moved a b last) = .ok (o.map (Stretch.move a b))

structure Nest.Carried (ts ts' : TokenList) (a b e : Nat) (nest nest' : SqlSelect.Nest) : Prop where
  here : Nest.Makes ts nest
  there : Nest.Makes ts' nest'
  carried {i blame blame' : Nat} {enclosed : Enclosed} {n : Node} : a ≤ i → i ≤ e → n.last ≤ e →
    nest blame enclosed i = .ok n → nest' blame' enclosed (moved a b i) = .ok (n.move a b)

section

variable {ts ts' : TokenList} {a b e i last : Nat} {rule rule' : Rule} {s : Stretch}
variable {step step' : Nat → Except Fault (Option Stretch)}

theorem StepCarried.many (h : StepCarried ts ts' a b e step step') {bound : Nat} (ha : a ≤ last)
    (hm : many step bound last = .ok s) (hl : s.last ≤ e) :
    SqlSelect.many step' bound (moved a b last) = .ok (s.move a b) := by
  have hle (last : Nat) (s : Stretch) (ho : step last = .ok (some s)) : last ≤ s.last :=
    Nat.le_of_succ_le (h.here ho).le
  induction bound generalizing last s with
  | zero =>
    cases many_zero_eq_ok.mp hm
    rfl
  | succ bound ih =>
    rcases many_succ_eq_ok.mp hm with ⟨ho, rfl⟩ | ⟨one, more, ho, hmore, rfl⟩
    · exact many_succ_eq_ok.mpr (.inl ⟨h.carried ha hl (by simp) ho, rfl⟩)
    · have h₁ : last ≤ one.last := hle _ _ ho
      have h₂ : one.last ≤ more.last := many_le hle hmore
      have hl : more.last ≤ e := hl
      have hs : ∀ s ∈ some one, s.last ≤ e := by simp; omega
      have hone := h.carried ha (by omega) hs ho
      have hmore := ih (by omega) hmore hl
      refine many_succ_eq_ok.mpr (.inr ⟨_, _, hone, hmore, ?_⟩)
      simp [Stretch.move]

theorem StepCarried.last_le (h : StepCarried ts ts' a b e step step') {bound : Nat}
    (hm : SqlSelect.many step bound last = .ok s) : last ≤ s.last :=
  many_le (fun _ _ ho => Nat.le_of_succ_le (h.here ho).le) hm

/-- A loop goes on to its end in both lists, though they are not of one size. -/
theorem StepCarried.loop (h : StepCarried ts ts' a b e step step') (ha : a ≤ last)
    (hi : ts.Covers i last) (hi' : ts'.Covers (moved a b i) (moved a b last))
    (hm : SqlSelect.many step ts.size last = .ok s) (hl : s.last ≤ e) :
    SqlSelect.many step' ts'.size (moved a b last) = .ok (s.move a b) := by
  have hle := h.last_le hm
  have hs := (many_covers (fun _ _ => h.here) hi hm).last_lt
  have hm' := h.many ha hm hl
  have hs' := (many_covers (fun _ _ => h.there) hi' hm').last_lt
  have hmove : moved a b s.last = moved a b last + (s.last - last) := by
    rw [← moved_add ha, Nat.add_sub_cancel' hle]
  refine many_of_bound (fun _ _ ho => (h.there ho).le) hm' ?_ ?_
  · show moved a b s.last < _
    omega
  · have hs' : moved a b s.last < ts'.size := hs'
    show moved a b s.last ≤ _
    omega

theorem Rule.Carried.chain (hr : rule.Carried ts ts' a b e rule')
    (h : StepCarried ts ts' a b e step step') {bound bound' : Nat} (ha : a ≤ i)
    (hb : ∀ last more, a ≤ last → ts.Covers i last → ts'.Covers (moved a b i) (moved a b last) →
      SqlSelect.many step bound last = .ok more → more.last ≤ e →
      SqlSelect.many step' bound' (moved a b last) = .ok (more.move a b))
    (hl : s.last ≤ e) (hs : SqlSelect.chain bound rule step i = .ok s) :
    SqlSelect.chain bound' rule' step' (moved a b i) = .ok (s.move a b) := by
  obtain ⟨head, more, hh, hm, rfl⟩ := chain_eq_ok.mp hs
  have hi := (hr.here hh).le
  have hle := h.last_le hm
  have hl : more.last ≤ e := hl
  have hh' := hr.carried ha (by omega) (by omega) hh
  have hcover := hr.there hh'
  rw [Node.move_last] at hcover
  refine chain_eq_ok.mpr ⟨_, more.move a b, hh', ?_, rfl⟩
  rw [Node.move_last]
  exact hb head.last more (by omega) (hr.here hh) hcover hm hl

theorem Rule.Carried.chain_opt (hr : rule.Carried ts ts' a b e rule')
    (h : StepCarried ts ts' a b e step step') (ha : a ≤ i) (hl : s.last ≤ e)
    (hs : SqlSelect.chain 1 rule step i = .ok s) :
    SqlSelect.chain 1 rule' step' (moved a b i) = .ok (s.move a b) :=
  hr.chain h ha (fun _ _ ha _ _ hm hl => h.many ha hm hl) hl hs

theorem Rule.Carried.chain_loop (hr : rule.Carried ts ts' a b e rule')
    (h : StepCarried ts ts' a b e step step') (ha : a ≤ i) (hl : s.last ≤ e)
    (hs : SqlSelect.chain ts.size rule step i = .ok s) :
    SqlSelect.chain ts'.size rule' step' (moved a b i) = .ok (s.move a b) :=
  hr.chain h ha (fun _ _ ha hi hi' hm hl => h.loop ha hi hi' hm hl) hl hs

/-- It is the same token that announces something. -/
theorem announced_carried (hc : ts.Carries ts' a b e) {p : TokenKind → Bool}
    (hp : ∀ k ∈ [TokenKind.semicolon, .rightParen], p k = p .eof)
    (here : ∀ last s, announced ts p rule last = .ok (some s) → ts.Covers (last + 1) s.last)
    (there : ∀ last s, announced ts' p rule' last = .ok (some s) → ts'.Covers (last + 1) s.last)
    (hr : ∀ last n, a ≤ last → last + 1 ≤ n.last → n.last ≤ e → rule (last + 1) = .ok n →
      rule' (moved a b (last + 1)) = .ok (n.move a b)) :
    StepCarried ts ts' a b e (announced ts p rule) (announced ts' p rule') := by
  refine ⟨here _ _, there _ _, fun {last o} ha hl hs ho => ?_⟩
  have hle (s : Stretch) (h : o = some s) : last + 1 ≤ s.last := (here last s (h ▸ ho)).le
  unfold announced at ho ⊢
  rw [← moved_add ha, hc.test hp (by omega) (by omega)]
  split at ho
  next hk =>
    obtain ⟨n, hn, ho⟩ := bind_eq_ok.mp ho
    cases ho
    have hn' := hr last n ha (hle _ rfl) (hs _ rfl) hn
    rw [if_pos hk, Option.map_some, Stretch.move_ofNode]
    exact bind_eq_ok.mpr ⟨_, hn', rfl⟩
  next hk =>
    cases ho
    exact if_neg hk

theorem Rule.Carried.announced (hr : rule.Carried ts ts' a b e rule')
    (hc : ts.Carries ts' a b e) {p : TokenKind → Bool}
    (hp : ∀ k ∈ [TokenKind.semicolon, .rightParen], p k = p .eof) :
    StepCarried ts ts' a b e (announced ts p rule) (SqlSelect.announced ts' p rule') := by
  refine announced_carried hc hp (fun _ _ ho => ?_) (fun _ _ ho => ?_) fun _ _ ha hle hl =>
    hr.carried (by omega) (by omega) hl
  · obtain ⟨_, n, hn, rfl⟩ := announced_eq_some.mp ho
    exact hr.here hn
  · obtain ⟨_, n, hn, rfl⟩ := announced_eq_some.mp ho
    exact hr.there hn

/-- What begins after the token that announces it. -/
theorem Rule.Carried.announced_after (hr : rule.Carried ts ts' a b e rule')
    (hc : ts.Carries ts' a b e) {p : TokenKind → Bool}
    (hp : ∀ k ∈ [TokenKind.semicolon, .rightParen, .eof], p k = false) : StepCarried ts ts' a b e
      (SqlSelect.announced ts p fun i => rule (i + 1))
      (SqlSelect.announced ts' p fun i => rule' (i + 1)) := by
  have heof : p .eof = false := hp .eof (by decide)
  have hsame : ∀ k ∈ [TokenKind.semicolon, .rightParen], p k = p .eof := by simp_all
  refine announced_carried hc hsame (fun _ _ ho => ?_) (fun _ _ ho => ?_)
    fun last n ha _ hl hn => ?_
  · exact announced_after_covers hr.here heof ho
  · exact announced_after_covers hr.there heof ho
  · have hi := (hr.here hn).le
    rw [← moved_add (by omega)]
    exact hr.carried (by omega) (by omega) hl hn

theorem Rule.Carried.commaList (hr : rule.Carried ts ts' a b e rule')
    (hc : ts.Carries ts' a b e) (ha : a ≤ i) (hl : s.last ≤ e)
    (hs : commaList ts rule i = .ok s) :
    SqlSelect.commaList ts' rule' (moved a b i) = .ok (s.move a b) :=
  hr.chain_loop (hr.announced_after hc (p := (· == .comma)) (by decide)) ha hl hs

theorem Nest.Carried.inside {nest nest' : Nest} (hn : nest.Carried ts ts' a b e nest')
    (blame blame' : Nat) (en : Enclosed) :
    (nest blame en).Carried ts ts' a b e (nest' blame' en) :=
  ⟨(hn.here blame en).covers, (hn.there blame' en).covers, hn.carried⟩

theorem Nest.Carried.fill {nest nest' : Nest} (hn : nest.Carried ts ts' a b e nest') {n : Node}
    {blame close : Nat} (blame' : Nat) {x : Expectation} {enclosed : Enclosed} (ha : a ≤ i)
    (hl : close ≤ e) (h : SqlSelect.fill nest blame enclosed i close x = .ok n) :
    SqlSelect.fill nest' blame' enclosed (moved a b i) (moved a b close) x = .ok (n.move a b) := by
  obtain ⟨hi, rfl⟩ := fill_eq_ok.mp h
  have hle := ((hn.here _ _).covers hi).le
  refine fill_eq_ok.mpr ⟨hn.carried ha (by omega) (by omega) hi, ?_⟩
  rw [Node.move_last, moved_add (by omega)]

/-- What a parenthesis encloses, whatever is made of it. -/
theorem Nest.Carried.enclosed {β : Type} {nest nest' : Nest}
    (hn : nest.Carried ts ts' a b e nest') (hc : ts.Carries ts' a b e) {make : Nat → Node → β}
    (make' : Nat → Node → β) {y : β} {blame : Nat} (blame' : Nat) {x : Expectation}
    {en : Enclosed} (ha : a ≤ i) (hl : ∀ close n, y = make close n → close ≤ e)
    (h : (closing ts i >>= fun close => SqlSelect.fill nest blame en (i + 1) close x >>= fun n =>
      .ok (make close n)) = .ok y) :
    ∃ close n, y = make close n ∧ i < close ∧
      (closing ts' (moved a b i) >>= fun close =>
        SqlSelect.fill nest' blame' en (moved a b i + 1) close x >>= fun n =>
          .ok (make' close n)) = .ok (make' (moved a b close) (n.move a b)) := by
  obtain ⟨close, hclose, h⟩ := bind_eq_ok.mp h
  obtain ⟨n, hfill, h⟩ := bind_eq_ok.mp h
  cases h
  have hl : close ≤ e := hl close n rfl
  have hfill' := hn.fill blame' (by omega) hl hfill
  rw [moved_add ha] at hfill'
  exact ⟨close, n, rfl, closing_lt hclose, bind_eq_ok.mpr ⟨_, hc.closing ha hl hclose,
    bind_eq_ok.mpr ⟨_, hfill', rfl⟩⟩⟩

end

end SqlSelect
