import SqlSelect.Proofs.Layout
import SqlSelect.Proofs.Outcome
import SqlSelect.Proofs.Subtree

namespace SqlSelect

open NodeKind

/-- A stretch that begins at `start` is made as a layout says, and so are all nodes in it. -/
structure Stretch.Fits (ts : TokenList) (f : Layout) (start : Nat) (s : Stretch) : Prop where
  spans (rest : List Node) :
    f.Spans (Slot.Takes ts) Empty.elim ⟨start, s.nodes ++ rest⟩ ⟨s.last + 1, rest⟩
  laidOut : ∀ c ∈ s.nodes, c.All (Node.LaidOut ts)

namespace Stretch.Fits

variable {ts : TokenList} {f g : Layout} {i j : Nat} {s u : Stretch}

theorem tokens {ks : List TokenKind} (h : ts.kind i ∈ ks) :
    Fits ts (tokens ks) i ⟨[], i⟩ :=
  ⟨fun _ => .one ⟨h, rfl⟩, nofun⟩

theorem token {k : TokenKind} (h : ts.kind i = k) : Fits ts (token k) i ⟨[], i⟩ :=
  tokens (by simp [h])

theorem mul (hf : Fits ts f i s) (hg : Fits ts g (s.last + 1) u) :
    Fits ts (f * g) i ⟨s.nodes ++ u.nodes, u.last⟩ := by
  refine ⟨fun rest => ?_, ?_⟩
  · rw [List.append_assoc]
    exact .seq (hf.spans _) (hg.spans _)
  · intro c hc
    rcases List.mem_append.mp hc with hc | hc
    · exact hf.laidOut c hc
    · exact hg.laidOut c hc

theorem assoc {k : Layout} (h : Fits ts (f * (g * k)) i s) : Fits ts (f * g * k) i s := by
  refine ⟨fun rest => ?_, h.laidOut⟩
  obtain ⟨p, hf, hgk⟩ := Form.spans_mul.mp (h.spans rest)
  obtain ⟨q, hg, hk⟩ := Form.spans_mul.mp hgk
  exact .seq (.seq hf hg) hk

theorem left (h : Fits ts f i s) : Fits ts (f + g) i s :=
  ⟨fun rest => .left (h.spans rest), h.laidOut⟩

theorem right (h : Fits ts g i s) : Fits ts (f + g) i s :=
  ⟨fun rest => .right (h.spans rest), h.laidOut⟩

theorem skip : Fits ts (.opt f) (i + 1) ⟨[], i⟩ := ⟨fun _ => .skip, nofun⟩

theorem take (h : Fits ts f i s) : Fits ts (.opt f) i s :=
  ⟨fun rest => .take (h.spans rest), h.laidOut⟩

theorem stop : Fits ts (.star f) (i + 1) ⟨[], i⟩ := ⟨fun _ => .stop, nofun⟩

theorem step (hf : Fits ts f i s) (hs : Fits ts (.star f) (s.last + 1) u) :
    Fits ts (.star f) i ⟨s.nodes ++ u.nodes, u.last⟩ :=
  have h := hf.mul hs
  ⟨fun rest => (Form.spans_mul.mp (h.spans rest)).elim fun _ h => .step h.1 h.2, h.laidOut⟩

theorem parenthesized (ho : ts.kind i = .leftParen) (h : Fits ts f (i + 1) s)
    (hc : ts.kind (s.last + 1) = .rightParen) :
    Fits ts (parenthesized f) i ⟨s.nodes, s.last + 1⟩ :=
  ⟨fun rest => .between ⟨List.mem_singleton.mpr ho, rfl⟩ (h.spans rest)
    ⟨List.mem_singleton.mpr hc, rfl⟩, h.laidOut⟩

end Stretch.Fits

/-- All layouts ask for a token or a child. -/
theorem NodeKind.layout_proper (k : NodeKind) : k.layout.proper = true := by
  cases k <;> rfl

theorem Slot.Takes.lt {ts : TokenList} (slot : Slot) (p q : Place) (h : slot.Takes ts p q) :
    p.index < q.index := by
  cases slot with
  | token t =>
    obtain ⟨_, rfl⟩ := h
    exact Nat.lt_succ_self _
  | child r =>
    obtain ⟨c, _, hi, hl, _, hq⟩ := h
    omega
  | wrapped =>
    obtain ⟨c, pairs, _, hi, hl, _, _, hq⟩ := h
    omega

theorem Slot.Takes.children_ne_nil {ts : TokenList} {r : Role} {p q : Place}
    (h : (role r).Spans (Slot.Takes ts) Empty.elim p q) : p.children ≠ [] := by
  obtain ⟨c, _, _, _, hc, _⟩ := Form.spans_one.mp h
  simp [hc]

namespace Stretch.Fits

variable {ts : TokenList} {f g : Layout} {i : Nat} {s : Stretch}

/-- A stretch that is laid out as a kind asks makes a node of that kind. -/
theorem node {k : NodeKind} {r : Role} (h : Fits ts k.layout i s)
    (hr : r.Admits ts ⟨k, i, s.last, s.nodes⟩) :
    Fits ts (role r) i (.ofNode ⟨k, i, s.last, s.nodes⟩) := by
  have hs : Node.LaidOut ts ⟨k, i, s.last, s.nodes⟩ := by
    have hs := h.spans []
    rw [List.append_nil] at hs
    exact hs
  have hl := hs.lt Slot.Takes.lt nofun k.layout_proper
  refine ⟨fun rest => .one ⟨_, hr, rfl, Nat.le_of_lt_succ hl, rfl, rfl⟩, ?_⟩
  intro c hc
  cases List.mem_singleton.mp hc
  exact .mk hs h.laidOut

theorem role_iff {r : Role} {n : Node} : Fits ts (role r) i (.ofNode n) ↔
    r.Admits ts n ∧ n.first = i ∧ i ≤ n.last ∧ n.All (Node.LaidOut ts) := by
  constructor
  · rintro ⟨hs, hl⟩
    obtain ⟨c, hr, hi, hle, he, _⟩ := Form.spans_one.mp (hs [])
    obtain ⟨rfl, _⟩ := List.cons.inj he
    exact ⟨hr, hi.symm, Nat.le_trans (Nat.le_of_eq hi) hle, hl _ (List.mem_singleton.mpr rfl)⟩
  · rintro ⟨hr, rfl, hle, hl⟩
    refine ⟨fun rest => .one ⟨n, hr, rfl, hle, rfl, rfl⟩, fun c hc => ?_⟩
    cases List.mem_singleton.mp hc
    exact hl

theorem weaken {r r' : Role} {n : Node} (h : Fits ts (role r) i (.ofNode n))
    (hr : r.Admits ts n → r'.Admits ts n) : Fits ts (role r') i (.ofNode n) :=
  role_iff.mpr ((role_iff.mp h).imp_left hr)

theorem many_star {step : Nat → Except Fault (Option Stretch)} {bound last : Nat}
    (hstep : ∀ last s, step last = .ok (some s) → Fits ts f (last + 1) s)
    (h : many step bound last = .ok s) : Fits ts (.star f) (last + 1) s := by
  induction bound generalizing last s with
  | zero =>
    cases many_zero_eq_ok.mp h
    exact stop
  | succ bound ih =>
    rcases many_succ_eq_ok.mp h with ⟨_, rfl⟩ | ⟨one, more, ho, hm, rfl⟩
    · exact stop
    · exact (hstep _ _ ho).step (ih hm)

theorem many_opt {step : Nat → Except Fault (Option Stretch)} {last : Nat}
    (hstep : ∀ last s, step last = .ok (some s) → Fits ts f (last + 1) s)
    (h : many step 1 last = .ok s) : Fits ts (.opt f) (last + 1) s := by
  rcases many_succ_eq_ok.mp h with ⟨_, rfl⟩ | ⟨one, more, ho, hm, rfl⟩
  · exact skip
  · cases many_zero_eq_ok.mp hm
    simpa only [List.append_nil] using (hstep _ _ ho).take

end Stretch.Fits

/-- What a rule finds is a node that can stand in a role. -/
def Rule.Makes (ts : TokenList) (r : Role) (rule : Rule) : Prop :=
  ∀ i n, rule i = .ok n → Stretch.Fits ts (role r) i (.ofNode n)

namespace Rule.Makes

variable {ts : TokenList} {r : Role} {rule : Rule} {f : Layout} {i : Nat} {s : Stretch}

theorem chain_star (hr : rule.Makes ts r) {step : Nat → Except Fault (Option Stretch)}
    {bound : Nat} (hstep : ∀ last s, step last = .ok (some s) → Stretch.Fits ts f (last + 1) s)
    (h : chain bound rule step i = .ok s) : Stretch.Fits ts (role r * .star f) i s := by
  obtain ⟨head, more, hh, hm, rfl⟩ := chain_eq_ok.mp h
  exact (hr _ _ hh).mul (.many_star hstep hm)

theorem chain_opt (hr : rule.Makes ts r) {step : Nat → Except Fault (Option Stretch)}
    (hstep : ∀ last s, step last = .ok (some s) → Stretch.Fits ts f (last + 1) s)
    (h : chain 1 rule step i = .ok s) : Stretch.Fits ts (role r * .opt f) i s := by
  obtain ⟨head, more, hh, hm, rfl⟩ := chain_eq_ok.mp h
  exact (hr _ _ hh).mul (.many_opt hstep hm)

theorem announced (hr : rule.Makes ts r) {p : TokenKind → Bool} {last : Nat}
    (h : announced ts p rule last = .ok (some s)) : Stretch.Fits ts (role r) (last + 1) s := by
  obtain ⟨_, n, hn, rfl⟩ := announced_eq_some.mp h
  exact hr _ _ hn

theorem afterKeyword (hr : rule.Makes ts r) {k : TokenKind} {last : Nat}
    (h : SqlSelect.announced ts (· == k) (fun i => rule (i + 1)) last = .ok (some s)) :
    Stretch.Fits ts (token k * role r) (last + 1) s := by
  obtain ⟨hk, n, hn, rfl⟩ := announced_eq_some.mp h
  exact (Stretch.Fits.token (beq_iff_eq.mp hk)).mul (hr _ _ hn)

theorem commaList (hr : rule.Makes ts r) (h : commaList ts rule i = .ok s) :
    Stretch.Fits ts (.separated (role r) (token .comma)) i s :=
  hr.chain_star (fun _ _ => hr.afterKeyword) h

end Rule.Makes

end SqlSelect
