import SqlSelect.Proofs.ExpressionLayout

namespace SqlSelect

open NodeKind

theorem TokenList.Parentheses.succ {ts : TokenList} {i j pairs : Nat}
    (hi : ts.kind i = .leftParen) (h : ts.Parentheses (i + 1) j pairs)
    (hj : ts.kind (j + pairs) = .rightParen) : ts.Parentheses i j (pairs + 1) := by
  intro m hm
  constructor
  · cases m with
    | zero => exact hi
    | succ m =>
      rw [show i + (m + 1) = i + 1 + m by omega]
      exact (h m (by omega)).1
  · by_cases he : m = pairs
    · rw [he]
      exact hj
    · exact (h m (by omega)).2

namespace Rule

variable {ts : TokenList} {nest : Nest} {i : Nat} {s : Stretch}

theorem wrapped_fits {n : Node} (h : Stretch.Fits ts (child .expression) i (.ofNode n)) :
    Stretch.Fits ts (.one .wrapped) i (.ofNode n) := by
  obtain ⟨hk, rfl, hle, _⟩ := Stretch.Fits.role_iff.mp h
  exact ⟨fun rest => .one ⟨n, 0, hk, rfl, hle, nofun, rfl, rfl⟩, h.laidOut⟩

/-- A condition of a lone expression covers that expression and parentheses around it. -/
theorem lone_expression_wrapped {n c : Node}
    (h : Stretch.Fits ts (child .condition) i (.ofNode n)) (hc : n.children = [c])
    (hk : c.kind = .expression) : ∃ pairs, i + pairs = c.first ∧ c.first ≤ c.last ∧
      n.last = c.last + pairs ∧ ts.Parentheses i (c.last + 1) pairs := by
  obtain ⟨hkn, rfl, _, hl⟩ := Stretch.Fits.role_iff.mp h
  have hs := hl.root
  rw [Node.LaidOut, hkn, hc] at hs
  obtain ⟨u, ht, hs⟩ := Form.spans_mul.mp hs
  rcases Form.spans_add.mp ht with ht | ht
  · obtain ⟨d, pairs, _, hd, hdl, hp, hcd, hu⟩ := Form.spans_one.mp ht
    obtain ⟨rfl, hn⟩ := List.cons.inj hcd
    refine ⟨pairs, hd, hdl, ?_, hp⟩
    rcases Form.spans_star.mp hs with hs | ⟨v, hs, _⟩
    · cases hs
      dsimp only at hu
      omega
    · obtain ⟨_, ho, _⟩ := Form.spans_mul.mp hs
      exact (Slot.Takes.children_ne_nil ho hn.symm).elim
  · obtain ⟨_, _, ⟨_, rfl⟩, hi, _⟩ := Form.spans_between.mp ht
    obtain ⟨d, hd, _, _, hcd, _⟩ := Form.spans_one.mp hi
    obtain ⟨rfl, _⟩ := List.cons.inj hcd
    rw [hd.1] at hk
    cases hk

theorem enclosedCondition_fits (hn : nest.Makes ts) {close : Nat}
    (ho : ts.kind i = .leftParen) (hc : ts.kind close = .rightParen)
    (h : enclosedCondition nest i close = .ok s) : Stretch.Fits ts NodeKind.term i s := by
  obtain ⟨inner, hi, h⟩ := bind_eq_ok.mp h
  obtain ⟨hin, rfl⟩ := fill_eq_ok.mp hi
  cases h
  have hf := hn _ .condition _ _ hin
  rcases inner.collapse_cases [.expression] with ⟨c, hch, hck, he⟩ | ⟨he, hck⟩
  · have hck := List.mem_singleton.mp hck
    obtain ⟨pairs, hfirst, hle, hlast, hp⟩ := lone_expression_wrapped hf hch hck
    have hl := (Stretch.Fits.role_iff.mp hf).2.2.2
    rw [he]
    rw [hlast] at hc ⊢
    refine Stretch.Fits.left ⟨fun rest => .one ?_, ?_⟩
    · refine ⟨c, pairs + 1, hck, ?_, hle, hp.succ ho ?_, rfl, ?_⟩
      · dsimp only
        omega
      · rw [← hc]
        congr 1
        omega
      · dsimp only
        omega
    · intro d hd
      cases List.mem_singleton.mp hd
      exact hl.child (by simp [hch])
  · rw [he]
    refine (Stretch.Fits.parenthesized (s := .ofNode inner) ho ?_ hc).right
    exact hf.weaken (⟨·, hck _ (List.mem_singleton.mpr rfl)⟩)

theorem plainTerm_fits (hn : nest.Makes ts) (h : plainTerm ts nest i = .ok s) :
    Stretch.Fits ts NodeKind.term i s := by
  obtain ⟨e, he, h⟩ := bind_eq_ok.mp h
  cases h
  exact (wrapped_fits (expression_makes hn _ _ he)).left

theorem term_fits (hn : nest.Makes ts) (h : term ts nest i = .ok s) :
    Stretch.Fits ts NodeKind.term i s := by
  unfold term at h
  split at h
  next =>
    obtain ⟨close, hc, h⟩ := bind_eq_ok.mp h
    obtain ⟨o, _, h⟩ := bind_eq_ok.mp h
    have ho := closing_kinds hc
    cases o with
    | none => exact enclosedCondition_fits hn ho.1 ho.2 h
    | some e => exact plainTerm_fits hn h
  next => exact plainTerm_fits hn h

theorem connected_fits (hn : nest.Makes ts) {last : Nat}
    (h : connected ts nest last = .ok (some s)) :
    Stretch.Fits ts (role .connective * NodeKind.term) (last + 1) s := by
  unfold connected at h
  split at h
  next => cases h
  next hk =>
    split at h
    next => cases h
    next =>
      obtain ⟨right, hr, h⟩ := bind_eq_ok.mp h
      cases h
      have hk := mem_connectives.mpr (by simpa using hk)
      have hl : Stretch.Fits ts (layout .operator) (last + 1) ⟨[], last + 1⟩ :=
        (Stretch.Fits.tokens hk).right
      exact (hl.node (r := .connective) ⟨rfl, hk⟩).mul (term_fits hn hr)

theorem condition_makes (hn : nest.Makes ts) : Makes ts (.of .condition) (condition ts nest) := by
  intro i n h
  obtain ⟨first, hf, h⟩ := bind_eq_ok.mp h
  obtain ⟨more, hm, h⟩ := bind_eq_ok.mp h
  cases h
  have hs : Stretch.Fits ts (layout .condition) i ⟨first.nodes ++ more.nodes, more.last⟩ :=
    (term_fits hn hf).mul (.many_star (fun _ _ => connected_fits hn) hm)
  exact hs.node rfl

end Rule

end SqlSelect
