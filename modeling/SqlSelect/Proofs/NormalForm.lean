import SqlSelect.Proofs.QueryLayout

namespace SqlSelect

open NodeKind

/-- Every child that a slot takes has a property. -/
def Slot.Gives (ts : TokenList) (Q : Node → Prop) (slot : Slot) : Prop :=
  ∀ p q, slot.Takes ts p q → ∀ c ∈ p.children, Q c ∨ c ∈ q.children

variable {ts : TokenList} {Q : Node → Prop} {n : Node}

theorem Slot.gives_token (t : Terminal) : (Slot.token t).Gives ts Q := by
  rintro p _ ⟨_, rfl⟩ c hc
  exact .inr hc

theorem Slot.gives_child {r : Role} (h : ∀ c, r.Admits ts c → Q c) : (Slot.child r).Gives ts Q := by
  rintro p q ⟨d, hr, _, _, hp, _⟩ c hc
  rw [hp] at hc
  rcases List.mem_cons.mp hc with rfl | hc
  · exact .inl (h c hr)
  · exact .inr hc

theorem Slot.gives_wrapped (h : ∀ c : Node, c.kind = .expression → Q c) :
    Slot.wrapped.Gives ts Q := by
  rintro p q ⟨d, _, hk, _, _, _, hp, _⟩ c hc
  rw [hp] at hc
  rcases List.mem_cons.mp hc with rfl | hc
  · exact .inl (h c hk)
  · exact .inr hc

theorem Node.LaidOut.forall_children (hn : n.LaidOut ts)
    (hf : n.kind.layout.Uses (Slot.Gives ts Q)) : ∀ c ∈ n.children, Q c := by
  have h := Form.Spans.related
    (R := fun p q : Place => ∀ c ∈ p.children, Q c ∨ c ∈ q.children)
    (fun _ _ => .inr) (fun _ _ _ h₁ h₂ c hc => (h₁ c hc).elim .inl (h₂ c))
    (fun _ p q hg => hg p q) nofun hn hf
  exact fun c hc => (h c hc).resolve_right List.not_mem_nil

theorem Node.LaidOut.normal (hn : n.LaidOut ts) : n.Normal := by
  constructor
  · intro hk
    refine hn.forall_children ?_
    have ht : NodeKind.term.Uses (Slot.Gives ts fun c =>
        c.kind = .condition → c.loneKind? ≠ some .expression) :=
      ⟨Slot.gives_wrapped fun c hc hk => (by cases hc.symm.trans hk),
        Slot.gives_token _, Slot.gives_token _, Slot.gives_child fun c hc _ => hc.2⟩
    rw [hk]
    exact ⟨ht, Slot.gives_child fun c hc hk => (by cases hc.1.symm.trans hk), ht⟩
  · intro hk
    rw [Node.LaidOut, hk] at hn
    obtain ⟨_, _, ⟨_, rfl⟩, hc, ⟨_, hq⟩⟩ := Form.spans_between.mp hn
    obtain ⟨c, hr, _, _, hc, _⟩ := Form.spans_one.mp hc
    refine ⟨c, ?_, hr⟩
    rw [← (Place.mk.inj hq).2] at hc
    exact hc

namespace Parser

variable {p : Parser} {part : Production} {start : Nat} {t : Tree}

theorem run_eq_ok : p.run part start = .ok t ↔
    t.source = p.tokens ∧ part.run p.tokens p.options.maxDepth start = .ok t.root := by
  unfold run
  cases part.run p.tokens p.options.maxDepth start with
  | error f => exact ⟨nofun, fun h => nomatch h.2⟩
  | ok n =>
    constructor
    · intro h
      cases h
      exact ⟨rfl, rfl⟩
    · rintro ⟨hs, hn⟩
      cases hn
      cases t
      cases hs
      rfl

theorem complete_eq_ok {n : Node} : p.complete = .ok n ↔
    Production.query.run p.tokens p.options.maxDepth 0 = .ok n ∧
      (p.options.allowTrailingInput = true ∨ p.tokens.kind (queryEnd p.tokens n.last) = .eof) := by
  have hend (query : Node) : (if p.options.allowTrailingInput ||
      p.tokens.kind (queryEnd p.tokens query.last) = .eof then .ok query
      else Fault.expected .queryEnd (queryEnd p.tokens query.last)) = .ok n ↔ query = n ∧
        (p.options.allowTrailingInput = true ∨
          p.tokens.kind (queryEnd p.tokens query.last) = .eof) := by
    split
    next h => simpa using fun _ => by simpa using h
    next h => simpa [Fault.expected] using fun _ => by simpa using h
  unfold complete
  simp only [bind_eq_ok, hend]
  constructor
  · rintro ⟨_, hq, rfl, h⟩
    exact ⟨hq, h⟩
  · rintro ⟨hq, h⟩
    exact ⟨n, hq, rfl, h⟩

theorem parse_eq_ok : p.parse = .ok t ↔
    1 < p.tokens.size ∧ t.source = p.tokens ∧ p.complete = .ok t.root := by
  unfold parse
  split
  next h => exact ⟨nofun, fun ht => by omega⟩
  next h =>
    cases p.complete with
    | error f => exact ⟨nofun, fun ht => nomatch ht.2.2⟩
    | ok n =>
      obtain ⟨source, root⟩ := t
      simp only [toTree, Except.ok.injEq, Tree.mk.injEq]
      exact ⟨fun ht => ⟨by omega, ht.1.symm, ht.2⟩, fun ht => ⟨ht.2.1.symm, ht.2.2⟩⟩

/-- Every tree, be it of a part or of the whole, is what a production finds. -/
theorem exists_run_of_tree (h : (∃ part start, p.run part start = .ok t) ∨ p.parse = .ok t) :
    t.source = p.tokens ∧
      ∃ part start, Production.run part p.tokens p.options.maxDepth start = .ok t.root := by
  rcases h with ⟨part, start, h⟩ | h
  · obtain ⟨hs, hn⟩ := run_eq_ok.mp h
    exact ⟨hs, part, start, hn⟩
  · obtain ⟨_, hs, hc⟩ := parse_eq_ok.mp h
    exact ⟨hs, .query, 0, (complete_eq_ok.mp hc).1⟩

/-- A production finds a node of its kind where it starts. Every node of its tree is made of its
tokens and its children as the table of node shapes says, and the tree is in normal form. -/
theorem run_laidOut_normal (hp : part ≠ .parenthesis) (h : p.run part start = .ok t) :
    t.source = p.tokens ∧ t.root.kind = part.nodeKind ∧ t.root.first = start ∧
      ∀ n ∈ t.root.preorder, n.LaidOut t.source ∧ n.Normal := by
  obtain ⟨hs, hn⟩ := run_eq_ok.mp h
  have hf := part.run_makes hp p.tokens p.options.maxDepth _ _ hn
  obtain ⟨hk, hi, _, hall⟩ := Stretch.Fits.role_iff.mp hf
  refine ⟨hs, hk, hi, fun n hm => ?_⟩
  have hl := Node.forall_preorder_iff.mpr hall n hm
  rw [hs]
  exact ⟨hl, hl.normal⟩

theorem run_laidOut_normal_of_parentheses :
    let ts : TokenList := ⟨#[⟨.leftParen, "(", ⟨1, 1⟩⟩, ⟨.literal, "a", ⟨1, 2⟩⟩,
      ⟨.or, "OR", ⟨1, 4⟩⟩, ⟨.literal, "b", ⟨1, 7⟩⟩, ⟨.rightParen, ")", ⟨1, 8⟩⟩,
      ⟨.and, "AND", ⟨1, 10⟩⟩, ⟨.leftParen, "(", ⟨1, 14⟩⟩, ⟨.literal, "c", ⟨1, 15⟩⟩,
      ⟨.rightParen, ")", ⟨1, 16⟩⟩], ⟨.eof, "", ⟨1, 17⟩⟩, rfl, by decide⟩
    ∃ t, (Parser.mk ts {}).run .condition 0 = .ok t ∧ t.root.last = 8 ∧
      t.root.childKinds = [.condition, .operator, .expression] ∧
      t.source = ts ∧ t.root.kind = .condition ∧ t.root.first = 0 ∧
      ∀ n ∈ t.root.preorder, n.LaidOut t.source ∧ n.Normal := by
  intro ts
  have h : (Parser.mk ts {}).run .condition 0 = .ok _ := rfl
  exact ⟨_, h, rfl, rfl, run_laidOut_normal (by decide) h⟩

end Parser

end SqlSelect
