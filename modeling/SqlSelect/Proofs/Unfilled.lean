import SqlSelect.Proofs.Grounds

namespace SqlSelect

/-- Where a parenthesis is found not to be filled, the token complained about closes none. -/
def TokenList.Spares (ts : TokenList) {α : Type} (r : Except Fault α) : Prop :=
  ∀ x, r = .error x → x.complaint ∈ Complaint.unfilled → ts.kind x.index ≠ .rightParen

theorem TokenList.Grounds.spares {ts : TokenList} {α : Type} {r : Except Fault α}
    (h : ts.Grounds r) : ts.Spares r := fun x hx => (h x hx).unfilled

theorem Production.run_spares (part : Production) (ts : TokenList) (depth i : Nat) :
    ts.Spares (part.run ts depth i) := (part.run_grounds ts depth i).spares

namespace Parser

theorem complete_spares (p : Parser) : p.tokens.Spares p.complete := p.complete_grounds.spares

theorem wellNested_of_run {p : Parser} {part : Production} {depth start : Nat} {n : Node}
    (h : part.run p.tokens depth start = .ok n) :
    ∀ m ∈ n.preorder, WellNested (m.tokens p.tokens) := by
  refine Node.forall_preorder_iff.mpr ((Production.run_nests h).2.mono fun m hm => ?_)
  exact hm.wellNested

/-- Every node covers as many parentheses that close as ones that open, and in no part of it from
its beginning more. So what is found inside a parenthesis ends before the one that closes it, and
if not right before it then not before any that closes; where that is an error, the token
complained about closes none. -/
theorem run_well_nested (p : Parser) :
    (∀ t, (∃ part start, p.run part start = .ok t) ∨ p.parse = .ok t →
      ∀ n ∈ t.root.preorder, WellNested (n.tokens t.source)) ∧
    (∀ opening group, p.run .parenthesis opening = .ok group →
      (∀ (part : Production) (depth : Nat) (n : Node),
        part.run p.tokens depth (opening + 1) = .ok n → n.last < group.root.last ∧
          (n.last + 1 ≠ group.root.last → p.tokens.kind (n.last + 1) ≠ .rightParen)) ∧
      ∀ (depth : Nat) (s : Stretch),
        commaList p.tokens (Production.expression.run p.tokens depth) (opening + 1) = .ok s →
          s.last < group.root.last ∧
            (s.last + 1 ≠ group.root.last → p.tokens.kind (s.last + 1) ≠ .rightParen)) ∧
    ∀ f : Fault, (∃ (part : Production) (depth start : Nat),
        part.run p.tokens depth start = .error f) ∨ p.complete = .error f →
      f.complaint ∈ Complaint.unfilled → p.tokens.kind f.index ≠ .rightParen := by
  refine ⟨fun t ht => ?_, fun opening group hg => ?_, fun f hf => ?_⟩
  · obtain ⟨hs, part, start, hn⟩ := exists_run_of_tree ht
    rw [hs]
    exact wellNested_of_run hn
  · obtain ⟨close, hc, hg⟩ := bind_eq_ok.mp (run_eq_ok.mp hg).2
    rw [← Except.ok.inj hg]
    refine ⟨fun part depth n hn => ?_, fun depth s hs => ?_⟩
    · obtain ⟨hi, hall⟩ := Production.run_nests hn
      exact (hi ▸ hall.root).inside hc
    · have hm : Rule.Makes p.tokens (.of .expression) (Production.expression.run p.tokens depth) :=
        Production.run_makes (by decide) p.tokens depth
      exact (hm.commaList_nests hs).inside hc
  · rcases hf with ⟨part, depth, start, h⟩ | h
    · exact part.run_spares p.tokens depth start f h
    · exact p.complete_spares f h

theorem run_well_nested_of_two_names :
    let ts : TokenList := ⟨#[⟨.leftParen, "(", ⟨1, 1⟩⟩, ⟨.literal, "a", ⟨1, 2⟩⟩,
      ⟨.literal, "b", ⟨1, 4⟩⟩, ⟨.rightParen, ")", ⟨1, 5⟩⟩], ⟨.eof, "", ⟨1, 6⟩⟩, rfl, by decide⟩
    let p : Parser := ⟨ts, {}⟩
    ∃ group inner s f, p.run .parenthesis 0 = .ok group ∧ group.root ∈ group.root.preorder ∧
      WellNested (group.root.tokens group.source) ∧ Production.expression.run ts 1 1 = .ok inner ∧
      inner.last < group.root.last ∧ ts.kind (inner.last + 1) ≠ .rightParen ∧
      commaList ts (Production.expression.run ts 1) 1 = .ok s ∧ s.last < group.root.last ∧
      Production.condition.run ts 1 0 = .error f ∧ f.complaint ∈ Complaint.unfilled ∧
      ts.kind f.index ≠ .rightParen := by
  intro ts p
  obtain ⟨htrees, hgroups, hfaults⟩ := run_well_nested p
  have hgroup : p.run .parenthesis 0 = .ok ⟨ts, .leaf .parenthesis 0 3⟩ := rfl
  have hinner : Production.expression.run ts 1 1 =
    .ok ⟨.expression, 1, 1, [.leaf .operand 1 1]⟩ := rfl
  have hlist : commaList ts (Production.expression.run ts 1) 1 =
      .ok ⟨[⟨.expression, 1, 1, [.leaf .operand 1 1]⟩], 1⟩ := rfl
  have hfault : Production.condition.run ts 1 0 = .error ⟨.expected .conditionEnd, 2⟩ := rfl
  have hroot : Node.leaf .parenthesis 0 3 ∈ (Node.leaf .parenthesis 0 3).preorder :=
    List.mem_cons_self
  obtain ⟨hparts, hlists⟩ := hgroups 0 _ hgroup
  obtain ⟨hlt, hnext⟩ := hparts .expression 1 _ hinner
  have hunfilled : Complaint.expected .conditionEnd ∈ Complaint.unfilled := by decide
  exact ⟨_, _, _, _, hgroup, hroot, htrees _ (.inl ⟨_, _, hgroup⟩) _ hroot, hinner, hlt,
    hnext (by decide), hlist, (hlists 1 _ hlist).1, hfault, hunfilled,
    hfaults _ (.inl ⟨_, _, _, hfault⟩) hunfilled⟩

end Parser

end SqlSelect
