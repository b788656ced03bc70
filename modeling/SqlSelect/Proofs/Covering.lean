import SqlSelect.Proofs.ConditionLayout
import SqlSelect.Proofs.Derivation
import SqlSelect.Proofs.Lookahead

namespace SqlSelect

/-- There are tokens from `first` to `last`, both included, and no end of input is among them. -/
structure TokenList.Covers (ts : TokenList) (first last : Nat) : Prop where
  le : first ≤ last
  kind_ne_eof {i : Nat} : first ≤ i → i ≤ last → ts.kind i ≠ .eof

theorem TokenKind.ne_eof {p : TokenKind → Bool} {k : TokenKind} (h : p k = true)
    (hp : p .eof = false) : k ≠ .eof := by
  rintro rfl
  rw [hp] at h
  cases h

namespace TokenList.Covers

variable {ts : TokenList} {i j l : Nat}

theorem token (h : ts.kind i ≠ .eof) : ts.Covers i i := by
  refine ⟨Nat.le_refl i, fun hi hl => ?_⟩
  rwa [Nat.le_antisymm hl hi]

theorem append (h : ts.Covers i l) (hj : ts.Covers (l + 1) j) : ts.Covers i j := by
  have hle := h.le
  have hle' := hj.le
  refine ⟨by omega, fun {m} hi hl => ?_⟩
  by_cases hm : m ≤ l
  · exact h.kind_ne_eof hi hm
  · exact hj.kind_ne_eof (by omega) hl

theorem next (h : ts.Covers i l) (hk : ts.kind (l + 1) ≠ .eof) : ts.Covers i (l + 1) :=
  h.append (token hk)

/-- The last token of all is an end of input. -/
theorem succ_lt_size (h : ts.Covers i l) : l + 1 < ts.size :=
  lt_size_of_kind (h.kind_ne_eof h.le (Nat.le_refl l))

theorem last_lt (h : ts.Covers i l) : l < ts.size := by
  have := h.succ_lt_size
  omega

theorem first_lt (h : ts.Covers i l) : i < ts.size := by
  have := h.succ_lt_size
  have := h.le
  omega

end TokenList.Covers

theorem TokenList.Spells.covers {ts : TokenList} {f : Phrase} {i l : Nat}
    (h : ts.Spells f i (l + 1)) (hp : f.proper = true) (hb : f.bracketed = true) :
    ts.Covers i l :=
  ⟨Nat.le_of_lt_succ (h.lt hp), fun hi hl => h.kind_ne_eof hb hi (Nat.lt_succ_of_le hl)⟩

/-- The tokens of a node that is laid out are a phrase, and no phrase has an end of input. -/
theorem Node.All.covers {ts : TokenList} {n : Node} (h : n.All (Node.LaidOut ts)) :
    ts.Covers n.first n.last := by
  have hs : ts.Spells n.kind.phrase n.first (n.last + 1) := h.spells (.of n.kind) rfl
  have hp : n.kind.phrase.proper = true ∧ n.kind.phrase.bracketed = true := by
    cases n.kind <;> exact ⟨rfl, rfl⟩
  exact hs.covers hp.1 hp.2

theorem Slot.Takes.bounds {ts : TokenList} {slot : Slot} {p q : Place} (h : slot.Takes ts p q) :
    p.index ≤ q.index ∧
      ∀ c ∈ p.children, c ∈ q.children ∨ p.index ≤ c.first ∧ c.last < q.index := by
  cases slot with
  | token t =>
    obtain ⟨_, rfl⟩ := h
    exact ⟨Nat.le_succ _, fun c hc => .inl hc⟩
  | child r =>
    obtain ⟨d, _, hi, hle, hp, hq⟩ := h
    refine ⟨by omega, fun c hc => ?_⟩
    rw [hp] at hc
    rcases List.mem_cons.mp hc with rfl | hc
    · exact .inr ⟨by omega, by omega⟩
    · exact .inl hc
  | wrapped =>
    obtain ⟨d, pairs, _, hi, hle, _, hp, hq⟩ := h
    refine ⟨by omega, fun c hc => ?_⟩
    rw [hp] at hc
    rcases List.mem_cons.mp hc with rfl | hc
    · exact .inr ⟨by omega, by omega⟩
    · exact .inl hc

/-- Children stand inside the span of their parent. -/
theorem Node.LaidOut.child_bounds {ts : TokenList} {n : Node} (hn : n.LaidOut ts) :
    ∀ c ∈ n.children, n.first ≤ c.first ∧ c.last ≤ n.last := by
  have h := Form.Spans.related
    (R := fun p q : Place => p.index ≤ q.index ∧
      ∀ c ∈ p.children, c ∈ q.children ∨ p.index ≤ c.first ∧ c.last < q.index)
    (p := fun _ => True) (fun _ => ⟨Nat.le_refl _, fun _ => .inl⟩) ?_
    (fun _ _ _ _ h => Slot.Takes.bounds h) nofun hn (Form.uses_true _)
  · intro c hc
    rcases h.2 c hc with hc | ⟨hf, hl⟩
    · cases hc
    · exact ⟨hf, Nat.le_of_lt_succ hl⟩
  · intro p u q hu hq
    refine ⟨Nat.le_trans hu.1 hq.1, fun c hc => ?_⟩
    rcases hu.2 c hc with hc | ⟨hf, hl⟩
    · rcases hq.2 c hc with hc | ⟨hf, hl⟩
      · exact .inl hc
      · exact .inr ⟨Nat.le_trans hu.1 hf, hl⟩
    · exact .inr ⟨hf, Nat.lt_of_lt_of_le hl hq.1⟩

theorem Node.All.first_le {ts : TokenList} {n : Node} (h : n.All (Node.LaidOut ts)) :
    n.All fun m => n.first ≤ m.first := by
  induction h with
  | mk hn _ ih =>
    refine .mk (Nat.le_refl _) fun c hc => ?_
    have hle := (hn.child_bounds c hc).1
    exact (ih c hc).mono fun m hm => Nat.le_trans hle hm

theorem Stretch.Fits.spells {ts : TokenList} {f : NodeKind.Layout} {i : Nat} {s : Stretch}
    (h : Fits ts f i s) : ts.Spells f.phrase i (s.last + 1) := by
  have hs := NodeKind.Layout.spells (h.spans []) fun c hc => by
    rw [List.append_nil] at hc
    exact (h.laidOut c hc).spells
  exact hs.1

theorem Stretch.Fits.covers {ts : TokenList} {f : NodeKind.Layout} {i : Nat} {s : Stretch}
    (h : Fits ts f i s) (hp : f.phrase.proper = true) (hb : f.phrase.bracketed = true) :
    ts.Covers i s.last := h.spells.covers hp hb

theorem Rule.Makes.covers {ts : TokenList} {r : Role} {rule : Rule} (hr : rule.Makes ts r)
    {i : Nat} {n : Node} (h : rule i = .ok n) : ts.Covers i n.last := by
  obtain ⟨_, rfl, _, hl⟩ := Stretch.Fits.role_iff.mp (hr i n h)
  exact hl.covers

section

variable {ts : TokenList} {i : Nat} {s : Stretch}

theorem many_covers {step : Nat → Except Fault (Option Stretch)}
    (h : ∀ last s, step last = .ok (some s) → ts.Covers (last + 1) s.last)
    {bound last : Nat} (hl : ts.Covers i last) (hm : many step bound last = .ok s) :
    ts.Covers i s.last := by
  induction bound generalizing last s with
  | zero =>
    cases many_zero_eq_ok.mp hm
    exact hl
  | succ bound ih =>
    rcases many_succ_eq_ok.mp hm with ⟨_, rfl⟩ | ⟨one, more, ho, hmore, rfl⟩
    · exact hl
    · have hs : ts.Covers i more.last := ih (hl.append (h _ _ ho)) hmore
      exact hs

theorem Rule.Makes.announced_covers {r : Role} {rule : Rule} (hr : rule.Makes ts r)
    {p : TokenKind → Bool} {last : Nat} (h : SqlSelect.announced ts p rule last = .ok (some s)) :
    ts.Covers (last + 1) s.last := by
  obtain ⟨_, n, hn, rfl⟩ := announced_eq_some.mp h
  exact hr.covers hn

theorem announced_after_covers {rule : Rule} {p : TokenKind → Bool} {last : Nat}
    (hr : ∀ {i n}, rule i = .ok n → ts.Covers i n.last) (hp : p .eof = false)
    (h : announced ts p (fun i => rule (i + 1)) last = .ok (some s)) :
    ts.Covers (last + 1) s.last := by
  obtain ⟨hk, n, hn, rfl⟩ := announced_eq_some.mp h
  exact (TokenList.Covers.token (TokenKind.ne_eof hk hp)).append (hr hn)

namespace Rule

variable {nest : Nest}

theorem term_covers (hn : nest.Makes ts) (h : term ts nest i = .ok s) :
    ts.Covers i s.last := (spells_term (term_fits hn h).spells).covers rfl rfl

theorem connected_covers (hn : nest.Makes ts) {last : Nat}
    (h : connected ts nest last = .ok (some s)) : ts.Covers (last + 1) s.last := by
  obtain ⟨u, hk, ht⟩ := Form.spans_mul.mp (connected_fits hn h).spells
  exact TokenList.Spells.covers (f := Phrase.kinds [.and, .or] * .part .conditionTerm)
    (.seq hk (spells_term ht)) rfl rfl

end Rule

end

end SqlSelect
