import SqlSelect.Proofs.Covering
import SqlSelect.Proofs.Extending

namespace SqlSelect

/-- Of the phrases of a form that begin at `i`, the one that ends before `j` is the longest. -/
structure TokenList.Longest (ts : TokenList) (f : Phrase) (i j : Nat) : Prop where
  spells : ts.Spells f i j
  le {k : Nat} : ts.Spells f i k → k ≤ j

namespace TokenList.Longest

variable {ts : TokenList} {f g : Phrase} {stops : List TokenKind} {i j k : Nat}

theorem congr (h : ∀ k, ts.Spells f i k ↔ ts.Spells g i k) (hf : ts.Longest f i j) :
    ts.Longest g i j :=
  ⟨(h j).mp hf.spells, fun hg => hf.le ((h _).mpr hg)⟩

theorem part {n : Nonterminal} (h : ts.Longest n.rule i j) : ts.Longest (.part n) i j :=
  h.congr fun _ => Form.spans_part.symm

theorem assoc {h : Phrase} (hl : ts.Longest (f * (g * h)) i j) : ts.Longest (f * g * h) i j :=
  hl.congr fun _ => Form.spans_assoc.symm

/-- All phrases of such a form that begin at one token are equally long. -/
theorem of_extends (h : ts.Spells f i j) (hf : f.Extends stops) (hj : ts.kind j ∉ stops) :
    ts.Longest f i j :=
  ⟨h, fun hk => Nat.le_of_not_lt fun hlt => hj (hf ts i j _ h hk hlt)⟩

theorem of_not_mem_starts (h : ts.Spells f i i) (hi : ts.kind i ∉ f.starts) :
    ts.Longest f i i :=
  ⟨h, fun hk => (Spells.starts hk).elim (fun hs => (hi hs).elim) fun hs => Nat.le_of_eq hs.2⟩

theorem kinds {ks : List TokenKind} (hk : ts.kind i ∈ ks) :
    ts.Longest (Phrase.kinds ks) i (i + 1) :=
  ⟨spells_kinds.mpr ⟨hk, rfl⟩, fun h => Nat.le_of_eq (spells_kinds.mp h).2⟩

/-- Of two alternatives one is ruled out by the first token. -/
theorem left (hf : ts.Longest f i j) (hg : g.proper = true) (hi : ts.kind i ∉ g.starts) :
    ts.Longest (f + g) i j := by
  refine ⟨.left hf.spells, fun h => ?_⟩
  rcases Form.spans_add.mp h with h | h
  · exact hf.le h
  · exact (hi (Spells.kind_mem h hg)).elim

theorem right (hg : ts.Longest g i j) (hf : f.proper = true) (hi : ts.kind i ∉ f.starts) :
    ts.Longest (f + g) i j := by
  refine ⟨.right hg.spells, fun h => ?_⟩
  rcases Form.spans_add.mp h with h | h
  · exact (hi (Spells.kind_mem h hf)).elim
  · exact hg.le h

/-- No second part begins where a shorter first part could have ended. -/
theorem mul (hf : ts.Longest f i j) (hg : ts.Longest g j k) (hs : f.Extends stops)
    (hn : ∀ k ∈ g.starts, k ∉ stops) : ts.Longest (f * g) i k := by
  refine ⟨.seq hf.spells hg.spells, fun {m} h => ?_⟩
  obtain ⟨u, hu, hm⟩ := Form.spans_mul.mp h
  have hle := hg.spells.le
  rcases Nat.lt_or_eq_of_le (hf.le hu) with hlt | rfl
  · have hk := hs ts i u j hu hf.spells hlt
    rcases TokenList.Spells.starts hm with hst | ⟨_, rfl⟩
    · exact (hn _ hst hk).elim
    · omega
  · exact hg.le hm

theorem kinds_mul {ks : List TokenKind} (hk : ts.kind i ∈ ks) (h : ts.Longest f (i + 1) j) :
    ts.Longest (Phrase.kinds ks * f) i j :=
  (kinds hk).mul h (Form.Extends.letter _) fun _ _ => List.not_mem_nil

theorem kind_mul {l : TokenKind} (hk : ts.kind i = l) (h : ts.Longest f (i + 1) j) :
    ts.Longest (Phrase.kind l * f) i j := kinds_mul (List.mem_singleton.mpr hk) h

theorem take (h : ts.Longest f i j) : ts.Longest (.opt f) i j :=
  ⟨.take h.spells, fun hk => (Form.spans_opt.mp hk).elim (fun he => he ▸ h.spells.le) h.le⟩

theorem step (hf : ts.Longest f i j) (hs : ts.Longest (.star f) j k) (he : f.Extends stops)
    (hn : ∀ k ∈ f.starts, k ∉ stops) : ts.Longest (.star f) i k := by
  have hm : ts.Longest (f * .star f) i k := hf.mul hs he hn
  refine ⟨.step hf.spells hs.spells, fun h => ?_⟩
  rcases Form.spans_star.mp h with rfl | ⟨u, hu, hr⟩
  · exact hm.spells.le
  · exact hm.le (.seq hu hr)

end TokenList.Longest

variable {ts : TokenList} {f g : Phrase} {stops : List TokenKind} {rule : Rule}
variable {step : Nat → Except Fault (Option Stretch)} {s : Stretch}

/-- What a rule finds is the longest phrase there. -/
def Rule.Greedy (ts : TokenList) (f : Phrase) (rule : Rule) : Prop :=
  ∀ i n, rule i = .ok n → ts.Longest f i (n.last + 1)

/-- What a step finds is the longest phrase after a token, and where it finds none the next token
does not begin one. -/
structure GreedyAfter (ts : TokenList) (f : Phrase)
    (step : Nat → Except Fault (Option Stretch)) : Prop where
  found {last : Nat} {s : Stretch} : step last = .ok (some s) →
    ts.Longest f (last + 1) (s.last + 1)
  rests {last : Nat} : step last = .ok none → ts.kind (last + 1) ∉ f.starts

namespace GreedyAfter

variable {last : Nat}

/-- Repetition ends where nothing more can be taken, or at the end of the tokens. -/
theorem many_star (h : GreedyAfter ts f step) (hf : f.proper = true) (hb : f.bracketed = true)
    (he : f.Extends stops) (hn : ∀ k ∈ f.starts, k ∉ stops) {bound : Nat}
    (hs : many step bound last = .ok s) (hsize : ts.size ≤ last + 1 + bound) :
    ts.Longest (.star f) (last + 1) (s.last + 1) := by
  induction bound generalizing last s with
  | zero =>
    cases many_zero_eq_ok.mp hs
    refine ⟨.stop, fun hk => ?_⟩
    rcases Form.spans_star.mp hk with rfl | ⟨u, hu, _⟩
    · exact Nat.le_refl _
    · have := TokenList.Spells.lt_size hu hb hf
      have := TokenList.Spells.le hu
      omega
  | succ bound ih =>
    rcases many_succ_eq_ok.mp hs with ⟨ho, rfl⟩ | ⟨one, more, ho, hm, rfl⟩
    · exact .of_not_mem_starts .stop (h.rests ho)
    · have hone := h.found ho
      have := TokenList.Spells.lt hone.spells hf
      have hmore : ts.Longest (.star f) (one.last + 1) (more.last + 1) := ih hm (by omega)
      exact hone.step hmore he hn

theorem many_opt (h : GreedyAfter ts f step) (hs : many step 1 last = .ok s) :
    ts.Longest (.opt f) (last + 1) (s.last + 1) := by
  rcases many_succ_eq_ok.mp hs with ⟨ho, rfl⟩ | ⟨one, more, ho, hm, rfl⟩
  · exact .of_not_mem_starts .skip (h.rests ho)
  · cases many_zero_eq_ok.mp hm
    exact (h.found ho).take

end GreedyAfter

theorem announced_eq_none {p : TokenKind → Bool} {last : Nat} :
    announced ts p rule last = .ok none ↔ ¬p (ts.kind (last + 1)) = true := by
  unfold announced
  split
  next h => simp [h, bind_eq_ok]
  next h => simp [h]

theorem Form.starts_kinds_mul {ks : List TokenKind} :
    Form.starts (Phrase.kinds ks * f) = ks := List.append_nil ks

namespace Rule.Greedy

variable {i : Nat} {stops' : List TokenKind}

theorem part {n : Nonterminal} (hr : Rule.Greedy ts n.rule rule) : Rule.Greedy ts (.part n) rule :=
  fun i m h => (hr i m h).part

theorem chain_star (hr : Rule.Greedy ts g rule) (h : GreedyAfter ts f step)
    (hg : g.Extends stops) (hn : ∀ k ∈ f.starts, k ∉ stops) (hf : f.proper = true)
    (hb : f.bracketed = true) (he : f.Extends stops') (hn' : ∀ k ∈ f.starts, k ∉ stops')
    (hs : chain ts.size rule step i = .ok s) : ts.Longest (g * .star f) i (s.last + 1) := by
  obtain ⟨head, more, hh, hm, rfl⟩ := chain_eq_ok.mp hs
  have hmore : ts.Longest (.star f) (head.last + 1) (more.last + 1) :=
    h.many_star hf hb he hn' hm (by omega)
  exact (hr i head hh).mul hmore hg hn

theorem chain_opt (hr : Rule.Greedy ts g rule) (h : GreedyAfter ts f step)
    (hg : g.Extends stops) (hn : ∀ k ∈ f.starts, k ∉ stops) (hs : chain 1 rule step i = .ok s) :
    ts.Longest (g * .opt f) i (s.last + 1) := by
  obtain ⟨head, more, hh, hm, rfl⟩ := chain_eq_ok.mp hs
  have hmore : ts.Longest (.opt f) (head.last + 1) (more.last + 1) := h.many_opt hm
  exact (hr i head hh).mul hmore hg hn

/-- What a token announces that is the first of the phrase. -/
theorem announced (hr : Rule.Greedy ts f rule) {p : TokenKind → Bool}
    (hp : ∀ k, p k = true ↔ k ∈ f.starts) : GreedyAfter ts f (announced ts p rule) := by
  refine ⟨fun h => ?_, fun h hk => announced_eq_none.mp h ((hp _).mpr hk)⟩
  obtain ⟨_, n, hn, rfl⟩ := announced_eq_some.mp h
  exact hr _ _ hn

/-- What a token announces that stands before the phrase. -/
theorem announced_after (hr : Rule.Greedy ts f rule) (p : TokenKind → Bool)
    (ks : List TokenKind) (hp : ∀ k, p k = true ↔ k ∈ ks) :
    GreedyAfter ts (Phrase.kinds ks * f) (SqlSelect.announced ts p fun i => rule (i + 1)) := by
  refine ⟨fun h => ?_, fun h hk => announced_eq_none.mp h ((hp _).mpr ?_)⟩
  · obtain ⟨hk, n, hn, rfl⟩ := announced_eq_some.mp h
    exact .kinds_mul ((hp _).mp hk) (hr _ _ hn)
  · rwa [Form.starts_kinds_mul] at hk

theorem commaList (hr : Rule.Greedy ts f rule) (he : f.Extends stops) (hb : f.bracketed = true)
    (hn : .comma ∉ stops) (hs : commaList ts rule i = .ok s) :
    ts.Longest (.separated f (Phrase.kind .comma)) i (s.last + 1) := by
  have hk : ∀ k ∈ [TokenKind.comma], k ∉ stops := by simpa using hn
  have hc : (Phrase.kind .comma * f).bracketed = true := by simp [hb]
  exact hr.chain_star (hr.announced_after _ _ (by simp)) he hk rfl hc he.letter_mul hk hs

end Rule.Greedy

end SqlSelect
