import SqlSelect.Proofs.Completing
import SqlSelect.Proofs.GreedyQuery
import SqlSelect.Proofs.RuleLimits

namespace SqlSelect

/-- A complaint about a token that does not fit, where no parenthesis is left open and none nests
too deep. -/
def Fault.Misfit (x : Fault) : Prop := x.complaint ≠ .unclosed ∧ x.complaint ≠ .tooDeep

/-- A complaint about what comes after `NOT` after a parenthesis that was looked past, though there
is no expression in the parenthesis. -/
def TokenList.Overlooks (ts : TokenList) (opening : Nat) (x : Fault) : Prop :=
  x.complaint = .expected .operatorAfterNot ∧ ∃ close, closing ts opening = .ok close ∧
    ts.kind (close + 1) = .not ∧ (ts.kind (close + 2)).isNegatable = false ∧ x.index = close + 2 ∧
    ¬ts.Spells (.part .expression) (opening + 1) close

/-- The tokens before the one that is complained about can begin a phrase, or those up to a
parenthesis can that was looked past. -/
def TokenList.Located (ts : TokenList) (f : Phrase) (i : Nat) (x : Fault) : Prop :=
  ts.Begins f i x.index ∨ ∃ opening, ts.Begins f i (opening + 1) ∧ ts.Overlooks opening x

def Rule.Locates (ts : TokenList) (f : Phrase) (rule : Rule) : Prop :=
  ∀ i x, rule i = .error x → x.Misfit → ts.Located f i x

def LocatesAfter (ts : TokenList) (f : Phrase) (step : Nat → Except Fault (Option Stretch)) :
    Prop :=
  ∀ last x, step last = .error x → x.Misfit → ts.Located f (last + 1) x

/-- What a rule finds is a phrase. -/
def Rule.Finds (ts : TokenList) (f : Phrase) (rule : Rule) : Prop :=
  ∀ i n, rule i = .ok n → ts.Spells f i (n.last + 1)

def FindsAfter (ts : TokenList) (f : Phrase) (step : Nat → Except Fault (Option Stretch)) : Prop :=
  ∀ last s, step last = .ok (some s) → ts.Spells f (last + 1) (s.last + 1)

theorem Rule.Greedy.finds {ts : TokenList} {f : Phrase} {rule : Rule} (h : rule.Greedy ts f) :
    rule.Finds ts f := fun i n hn => (h i n hn).spells

theorem GreedyAfter.finds {ts : TokenList} {f : Phrase}
    {step : Nat → Except Fault (Option Stretch)} (h : GreedyAfter ts f step) :
    FindsAfter ts f step := fun _ _ hs => (h.found hs).spells

theorem bind_eq_error {ε α β : Type} {x : Except ε α} {f : α → Except ε β} {e : ε} :
    x >>= f = .error e ↔ x = .error e ∨ ∃ a, x = .ok a ∧ f a = .error e := by
  cases x with
  | error e' =>
    constructor
    · intro h
      cases h
      exact .inl rfl
    · rintro (h | ⟨_, h, _⟩)
      · cases h
        rfl
      · cases h
  | ok a =>
    constructor
    · exact fun h => .inr ⟨a, rfl, h⟩
    · rintro (h | ⟨_, h, hf⟩)
      · cases h
      · cases h
        exact hf

theorem bind_ok_eq_error {ε α β : Type} {x : Except ε α} {make : α → β} {e : ε} :
    (x >>= fun a => .ok (make a)) = .error e ↔ x = .error e := by
  rw [bind_eq_error]
  exact or_iff_left fun ⟨_, _, h⟩ => nomatch h

variable {ts : TokenList} {f g : Phrase} {rule : Rule} {i u : Nat} {x : Fault} {s : Stretch}
variable {step : Nat → Except Fault (Option Stretch)}

namespace TokenList.Located

theorem mono {i' : Nat} (h : ts.Located f i x) (hb : ∀ j, ts.Begins f i j → ts.Begins g i' j) :
    ts.Located g i' x :=
  h.imp (hb _) fun ⟨o, hf, ho⟩ => ⟨o, hb _ hf, ho⟩

theorem mul (h : ts.Located f i x) (hg : g.written (fun _ => true) = true := by rfl) :
    ts.Located (f * g) i x := h.mono fun _ h => h.mul hg

theorem after (hf : ts.Spells f i u) (h : ts.Located g u x) : ts.Located (f * g) i x :=
  h.mono fun _ => .after hf

theorem part {n : Nonterminal} (h : ts.Located n.rule i x) : ts.Located (.part n) i x :=
  h.mono fun _ => .part

theorem assoc {k : Phrase} (h : ts.Located (f * (g * k)) i x) : ts.Located (f * g * k) i x :=
  h.mono fun _ => .assoc

theorem kinds_mul {ks : List TokenKind} (hk : ts.kind i ∈ ks) (h : ts.Located f (i + 1) x) :
    ts.Located (Phrase.kinds ks * f) i x := h.mono fun _ => .kinds_mul hk

theorem kind_mul {k : TokenKind} (hk : ts.kind i = k) (h : ts.Located f (i + 1) x) :
    ts.Located (Phrase.kind k * f) i x := h.mono fun _ => .kind_mul hk

theorem parenthesized (hk : ts.kind i = .leftParen) (h : ts.Located f (i + 1) x) :
    ts.Located (Phrase.parenthesized f) i x := h.mono fun _ => .parenthesized hk

/-- The first token of all is the one complained about. -/
theorem here {c : Complaint} (hf : f.written (fun _ => true) = true := by rfl) :
    ts.Located f i ⟨c, i⟩ := .inl (TokenList.begins_self i hf)

end TokenList.Located

open TokenList

theorem expect_eq_error {k : TokenKind} (h : expect ts k i = .error x) :
    x = ⟨.expected (.kind k), i⟩ := by
  unfold expect at h
  split at h
  next => cases h
  next => exact (Except.error.inj h).symm

/-- What begins with a keyword fits nowhere without it. -/
theorem TokenList.Located.keyword {β : Type} {k : TokenKind} {rest : Except Fault β}
    (h : (do expect ts k i; rest) = .error x) (hr : rest = .error x → ts.Located f (i + 1) x)
    (hf : f.written (fun _ => true) = true := by rfl) : ts.Located (Phrase.kind k * f) i x := by
  rcases bind_eq_error.mp h with h | ⟨_, hk, h⟩
  · cases expect_eq_error h
    exact .here hf
  · exact .kind_mul (expect_eq_ok.mp hk) (hr h)

/-- Where a parenthesis opens, no token is complained about until it is known where it closes. -/
theorem closing_bind_eq_error {β : Type} {rest : Nat → Except Fault β}
    (ho : ts.kind i = .leftParen) (h : closing ts i >>= rest = .error x) (hx : x.Misfit) :
    ∃ close, closing ts i = .ok close ∧ rest close = .error x := by
  exact (bind_eq_error.mp h).resolve_left fun hc => hx.1 (closing_complaint ho hc)

namespace LocatesAfter

variable {last bound : Nat}

theorem many_star (h : LocatesAfter ts f step) (hf : FindsAfter ts f step)
    (hs : many step bound last = .error x) (hx : x.Misfit) :
    ts.Located (.star f) (last + 1) x := by
  induction bound generalizing last with
  | zero => cases hs
  | succ bound ih =>
    rcases bind_eq_error.mp hs with hs | ⟨o, ho, hs⟩
    · exact (h last x hs hx).mono fun _ => .step
    cases o with
    | none => cases hs
    | some one =>
      exact (ih (bind_ok_eq_error.mp hs)).mono fun _ => .step_after (hf _ _ ho)

theorem many_opt (h : LocatesAfter ts f step) (hs : many step 1 last = .error x)
    (hx : x.Misfit) : ts.Located (.opt f) (last + 1) x := by
  rcases bind_eq_error.mp hs with hs | ⟨o, _, hs⟩
  · exact (h last x hs hx).mono fun _ => .take
  · cases o with
    | none => cases hs
    | some one =>
      rcases bind_eq_error.mp hs with hs | ⟨_, _, hs⟩
      · cases hs
      · cases hs

end LocatesAfter

namespace Rule.Locates

variable {bound : Nat}

theorem part {n : Nonterminal} (hr : Rule.Locates ts n.rule rule) : Rule.Locates ts (.part n) rule :=
  fun i x h hx => (hr i x h hx).part

theorem chain_star (hr : Rule.Locates ts g rule) (hg : rule.Finds ts g)
    (h : LocatesAfter ts f step) (hf : FindsAfter ts f step)
    (hs : chain bound rule step i = .error x) (hx : x.Misfit) :
    ts.Located (g * .star f) i x := by
  rcases bind_eq_error.mp hs with hs | ⟨head, hh, hs⟩
  · exact (hr i x hs hx).mul
  exact .after (hg i head hh) (h.many_star hf (bind_ok_eq_error.mp hs) hx)

theorem chain_opt (hr : Rule.Locates ts g rule) (hg : rule.Finds ts g)
    (h : LocatesAfter ts f step) (hs : chain 1 rule step i = .error x) (hx : x.Misfit) :
    ts.Located (g * .opt f) i x := by
  rcases bind_eq_error.mp hs with hs | ⟨head, hh, hs⟩
  · exact (hr i x hs hx).mul
  exact .after (hg i head hh) (h.many_opt (bind_ok_eq_error.mp hs) hx)

/-- What a token announces that is the first of the phrase. -/
theorem announced (hr : Rule.Locates ts f rule) (p : TokenKind → Bool) :
    LocatesAfter ts f (announced ts p rule) := by
  intro last x h hx
  unfold SqlSelect.announced at h
  split at h
  next =>
    exact hr _ x (bind_ok_eq_error.mp h) hx
  next => cases h

/-- What a token announces that stands before the phrase. -/
theorem announced_after (hr : Rule.Locates ts f rule) (p : TokenKind → Bool) (ks : List TokenKind)
    (hp : ∀ k, p k = true → k ∈ ks) :
    LocatesAfter ts (Phrase.kinds ks * f) (SqlSelect.announced ts p fun i => rule (i + 1)) := by
  intro last x h hx
  unfold SqlSelect.announced at h
  split at h
  next hk =>
    exact .kinds_mul (hp _ hk) (hr _ x (bind_ok_eq_error.mp h) hx)
  next => cases h

theorem commaList (hr : Rule.Locates ts f rule) (hg : rule.Finds ts f)
    (hs : commaList ts rule i = .error x) (hx : x.Misfit) :
    ts.Located (.separated f (Phrase.kind .comma)) i x := by
  refine hr.chain_star hg (hr.announced_after (· == .comma) [.comma] (by simp)) ?_ hs hx
  intro last s h
  obtain ⟨hk, n, hn, rfl⟩ := announced_eq_some.mp h
  exact TokenList.spells_kind_mul.mpr ⟨by simpa using hk, hg _ n hn⟩

end Rule.Locates

/-- Whatever is in a parenthesis, what does not fit there is told. -/
def Nest.Locates (ts : TokenList) (nest : Nest) : Prop :=
  ∀ blame e, Rule.Locates ts (.part e.nonterminal) (nest blame e)

/-- What does not fill a parenthesis ends before it closes. -/
theorem Nest.Locates.enclosed {nest : Nest} (hl : nest.Locates ts) (hm : nest.Makes ts)
    {e : Enclosed} {p close blame : Nat} {y : Expectation} (hp : ts.kind p = .leftParen)
    (h : fill nest blame e (p + 1) close y = .error x) (hx : x.Misfit) :
    ts.Located (Phrase.parenthesized (.part e.nonterminal)) p x := by
  refine .parenthesized hp ?_
  rcases bind_eq_error.mp h with h | ⟨inner, hi, h⟩
  · exact hl blame e _ x h hx
  · split at h
    next => cases h
    next =>
      cases h
      have hs : ts.Spells (.part e.nonterminal) (p + 1) (inner.last + 1) := by
        cases e <;> exact (hm blame _ _ inner hi).spells
      exact .inl hs.begins

end SqlSelect
