import SqlSelect.Proofs.Nesting
import SqlSelect.Proofs.Outcome

namespace SqlSelect

theorem not_mem_parentheses {p : TokenKind → Bool} {k : TokenKind} (h : p k = true)
    (ho : p .leftParen = false) (hc : p .rightParen = false) :
    k ∉ [TokenKind.leftParen, .rightParen] := by
  simp only [List.mem_cons, List.not_mem_nil, or_false, not_or]
  exact ⟨fun hk => by simp [hk, ho] at h, fun hk => by simp [hk, hc] at h⟩

theorem expect_ne_tooDeep {ts : TokenList} {k : TokenKind} {i : Nat} (q : Nat) :
    expect ts k i ≠ .error ⟨.tooDeep, q⟩ := by
  unfold expect
  split
  next => exact nofun
  next => exact nofun

/-- A complaint about the parenthesis that opens at `p` can be about the token at `q`: that one, or
the name of the function that it belongs to. -/
def TokenList.Blames (ts : TokenList) (p q : Nat) : Prop :=
  q = p ∨ q + 1 = p ∧ (ts.kind q).isFunction = true

/-- What comes of parsing from `i` on with `d` levels of parentheses, and with more of them. Both
are one, and with a result parentheses nest no deeper than `d` in it; or the first complains
about the first parenthesis that is deeper, which the second has taken in if it has a result. -/
inductive Limited {α : Type} (ts : TokenList) (d i : Nat) (last : α → Nat) :
    Except Fault α → Except Fault α → Prop
  | ok {a} : ts.Within d i (last a + 1) → Limited ts d i last (.ok a) (.ok a)
  | error {f} : f.complaint ≠ .tooDeep → Limited ts d i last (.error f) (.error f)
  | deep {p q r} : ts.Blames p q → ts.Exceeds d i p → (∀ a, r = .ok a → p ≤ last a) →
      Limited ts d i last (.error ⟨.tooDeep, q⟩) r

namespace Limited

variable {α β : Type} {ts : TokenList} {d i j p : Nat} {last : α → Nat} {last' : β → Nat}
variable {r r' : Except Fault α} {f f' : α → Except Fault β}

theorem expected {e : Expectation} :
    Limited ts d i last (Fault.expected e j) (Fault.expected e j) := .error nofun

theorem le (h : Limited ts d i last r r') {a : α} (ha : r' = .ok a) : i ≤ last a + 1 := by
  cases h with
  | ok hw =>
    cases ha
    exact hw.le
  | error => cases ha
  | deep _ hp hl =>
    have := hp.le
    have := hl a ha
    omega

theorem after (hw : ts.Within d i j) (h : Limited ts d j last r r') :
    Limited ts d i last r r' := by
  cases h with
  | ok h => exact .ok (hw.trans h)
  | error hf => exact .error hf
  | deep hb hp hl => exact .deep hb (hp.after hw) hl

theorem token (hk : ts.kind i ∉ [TokenKind.leftParen, .rightParen])
    (h : Limited ts d (i + 1) last r r') : Limited ts d i last r r' := after (.token hk) h

theorem bind (h : Limited ts d i last r r')
    (hf : ∀ a, r' = .ok a → Limited ts d (last a + 1) last' (f a) (f' a)) :
    Limited ts d i last' (r >>= f) (r' >>= f') := by
  cases h with
  | ok hw => exact after hw (hf _ rfl)
  | error hne => exact .error hne
  | deep hb hp hl =>
    refine .deep hb hp fun b h => ?_
    obtain ⟨a, ha, h⟩ := bind_eq_ok.mp h
    have := hl a ha
    have := (hf a ha).le h
    omega

/-- What is done before, without a limit, is the same in both. -/
theorem same {x : Except Fault α} (hx : ∀ q, x ≠ .error ⟨.tooDeep, q⟩)
    (hf : ∀ a, x = .ok a → Limited ts d i last' (f a) (f' a)) :
    Limited ts d i last' (x >>= f) (x >>= f') := by
  cases x with
  | ok a => exact hf a rfl
  | error g =>
    refine .error fun hg => hx g.index ?_
    rw [← hg]

theorem expect {k : TokenKind} {f f' : Unit → Except Fault β}
    (hk : k ∉ [TokenKind.leftParen, .rightParen])
    (h : Limited ts d (i + 1) last' (f ()) (f' ())) :
    Limited ts d i last' (expect ts k i >>= f) (expect ts k i >>= f') := by
  refine same expect_ne_tooDeep fun _ he => token ?_ h
  rw [expect_eq_ok.mp he]
  exact hk

end Limited

/-- What comes of parsing from `i` on, inside a parenthesis before which `d` more levels were
allowed. -/
def Inside {α : Type} (ts : TokenList) (d i : Nat) (last : α → Nat) (blame : Nat)
    (r r' : Except Fault α) : Prop :=
  match d with
  | 0 => r = .error ⟨.tooDeep, blame⟩ ∧ ∀ a, r' = .ok a → i ≤ last a + 1
  | d + 1 => Limited ts d i last r r'

def Nest.Limits (ts : TokenList) (d : Nat) (nest nest' : Nest) : Prop :=
  ∀ blame e i, Inside ts d i Node.last blame (nest blame e i) (nest' blame e i)

def Rule.Limits (ts : TokenList) (d : Nat) (rule rule' : Rule) : Prop :=
  ∀ i, Limited ts d i Node.last (rule i) (rule' i)

/-- The last token after a step that began after the one at `last`. -/
def Stretch.lastOf (last : Nat) : Option Stretch → Nat
  | none => last
  | some s => s.last

def StepLimits (ts : TokenList) (d : Nat) (step step' : Nat → Except Fault (Option Stretch)) :
    Prop :=
  ∀ last, Limited ts d (last + 1) (Stretch.lastOf last) (step last) (step' last)

section

variable {ts : TokenList} {d i p : Nat} {rule rule' : Rule}
variable {step step' : Nat → Except Fault (Option Stretch)}

theorem StepLimits.many (h : StepLimits ts d step step') (bound last : Nat) :
    Limited ts d (last + 1) Stretch.last (many step bound last) (many step' bound last) := by
  induction bound generalizing last with
  | zero => exact .ok (.refl d _)
  | succ bound ih =>
    refine (h last).bind fun o _ => ?_
    cases o with
    | none => exact .ok (.refl d _)
    | some s => exact (ih s.last).bind fun more _ => .ok (.refl d _)

theorem Rule.Limits.chain (hr : Rule.Limits ts d rule rule') (h : StepLimits ts d step step')
    (bound i : Nat) :
    Limited ts d i Stretch.last (chain bound rule step i) (chain bound rule' step' i) :=
  (hr i).bind fun head _ => (h.many bound head.last).bind fun _ _ => .ok (.refl d _)

/-- What a token announces begins with it. -/
theorem Rule.Limits.announced (hr : Rule.Limits ts d rule rule') (p : TokenKind → Bool) :
    StepLimits ts d (announced ts p rule) (announced ts p rule') := by
  intro last
  unfold SqlSelect.announced
  split
  next => exact (hr (last + 1)).bind fun n _ => .ok (.refl d _)
  next => exact .ok (.refl d _)

/-- What a token announces begins after it. -/
theorem Rule.Limits.announced_after (hr : Rule.Limits ts d rule rule') (p : TokenKind → Bool)
    (ho : p .leftParen = false) (hc : p .rightParen = false) :
    StepLimits ts d (SqlSelect.announced ts p fun i => rule (i + 1))
      (SqlSelect.announced ts p fun i => rule' (i + 1)) := by
  intro last
  unfold SqlSelect.announced
  split
  next hk =>
    exact .token (not_mem_parentheses hk ho hc) ((hr (last + 2)).bind fun n _ => .ok (.refl d _))
  next => exact .ok (.refl d _)

theorem Rule.Limits.commaList (hr : Rule.Limits ts d rule rule') (i : Nat) :
    Limited ts d i Stretch.last (commaList ts rule i) (commaList ts rule' i) :=
  hr.chain (hr.announced_after (· == .comma) rfl rfl) ts.size i

/-- The parenthesis around what is inside is one level more. -/
theorem Inside.parenthesized {α β : Type} {last : α → Nat} {last' : β → Nat} {blame : Nat}
    {r r' : Except Fault α} {f : α → Except Fault β} (h : Inside ts d (p + 1) last blame r r')
    (ho : ts.kind p = .leftParen) (hb : ts.Blames p blame)
    (hf : ∀ a, (∃ b, f a = .ok b ∧ last' b = last a + 1 ∧ ts.kind (last a + 1) = .rightParen) ∨
      ∃ g, f a = .error g ∧ g.complaint ≠ .tooDeep) :
    Limited ts d p last' (r >>= f) (r' >>= f) := by
  have hlast {a : α} {b : β} (hb : f a = .ok b) : last' b = last a + 1 := by
    rcases hf a with ⟨b', hb', hl, _⟩ | ⟨g, hg, _⟩
    · cases hb.symm.trans hb'
      exact hl
    · cases hb.symm.trans hg
  cases d with
  | zero =>
    obtain ⟨rfl, hle⟩ := h
    refine .deep hb (.here ho) fun b h => ?_
    obtain ⟨a, ha, hb⟩ := bind_eq_ok.mp h
    have := hle a ha
    have := hlast hb
    omega
  | succ d =>
    cases h with
    | @ok a hw =>
      rcases hf a with ⟨b, hb, hl, hc⟩ | ⟨g, hg, hne⟩
      · show Limited ts (d + 1) p last' (f a) (f a)
        rw [hb]
        refine .ok ?_
        rw [hl]
        exact hw.parenthesized ho hc
      · show Limited ts (d + 1) p last' (f a) (f a)
        rw [hg]
        exact .error hne
    | error hne => exact .error hne
    | deep hb' hp hl =>
      refine .deep hb' (hp.inside ho) fun b h => ?_
      obtain ⟨a, ha, hb⟩ := bind_eq_ok.mp h
      have := hl a ha
      have := hlast hb
      omega

/-- In a list all items are on the same level. -/
theorem Inside.commaList {blame : Nat}
    (h : ∀ i, Inside ts d i Node.last blame (rule i) (rule' i)) (i : Nat) :
    Inside ts d i Stretch.last blame (commaList ts rule i) (commaList ts rule' i) := by
  cases d with
  | zero =>
    refine ⟨?_, fun s hs => ?_⟩
    · unfold SqlSelect.commaList chain
      rw [(h i).1]
      rfl
    · obtain ⟨head, more, hh, hm, rfl⟩ := chain_eq_ok.mp hs
      have hi := (h i).2 head hh
      have hle : head.last ≤ more.last := many_le (fun last s hs => ?_) hm
      · dsimp only
        omega
      · obtain ⟨_, n, hn, rfl⟩ := announced_eq_some.mp hs
        have := (h _).2 n hn
        dsimp only [Stretch.ofNode]
        omega
  | succ d => exact Rule.Limits.commaList h i

theorem Nest.Limits.fill {nest nest' : Nest} (hn : Nest.Limits ts d nest nest')
    (ho : ts.kind p = .leftParen) {blame close : Nat} (hb : ts.Blames p blame)
    (hc : ts.kind close = .rightParen) (e : Enclosed) (x : Expectation) :
    Limited ts d p (·.last + 1) (fill nest blame e (p + 1) close x)
      (fill nest' blame e (p + 1) close x) := by
  refine (hn blame e (p + 1)).parenthesized ho hb fun n => ?_
  by_cases hl : n.last + 1 = close
  · exact .inl ⟨n, if_pos hl, rfl, hl ▸ hc⟩
  · exact .inr ⟨_, if_neg hl, nofun⟩

end

end SqlSelect
