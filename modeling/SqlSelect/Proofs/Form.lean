namespace SqlSelect

/-- The right side of a rule, over letters `τ` and names of rules `ν`. -/
inductive Form (τ ν : Type) where
  | one (t : τ)
  | part (n : ν)
  | between (a b : τ) (f : Form τ ν)
  | seq (f g : Form τ ν)
  | alt (f g : Form τ ν)
  | opt (f : Form τ ν)
  | star (f : Form τ ν)

namespace Form

variable {τ ν ι μ P : Type}

instance : Mul (Form τ ν) := ⟨seq⟩

instance : Add (Form τ ν) := ⟨alt⟩

/-- One phrase or more, with a separator between every two. -/
def separated (f separator : Form τ ν) : Form τ ν := f * (separator * f).star

/-- The ways from one place to another that a form allows, where a letter says which steps it
allows and a name stands for its rule. -/
inductive Spans (letter : τ → P → P → Prop) (rules : ν → Form τ ν) : Form τ ν → P → P → Prop
  | one {t s s'} : letter t s s' → Spans letter rules (one t) s s'
  | part {n s s'} : Spans letter rules (rules n) s s' → Spans letter rules (part n) s s'
  | between {a b f s u u' s'} : letter a s u → Spans letter rules f u u' → letter b u' s' →
      Spans letter rules (between a b f) s s'
  | seq {f g s u s'} : Spans letter rules f s u → Spans letter rules g u s' →
      Spans letter rules (f * g) s s'
  | left {f g s s'} : Spans letter rules f s s' → Spans letter rules (f + g) s s'
  | right {f g s s'} : Spans letter rules g s s' → Spans letter rules (f + g) s s'
  | skip {f s} : Spans letter rules (opt f) s s
  | take {f s s'} : Spans letter rules f s s' → Spans letter rules (opt f) s s'
  | stop {f s} : Spans letter rules (star f) s s
  | step {f s u s'} : Spans letter rules f s u → Spans letter rules (star f) u s' →
      Spans letter rules (star f) s s'

variable {letter : τ → P → P → Prop} {rules : ν → Form τ ν} {f g : Form τ ν} {s s' : P}

@[simp] theorem spans_one {t : τ} : Spans letter rules (one t) s s' ↔ letter t s s' :=
  ⟨fun h => by cases h; assumption, .one⟩

theorem spans_part {n : ν} :
    Spans letter rules (part n) s s' ↔ Spans letter rules (rules n) s s' :=
  ⟨fun h => by cases h; assumption, .part⟩

@[simp] theorem spans_between {a b : τ} : Spans letter rules (between a b f) s s' ↔
    ∃ u u', letter a s u ∧ Spans letter rules f u u' ∧ letter b u' s' :=
  ⟨fun h => by cases h with | between ha hf hb => exact ⟨_, _, ha, hf, hb⟩,
    fun ⟨_, _, ha, hf, hb⟩ => .between ha hf hb⟩

@[simp] theorem spans_mul :
    Spans letter rules (f * g) s s' ↔ ∃ u, Spans letter rules f s u ∧ Spans letter rules g u s' :=
  ⟨fun h => by cases h with | seq hf hg => exact ⟨_, hf, hg⟩, fun ⟨_, hf, hg⟩ => .seq hf hg⟩

@[simp] theorem spans_add :
    Spans letter rules (f + g) s s' ↔ Spans letter rules f s s' ∨ Spans letter rules g s s' := by
  constructor
  · intro h
    cases h with
    | left h => exact .inl h
    | right h => exact .inr h
  · rintro (h | h)
    · exact .left h
    · exact .right h

@[simp] theorem spans_opt :
    Spans letter rules (opt f) s s' ↔ s' = s ∨ Spans letter rules f s s' := by
  constructor
  · intro h
    cases h with
    | skip => exact .inl rfl
    | take h => exact .inr h
  · rintro (rfl | h)
    · exact .skip
    · exact .take h

theorem spans_star : Spans letter rules (star f) s s' ↔
    s' = s ∨ ∃ u, Spans letter rules f s u ∧ Spans letter rules (star f) u s' := by
  constructor
  · intro h
    cases h with
    | stop => exact .inl rfl
    | step hf hs => exact .inr ⟨_, hf, hs⟩
  · rintro (rfl | ⟨_, hf, hs⟩)
    · exact .stop
    · exact .step hf hs

theorem spans_assoc {k : Form τ ν} :
    Spans letter rules (f * g * k) s s' ↔ Spans letter rules (f * (g * k)) s s' := by
  simp only [spans_mul]
  constructor
  · rintro ⟨u, ⟨v, hf, hg⟩, hk⟩
    exact ⟨v, hf, u, hg, hk⟩
  · rintro ⟨v, hf, u, hg, hk⟩
    exact ⟨u, ⟨v, hf, hg⟩, hk⟩

theorem Spans.star_mono (hfg : ∀ s s', Spans letter rules f s s' → Spans letter rules g s s')
    (h : Spans letter rules (.star f) s s') : Spans letter rules (.star g) s s' := by
  generalize he : Form.star f = e at h
  induction h with
  | stop => cases he; exact .stop
  | step hf _ _ ih => cases he; exact .step (hfg _ _ hf) (ih rfl)
  | _ => cases he

/-- Brackets are two letters more. -/
theorem Spans.bracket {a b : τ} (h : Spans letter rules (.one a * f * .one b) s s') :
    Spans letter rules (.between a b f) s s' := by
  obtain ⟨u', h, hb⟩ := spans_mul.mp h
  obtain ⟨u, ha, hf⟩ := spans_mul.mp h
  exact .between (spans_one.mp ha) hf (spans_one.mp hb)

/-- What is spelt in one way is spelt in another, where the places correspond to one another. -/
theorem Spans.simulate {Q : Type} {letter' : τ → Q → Q → Prop} {R : P → Q → Prop}
    (h : Spans letter rules f s s')
    (hl : ∀ t s s' q, letter t s s' → R s q → ∃ q', letter' t q q' ∧ R s' q') {q : Q} (hq : R s q) :
    ∃ q', Spans letter' rules f q q' ∧ R s' q' := by
  induction h generalizing q with
  | one h =>
    obtain ⟨q', ht, hq⟩ := hl _ _ _ _ h hq
    exact ⟨q', .one ht, hq⟩
  | part _ ih =>
    obtain ⟨q', hf, hq⟩ := ih hq
    exact ⟨q', .part hf, hq⟩
  | between ha _ hb ih =>
    obtain ⟨_, hta, hq⟩ := hl _ _ _ _ ha hq
    obtain ⟨_, hf, hq⟩ := ih hq
    obtain ⟨q', htb, hq⟩ := hl _ _ _ _ hb hq
    exact ⟨q', .between hta hf htb, hq⟩
  | seq _ _ ihf ihg =>
    obtain ⟨_, hf, hq⟩ := ihf hq
    obtain ⟨q', hg, hq⟩ := ihg hq
    exact ⟨q', .seq hf hg, hq⟩
  | left _ ih =>
    obtain ⟨q', hf, hq⟩ := ih hq
    exact ⟨q', .left hf, hq⟩
  | right _ ih =>
    obtain ⟨q', hf, hq⟩ := ih hq
    exact ⟨q', .right hf, hq⟩
  | skip => exact ⟨q, .skip, hq⟩
  | take _ ih =>
    obtain ⟨q', hf, hq⟩ := ih hq
    exact ⟨q', .take hf, hq⟩
  | stop => exact ⟨q, .stop, hq⟩
  | step _ _ ihf ihs =>
    obtain ⟨_, hf, hq⟩ := ihf hq
    obtain ⟨q', hs, hq⟩ := ihs hq
    exact ⟨q', .step hf hs, hq⟩

/-- Whether a form asks for a letter at least; a name stands for one that does. -/
def proper : Form τ ν → Bool
  | one _ | part _ | between _ _ _ => true
  | seq f g => f.proper || g.proper
  | alt f g => f.proper && g.proper
  | opt _ | star _ => false

@[simp] theorem proper_mul : (f * g).proper = (f.proper || g.proper) := rfl

/-- All letters of a form have a property, the brackets included. -/
def Uses (p : τ → Prop) : Form τ ν → Prop
  | one t => p t
  | part _ => True
  | between a b f => p a ∧ p b ∧ f.Uses p
  | seq f g | alt f g => f.Uses p ∧ g.Uses p
  | opt f | star f => f.Uses p

instance decidableUses (p : τ → Prop) [DecidablePred p] : (f : Form τ ν) → Decidable (f.Uses p)
  | one t => inferInstanceAs (Decidable (p t))
  | part _ => isTrue trivial
  | between a b f =>
    have := decidableUses p f
    inferInstanceAs (Decidable (p a ∧ p b ∧ f.Uses p))
  | seq f g | alt f g =>
    have := decidableUses p f
    have := decidableUses p g
    inferInstanceAs (Decidable (f.Uses p ∧ g.Uses p))
  | opt f | star f => decidableUses p f

theorem Uses.mono {p q : τ → Prop} {f : Form τ ν} (h : f.Uses p) (hq : ∀ t, p t → q t) :
    f.Uses q := by
  induction f with
  | one t => exact hq t h
  | part => trivial
  | between a b _ ih => exact ⟨hq a h.1, hq b h.2.1, ih h.2.2⟩
  | seq _ _ ihf ihg | alt _ _ ihf ihg => exact ⟨ihf h.1, ihg h.2⟩
  | opt _ ih | star _ ih => exact ih h

theorem uses_true (f : Form τ ν) : f.Uses fun _ => True := by
  induction f with
  | one | part => trivial
  | between _ _ _ ih => exact ⟨trivial, trivial, ih⟩
  | seq _ _ ihf ihg | alt _ _ ihf ihg => exact ⟨ihf, ihg⟩
  | opt _ ih | star _ ih => exact ih

/-- A preorder that the letters of a form keep to holds from where a form begins to where it
ends. -/
theorem Spans.related {R : P → P → Prop} {p : τ → Prop} (refl : ∀ s, R s s)
    (trans : ∀ s u s', R s u → R u s' → R s s') (hl : ∀ t s s', p t → letter t s s' → R s s')
    (hr : ∀ n, (rules n).Uses p) (h : Spans letter rules f s s') (hf : f.Uses p) : R s s' := by
  induction h with
  | one h => exact hl _ _ _ hf h
  | part _ ih => exact ih (hr _)
  | between ha _ hb ih =>
    exact trans _ _ _ (hl _ _ _ hf.1 ha) (trans _ _ _ (ih hf.2.2) (hl _ _ _ hf.2.1 hb))
  | seq _ _ ihf ihg => exact trans _ _ _ (ihf hf.1) (ihg hf.2)
  | left _ ih => exact ih hf.1
  | right _ ih => exact ih hf.2
  | skip | stop => exact refl _
  | take _ ih => exact ih hf
  | step _ _ ihf ihg => exact trans _ _ _ (ihf hf) (ihg hf)

section

variable {size : P → Nat} (hl : ∀ t s s', letter t s s' → size s < size s')

include hl

theorem Spans.le (h : Spans letter rules f s s') : size s ≤ size s' :=
  h.related (R := fun s s' => size s ≤ size s') (p := fun _ => True) (fun _ => Nat.le_refl _)
    (fun _ _ _ => Nat.le_trans) (fun _ _ _ _ h => Nat.le_of_lt (hl _ _ _ h))
    (fun n => uses_true (rules n)) (uses_true f)

theorem Spans.lt (hr : ∀ n, (rules n).proper = true) (h : Spans letter rules f s s')
    (hf : f.proper = true) : size s < size s' := by
  induction h with
  | one h => exact hl _ _ _ h
  | part _ ih => exact ih (hr _)
  | between ha hi hb _ =>
    have := hl _ _ _ ha
    have := hi.le hl
    have := hl _ _ _ hb
    omega
  | seq hf' hg ihf ihg =>
    have := hf'.le hl
    have := hg.le hl
    rcases (Bool.or_eq_true _ _).mp hf with hf | hf
    · have := ihf hf
      omega
    · have := ihg hf
      omega
  | left _ ih => exact ih ((Bool.and_eq_true _ _).mp hf).1
  | right _ ih => exact ih ((Bool.and_eq_true _ _).mp hf).2
  | skip | take | stop | step => exact nomatch hf

end

end Form

end SqlSelect
