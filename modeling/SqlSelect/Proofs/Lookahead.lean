import SqlSelect.Production.Parenthesis
import SqlSelect.Proofs.Spelling

namespace SqlSelect

open Nonterminal

def Terminal.kinds : Terminal → List TokenKind
  | .among ks => ks
  | .value => [.number]

theorem Terminal.Accepts.mem_kinds {t : Token} {letter : Terminal} (h : letter.Accepts t) :
    t.kind ∈ letter.kinds := by
  cases letter with
  | among ks => exact h
  | value => exact List.mem_singleton.mpr h.1

def Nonterminal.atomKinds : List TokenKind := [.number, .string, .star, .parameter, .question]

/-- The kinds of the tokens that a phrase of each rule begins with. -/
def Nonterminal.starts : Nonterminal → List TokenKind
  | .query | .selectQuery | .select => [.select]
  | .field | .condition | .conditionTerm | .expression =>
    functionKinds ++ [.plus, .minus, .literal, .leftParen] ++ atomKinds
  | .from => [.from]
  | .source => [.literal, .leftParen]
  | .join => joinKinds
  | .where => [.where]
  | .having => [.having]
  | .operand => functionKinds ++ [.literal, .leftParen] ++ atomKinds
  | .operator => .not :: operatorKinds
  | .function => functionKinds
  | .list => [.leftParen]
  | .groupBy => [.groupBy]
  | .orderBy => [.orderBy]
  | .orderedColumn => [.literal]
  | .limit => [.limit]

/-- The kinds of the tokens by which a phrase of each rule could go on. -/
def Nonterminal.extending : Nonterminal → List TokenKind
  | .function | .list | .operator => []
  | .operand | .source => [.dot]
  | .conditionTerm | .expression => .dot :: .not :: .in :: operatorKinds
  | .field => .dot :: .not :: .in :: .as :: .literal :: operatorKinds
  | .select => .comma :: .dot :: .not :: .in :: .as :: .literal :: operatorKinds
  | .from => [.dot, .as, .literal]
  | .condition | .where | .having => .and :: .or :: .dot :: .not :: .in :: operatorKinds
  | .join => .on :: .as :: .literal :: .and :: .or :: .dot :: .not :: .in :: operatorKinds
  | .orderedColumn => [.dot, .asc, .desc]
  | .groupBy | .orderBy => [.dot, .asc, .desc, .comma]
  | .limit => [.comma, .offset]
  | .selectQuery =>
    .where :: .groupBy :: .having :: .orderBy :: .limit :: .comma :: .offset :: .asc :: .desc
      :: .on :: .as :: .literal :: .and :: .or :: .dot :: .not :: .in :: joinKinds ++ operatorKinds
  | .query =>
    .union :: .where :: .groupBy :: .having :: .orderBy :: .limit :: .comma :: .offset :: .asc
      :: .desc :: .on :: .as :: .literal :: .and :: .or :: .dot :: .not :: .in :: joinKinds
      ++ operatorKinds

namespace Form

def starts : Phrase → List TokenKind
  | one t | between t _ _ => t.kinds
  | part n => n.starts
  | seq f g => f.starts ++ if f.proper then [] else g.starts
  | alt f g => f.starts ++ g.starts
  | opt f | star f => f.starts

/-- Parentheses stand in a phrase as brackets only, and an end of input not at all. -/
def bracketed : Phrase → Bool
  | one t => t.kinds.all (· ∉ [TokenKind.leftParen, .rightParen, .eof])
  | part _ => true
  | between a b f => a.kinds = [.leftParen] && b.kinds = [.rightParen] && f.bracketed
  | seq f g | alt f g => f.bracketed && g.bracketed
  | opt f | star f => f.bracketed

@[simp] theorem bracketed_mul {f g : Phrase} :
    (f * g).bracketed = (f.bracketed && g.bracketed) := rfl

@[simp] theorem bracketed_kind {k : TokenKind} : Form.bracketed (Phrase.kind k) =
    decide (k ∉ [TokenKind.leftParen, .rightParen, .eof]) := Bool.and_true _

end Form

theorem Form.uses_of_bracketed {f : Phrase} (h : f.bracketed = true) :
    f.Uses fun t => .eof ∉ t.kinds := by
  induction f with
  | one t => exact fun he => by simpa using List.all_eq_true.mp h _ he
  | part => trivial
  | between a b f ih =>
    simp only [bracketed, Bool.and_eq_true, decide_eq_true_eq] at h
    simp [Uses, h, ih]
  | seq f g ihf ihg | alt f g ihf ihg =>
    have h := (Bool.and_eq_true _ _).mp h
    exact ⟨ihf h.1, ihg h.2⟩
  | opt _ ih | star _ ih => exact ih h

theorem Nonterminal.starts_rule (n : Nonterminal) : ∀ k ∈ n.rule.starts, k ∈ n.starts := by
  cases n <;> decide

theorem Nonterminal.bracketed_rule (n : Nonterminal) : n.rule.bracketed = true := by
  cases n <;> decide

section

variable {ts : TokenList} {bound i inner : Nat} {outer : List Nat}

theorem closeFrom_leftParen (h : ts.kind i = .leftParen) :
    closeFrom ts (bound + 1) i inner outer = closeFrom ts bound (i + 1) i (inner :: outer) := by
  simp only [closeFrom, h]

theorem closeFrom_rightParen (h : ts.kind i = .rightParen) {next : Nat} :
    closeFrom ts (bound + 1) i inner (next :: outer) = closeFrom ts bound (i + 1) next outer := by
  simp only [closeFrom, h]

theorem closeFrom_of_not_mem (h : ts.kind i ∉ [TokenKind.leftParen, .rightParen, .eof]) :
    closeFrom ts (bound + 1) i inner outer = closeFrom ts bound (i + 1) inner outer := by
  simp only [List.mem_cons, List.not_mem_nil, or_false, not_or] at h
  simp only [closeFrom]
  split
  next hk => exact (h.1 hk).elim
  next hk => exact (h.2.1 hk).elim
  next hk => exact (h.2.2 hk).elim
  next => rfl

end

namespace TokenList

variable {ts : TokenList} {f g : Phrase} {i j : Nat}

theorem kind_not_mem_mono {ks ks' : List TokenKind} (hs : ∀ k ∈ ks, k ∈ ks')
    (h : ts.kind i ∉ ks') : ts.kind i ∉ ks := fun hk => h (hs _ hk)

theorem Spells.starts (h : ts.Spells f i j) : ts.kind i ∈ f.starts ∨ f.proper = false ∧ j = i := by
  induction h with
  | one h | between h => exact .inl h.1.mem_kinds
  | @part n _ _ _ ih =>
    rcases ih with hk | ⟨hf, _⟩
    · exact .inl (n.starts_rule _ hk)
    · rw [n.rule_proper] at hf
      cases hf
  | @seq f g s u s' _ _ ihf ihg =>
    rcases ihf with hk | ⟨hf, rfl⟩
    · exact .inl (List.mem_append_left _ hk)
    · rcases ihg with hk | ⟨hg, rfl⟩
      · refine .inl (List.mem_append_right _ ?_)
        rw [hf]
        exact hk
      · exact .inr ⟨(Bool.or_eq_false_iff).mpr ⟨hf, hg⟩, rfl⟩
  | left _ ih =>
    refine ih.imp (List.mem_append_left _) fun h => ⟨?_, h.2⟩
    exact (Bool.and_eq_false_iff).mpr (.inl h.1)
  | right _ ih =>
    refine ih.imp (List.mem_append_right _) fun h => ⟨?_, h.2⟩
    exact (Bool.and_eq_false_iff).mpr (.inr h.1)
  | skip | stop => exact .inr ⟨rfl, rfl⟩
  | take _ ih => exact ih.imp_right fun h => ⟨rfl, h.2⟩
  | step _ _ ihf ihs =>
    rcases ihf with hk | ⟨_, rfl⟩
    · exact .inl hk
    · exact ihs

theorem Spells.kind_mem (h : ts.Spells f i j) (hf : f.proper = true) : ts.kind i ∈ f.starts :=
  h.starts.resolve_right fun hn => by
    rw [hf] at hn
    cases hn.1

theorem Spells.absurd_kind {k : TokenKind} (h : ts.Spells f i j) (hi : ts.kind i = k)
    (hf : f.proper = true) (hk : k ∉ f.starts) : False := hk (hi ▸ h.kind_mem hf)

/-- What does not follow a phrase does not begin it, and then not what comes before it either. -/
theorem Spells.kind_not_mem {ks : List TokenKind} (h : ts.Spells f i j)
    (hf : ∀ k ∈ f.starts, k ∉ ks) (hj : ts.kind j ∉ ks) : ts.kind i ∉ ks := by
  rcases h.starts with hk | ⟨_, rfl⟩
  · exact hf _ hk
  · exact hj

theorem Spells.kind_ne_eof (h : ts.Spells f i j) (hf : f.bracketed = true) {m : Nat}
    (hi : i ≤ m) (hm : m < j) : ts.kind m ≠ .eof := by
  refine Form.Spans.related (R := fun i j => ∀ m, i ≤ m → m < j → ts.kind m ≠ .eof)
    (fun i m hi hm => by omega) ?_ ?_ (fun n => Form.uses_of_bracketed n.bracketed_rule) h
    (Form.uses_of_bracketed hf) m hi hm
  · intro i u j hu hj m hi hm
    by_cases hmu : m < u
    · exact hu m hi hmu
    · exact hj m (by omega) hm
  · rintro t i _ ht ⟨ha, rfl⟩ m hi hm
    obtain rfl : m = i := by omega
    exact fun he => ht (he ▸ ha.mem_kinds)

/-- No phrase goes beyond the last token. -/
theorem Spells.lt_size (h : ts.Spells f i j) (hf : f.bracketed = true) (hp : f.proper = true) :
    j < ts.size := by
  have hij := h.lt hp
  have := lt_size_of_kind (h.kind_ne_eof hf (m := j - 1) (by omega) (by omega))
  omega

/-- The search for a closing parenthesis passes over a phrase. -/
theorem Spells.closeFrom (h : ts.Spells f i j) (hf : f.bracketed = true) (bound inner : Nat)
    (outer : List Nat) :
    closeFrom ts (bound + (j - i)) i inner outer = closeFrom ts bound j inner outer := by
  induction h generalizing bound inner outer with
  | @one t i _ h =>
    obtain ⟨ht, rfl⟩ := h
    have hk := List.all_eq_true.mp hf _ ht.mem_kinds
    rw [show bound + (i + 1 - i) = bound + 1 by omega]
    exact closeFrom_of_not_mem (of_decide_eq_true hk)
  | @part n _ _ _ ih => exact ih n.bracketed_rule bound inner outer
  | @between a b f i u u' j ha hs hb ih =>
    obtain ⟨ha, rfl⟩ := ha
    obtain ⟨hb, rfl⟩ := hb
    have hle : i + 1 ≤ u' := Spells.le hs
    simp only [Form.bracketed, Bool.and_eq_true, decide_eq_true_eq] at hf
    have ho := ha.mem_kinds
    have hc := hb.mem_kinds
    rw [hf.1.1] at ho
    rw [hf.1.2] at hc
    rw [show bound + (u' + 1 - i) = bound + 1 + (u' - (i + 1)) + 1 by omega,
      closeFrom_leftParen (List.mem_singleton.mp ho), ih hf.2,
      closeFrom_rightParen (List.mem_singleton.mp hc)]
  | @seq f g i u j hs₁ hs₂ ihf ihg =>
    have hf := (Bool.and_eq_true _ _).mp hf
    have := Spells.le hs₁
    have := Spells.le hs₂
    rw [show bound + (j - i) = bound + (j - u) + (u - i) by omega, ihf hf.1, ihg hf.2]
  | left _ ih => exact ih ((Bool.and_eq_true _ _).mp hf).1 bound inner outer
  | right _ ih => exact ih ((Bool.and_eq_true _ _).mp hf).2 bound inner outer
  | skip | stop => rw [Nat.sub_self, Nat.add_zero]
  | take _ ih => exact ih hf bound inner outer
  | @step f i u j hs₁ hs₂ ihf ihs =>
    have := Spells.le hs₁
    have := Spells.le hs₂
    rw [show bound + (j - i) = bound + (j - u) + (u - i) by omega, ihf hf, ihs hf]

theorem Spells.closing (h : ts.Spells f (i + 1) j) (hf : f.bracketed = true)
    (ho : ts.kind i = .leftParen) (hc : ts.kind j = .rightParen) : closing ts i = .ok j := by
  have hle := Spells.le h
  have hj : j + 1 < ts.size := lt_size_of_kind (by simp [hc])
  rw [SqlSelect.closing, if_pos ho,
    show ts.size - i = ts.size - j + 1 + (j - (i + 1)) by omega, h.closeFrom hf]
  simp only [SqlSelect.closeFrom, hc]

end TokenList

end SqlSelect
