import SqlSelect.Proofs.Acceptance

namespace SqlSelect

namespace TokenList

/-- The tokens before an index, and an end of input after them. -/
def upTo (ts : TokenList) (j : Nat) : TokenList :=
  ⟨(ts.front.toList.take j).toArray, ts.final, ts.final_isEof, fun t ht =>
    ts.front_noError t (Array.mem_toList_iff.mp (List.mem_of_mem_take (List.mem_toArray.mp ht)))⟩

variable {ts : TokenList} {f : Phrase} {i j k : Nat}

theorem token_upTo (h : i < j) : (ts.upTo j).token i = ts.token i := by
  unfold upTo token
  rw [List.getElem?_toArray, List.getElem?_take_of_lt h, Array.getElem?_toList]

theorem kind_upTo (h : i < j) : (ts.upTo j).kind i = ts.kind i :=
  congrArg Token.kind (token_upTo h)

theorem kind_upTo_self : (ts.upTo j).kind j = .eof := by
  refine kind_of_size_le (Nat.succ_le_succ ?_)
  rw [upTo, List.size_toArray]
  exact List.length_take_le j _

theorem Spells.upTo (h : ts.Spells f i k) (hk : k ≤ j) : (ts.upTo j).Spells f i k := by
  have hs : (ts.upTo j).slice i k = ts.slice i k := by
    refine List.map_congr_left fun m hm => token_upTo ?_
    have hm := List.mem_range'_1.mp hm
    omega
  have hik := h.le
  rw [← takes_slice hik] at h
  exact (takes_slice hik).mp (hs ▸ h)

end TokenList

namespace Form

/-- Where a phrase could have ended but goes on, it goes on with a token of some kinds. -/
def Extends (f : Phrase) (kinds : List TokenKind) : Prop :=
  ∀ (ts : TokenList) (i u u' : Nat), ts.Spells f i u → ts.Spells f i u' → u < u' →
    ts.kind u ∈ kinds

namespace Extends

variable {f g : Phrase} {ks ls : List TokenKind}

theorem mono (h : f.Extends ks) (hs : ∀ k ∈ ks, k ∈ ls) : f.Extends ls :=
  fun ts i u u' hu hu' hlt => hs _ (h ts i u u' hu hu' hlt)

/-- Whatever finds the end of a phrase, if no token of some kinds stands there, does not find two
ends: of two phrases the shorter goes on with such a token. -/
theorem of_found (find : TokenList → Nat → Option Nat) (he : .eof ∉ ks)
    (h : ∀ ts i j, TokenList.Spells ts f i j → ts.kind j ∉ ks → find ts i = some j) :
    f.Extends ks := by
  intro ts i u u' hu hu' hlt
  refine Classical.byContradiction fun hk => ?_
  -- In the list that ends where the longer phrase does, both ends would be found.
  have hu := h (ts.upTo u') i u (hu.upTo (Nat.le_of_lt hlt)) (by rwa [TokenList.kind_upTo hlt])
  have hu' := h (ts.upTo u') i u' (hu'.upTo (Nat.le_refl u')) (by rwa [TokenList.kind_upTo_self])
  have heq : u = u' := Option.some.inj (hu.symm.trans hu')
  omega

theorem of_reads {rule : TokenList → Rule} (he : .eof ∉ ks)
    (h : ∀ ts, (rule ts).Reads ts 0 f ks) : f.Extends ks := by
  refine of_found (fun ts i => (rule ts i).toOption.map (·.last + 1)) he fun ts i j hf hj => ?_
  obtain ⟨n, hn, hl⟩ := h ts i j (Nat.zero_le i) hf hj
  rw [hn, ← hl]
  rfl

theorem part {n : Nonterminal} (h : n.rule.Extends ks) : Extends (.part n) ks :=
  fun ts i u u' hu hu' => h ts i u u' (spans_part.mp hu) (spans_part.mp hu')

theorem assoc {h : Phrase} (he : (f * (g * h)).Extends ks) : (f * g * h).Extends ks :=
  fun ts i u u' hu hu' => he ts i u u' (spans_assoc.mp hu) (spans_assoc.mp hu')

theorem letter (t : Terminal) : Extends (.one t) [] := by
  intro ts i u u' hu hu' hlt
  obtain ⟨_, rfl⟩ := spans_one.mp hu
  obtain ⟨_, rfl⟩ := spans_one.mp hu'
  omega

theorem mul (hf : f.Extends ks) (hg : g.Extends ls) (hn : ∀ k ∈ g.starts, k ∉ ks) :
    (f * g).Extends ((if g.proper then [] else ks) ++ ls) := by
  intro ts i u u' hu hu' hlt
  obtain ⟨v, hv, hu⟩ := spans_mul.mp hu
  obtain ⟨v', hv', hu'⟩ := spans_mul.mp hu'
  have hle := TokenList.Spells.le hu
  rcases Nat.lt_trichotomy v v' with h | rfl | h
  · have hk := hf ts i v v' hv hv' h
    rcases TokenList.Spells.starts hu with hs | ⟨hp, rfl⟩
    · exact (hn _ hs hk).elim
    · rw [hp]
      exact List.mem_append_left _ hk
  · exact List.mem_append_right _ (hg ts v u u' hu hu' hlt)
  · have hk := hf ts i v' v hv' hv h
    rcases TokenList.Spells.starts hu' with hs | ⟨_, rfl⟩
    · exact (hn _ hs hk).elim
    · omega

/-- What begins with a letter extends as what comes after it. -/
theorem letter_mul {t : Terminal} (hg : g.Extends ks) : (.one t * g : Phrase).Extends ks :=
  ((letter t).mul hg fun _ _ => List.not_mem_nil).mono fun k hk => by
    rwa [ite_self, List.nil_append] at hk

/-- Where a parenthesis closes is the same whatever it encloses. -/
theorem parenthesized (hf : f.bracketed = true) : (Phrase.parenthesized f).Extends [] := by
  intro ts i u u' hu hu' hlt
  obtain ⟨ho, k, hk, hc, rfl⟩ := TokenList.spells_parenthesized.mp hu
  obtain ⟨_, k', hk', hc', rfl⟩ := TokenList.spells_parenthesized.mp hu'
  have he := (hk.closing hf ho hc).symm.trans (hk'.closing hf ho hc')
  cases he
  omega

theorem opt (hf : f.Extends ks) (hp : f.proper = true) : (Form.opt f).Extends (f.starts ++ ks) := by
  intro ts i u u' hu hu' hlt
  rcases spans_opt.mp hu' with rfl | hu'
  · have := TokenList.Spells.le hu
    omega
  · rcases spans_opt.mp hu with rfl | hu
    · exact List.mem_append_left _ (TokenList.Spells.kind_mem hu' hp)
    · exact List.mem_append_right _ (hf ts i u u' hu hu' hlt)

theorem star (hf : f.Extends ks) (hp : f.proper = true) (hn : ∀ k ∈ f.starts, k ∉ ks) :
    (Form.star f).Extends (f.starts ++ ks) := by
  intro ts i u u' hu hu' hlt
  generalize he : Form.star f = e at hu
  induction hu with
  | stop =>
    cases he
    rcases spans_star.mp hu' with rfl | ⟨v, hv, _⟩
    · omega
    · exact List.mem_append_left _ (TokenList.Spells.kind_mem hv hp)
  | @step _ i w u hw hs _ ih =>
    cases he
    have hwu := TokenList.Spells.le hs
    rcases spans_star.mp hu' with rfl | ⟨v, hv, hs'⟩
    · have := TokenList.Spells.le hw
      omega
    -- The first of the two repetitions are equally long, as one does not go on with another.
    · rcases Nat.lt_trichotomy w v with h | rfl | h
      · have hk := hf ts i w v hw hv h
        rcases TokenList.Spells.starts hs with hst | ⟨_, rfl⟩
        · exact (hn _ hst hk).elim
        · exact List.mem_append_right _ hk
      · exact ih hs' hlt rfl
      · have hk := hf ts i v w hv hw h
        rcases TokenList.Spells.starts hs' with hst | ⟨_, rfl⟩
        · exact (hn _ hst hk).elim
        · omega
  | _ => cases he

end Extends

end Form

end SqlSelect
