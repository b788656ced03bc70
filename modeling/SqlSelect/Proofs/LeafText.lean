import SqlSelect.Proofs.NormalForm
import SqlSelect.Proofs.QuotedLines

namespace SqlSelect

open NodeKind

/-- Whether a slot takes no keyword of two words. -/
def Slot.single : Slot → Bool
  | .token (.among kinds) => kinds.all fun k => compounds.all fun v => v.kind != k
  | _ => true

/-- A token that is no keyword of two words. -/
def TokenList.Single (ts : TokenList) (i : Nat) : Prop := ∀ v ∈ compounds, v.kind ≠ ts.kind i

section

variable {ts : TokenList} {n : Node} {p q : Place}

theorem Slot.Takes.single {slot : Slot} (hs : slot.single = true) (h : slot.Takes ts p q)
    (hp : p.children = []) :
    q.children = [] ∧ ∀ i, p.index ≤ i → i < q.index → ts.Single i := by
  cases slot with
  | token t =>
    obtain ⟨ha, rfl⟩ := h
    refine ⟨hp, fun i hle hlt => ?_⟩
    obtain rfl : i = p.index := by
      have hlt : i < p.index + 1 := hlt
      omega
    intro v hv hk
    cases t with
    | among kinds =>
      have hall := List.all_eq_true.mp (List.all_eq_true.mp hs _ ha) v hv
      exact (bne_iff_ne.mp hall) hk
    | value =>
      have hnumber : ts.kind p.index = .number := ha.1
      have hne : ∀ v ∈ compounds, v.kind ≠ .number := by decide
      exact hne v hv (hk.trans hnumber)
  | child r =>
    obtain ⟨c, _, _, _, hc, _⟩ := h
    cases hp.symm.trans hc
  | wrapped =>
    obtain ⟨c, _, _, _, _, _, hc, _⟩ := h
    cases hp.symm.trans hc

theorem children_ne_nil_of_mul_role {ks : List TokenKind} {r : Role}
    (h : (tokens ks * role r).Spans (Slot.Takes ts) Empty.elim p q) : p.children ≠ [] := by
  obtain ⟨u, ht, hr⟩ := Form.spans_mul.mp h
  obtain ⟨_, rfl⟩ := Form.spans_one.mp ht
  exact fun hn => Slot.Takes.children_ne_nil hr hn

/-- What a keyword of two words begins has a child. -/
theorem Node.LaidOut.children_ne_nil (h : n.LaidOut ts)
    (hk : n.kind = .groupBy ∨ n.kind = .orderBy ∨ n.kind = .join) : n.children ≠ [] := by
  rw [Node.LaidOut] at h
  rcases hk with hk | hk | hk
  · rw [hk] at h
    obtain ⟨_, h, _⟩ := Form.spans_mul.mp (Form.spans_assoc.mpr h)
    exact children_ne_nil_of_mul_role h
  · rw [hk] at h
    obtain ⟨_, h, _⟩ := Form.spans_mul.mp (Form.spans_assoc.mpr h)
    exact children_ne_nil_of_mul_role h
  · rw [hk] at h
    obtain ⟨_, h, _⟩ := Form.spans_mul.mp h
    obtain ⟨_, h, _⟩ := Form.spans_mul.mp h
    exact children_ne_nil_of_mul_role h

theorem NodeKind.uses_single {k : NodeKind} (hk : ¬(k = .groupBy ∨ k = .orderBy ∨ k = .join)) :
    k.layout.Uses fun slot => slot.single = true := by
  cases k <;> first | exact (hk (by decide)).elim | decide

/-- No leaf holds a keyword of two words. -/
theorem Node.LaidOut.single (h : n.LaidOut ts) (hc : n.children = []) {i : Nat}
    (hf : n.first ≤ i) (hl : i ≤ n.last) : ts.Single i := by
  have hk : ¬(n.kind = .groupBy ∨ n.kind = .orderBy ∨ n.kind = .join) :=
    fun hk => h.children_ne_nil hk hc
  have hspan := Form.Spans.related
    (R := fun p q : Place => p.children = [] →
      q.children = [] ∧ ∀ i, p.index ≤ i → i < q.index → ts.Single i)
    (fun _ hp => ⟨hp, fun i _ _ => by omega⟩)
    (fun s u s' hsu hus hp => ?_) (fun _ _ _ hs ht hp => ht.single hs hp) nofun h
    (NodeKind.uses_single hk)
  · exact (hspan hc).2 i hf (Nat.lt_succ_of_le hl)
  · obtain ⟨hu, hfirst⟩ := hsu hp
    obtain ⟨hq, hsecond⟩ := hus hu
    refine ⟨hq, fun i hle hlt => ?_⟩
    by_cases hi : i < u.index
    · exact hfirst i hle hi
    · exact hsecond i (by omega) hlt

end

namespace Parser

variable {text : String} {options : Options} {p : Parser} {n : Node}

theorem unbroken_token (hp : ofText text options = .ok p) {i : Nat} (hi : p.tokens.Single i) :
    Unbroken (p.tokens.token i).text.toList := by
  have hm : p.tokens.token i ∈ p.tokens.toList := p.tokens.token_mem_toList i
  have hk : (p.tokens.token i).kind ≠ .error := fun hk => by
    have herror := p.tokens.isError_eq_false hm
    simp [Token.isError, hk] at herror
  rw [toList_of_ofText hp] at hm
  obtain ⟨rest, hshape⟩ := exists_shape hm hk
  exact hshape.unbroken hi

/-- The text of a leaf stands in one line. -/
theorem unbroken_text (hp : ofText text options = .ok p) (h : n.LaidOut p.tokens)
    (hc : n.children = []) : Unbroken (n.text p.tokens).toList := by
  refine unbroken_intercalate fun s hs => ?_
  obtain ⟨t, ht, rfl⟩ := List.mem_map.mp hs
  obtain ⟨i, hi, rfl⟩ := List.mem_map.mp ht
  obtain ⟨hf, hl⟩ := List.mem_range'_1.mp hi
  exact unbroken_token hp (h.single hc hf (by omega))

end Parser

end SqlSelect
