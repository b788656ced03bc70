import SqlSelect.Proofs.Spelling

namespace SqlSelect.TokenList

/-- The tokens from one index up to another, without the one at that. -/
def slice (ts : TokenList) (i j : Nat) : List Token := (List.range' i (j - i)).map ts.token

variable {ts : TokenList} {f : Phrase} {i j k : Nat}

theorem slice_of_le (h : j ≤ i) : ts.slice i j = [] := by
  simp [slice, Nat.sub_eq_zero_of_le h]

theorem slice_cons (h : i < j) : ts.slice i j = ts.token i :: ts.slice (i + 1) j := by
  rw [slice, show j - i = j - (i + 1) + 1 by omega, List.range'_succ]
  rfl

theorem slice_append (hij : i ≤ j) (hjk : j ≤ k) : ts.slice i j ++ ts.slice j k = ts.slice i k := by
  unfold slice
  rw [← List.map_append, show k - i = (j - i) + (k - j) by omega, ← List.range'_append_1,
    show i + (j - i) = j by omega]

theorem slice_succ (h : i ≤ j) : ts.slice i (j + 1) = ts.slice i j ++ [ts.token j] := by
  rw [← slice_append h (Nat.le_succ j), slice_cons (Nat.lt_succ_self j),
    slice_of_le (Nat.le_refl (j + 1))]

theorem take_slice {m : Nat} (h : i + m ≤ k) : (ts.slice i k).take m = ts.slice i (i + m) := by
  rw [← slice_append (Nat.le_add_right i m) h, List.take_left']
  simp [slice]

theorem slice_size (ts : TokenList) : ts.slice 0 ts.size = ts.toList := by
  refine List.ext_getElem (by simp [slice]) fun m hm _ => ?_
  simp only [slice, List.getElem_map, List.getElem_range', token, toList]
  have hm : m < ts.size := by simpa [slice] using hm
  by_cases h : m < ts.front.size
  · simp [h, List.getElem_append_left]
  · obtain rfl : m = ts.front.size := by unfold size at hm; omega
    simp

theorem take_toList (h : k ≤ ts.size) : ts.toList.take k = ts.slice 0 k := by
  have ht : (ts.slice 0 ts.size).take k = ts.slice 0 (0 + k) := take_slice (by omega)
  rwa [slice_size, Nat.zero_add] at ht

theorem Spells.takes (h : ts.Spells f i j) (hk : j ≤ k) :
    f.Spans Terminal.Takes Nonterminal.rule (ts.slice i k) (ts.slice j k) := by
  induction h with
  | one h =>
    obtain ⟨ht, rfl⟩ := h
    exact .one ⟨_, ht, slice_cons hk⟩
  | part _ ih => exact .part (ih hk)
  | between ha hs hb ih =>
    have hle := Spells.le hs
    obtain ⟨ht, rfl⟩ := ha
    obtain ⟨ht', rfl⟩ := hb
    exact .between ⟨_, ht, slice_cons (by omega)⟩ (ih (by omega)) ⟨_, ht', slice_cons hk⟩
  | seq _ hs ihf ihg => exact .seq (ihf (Nat.le_trans (Spells.le hs) hk)) (ihg hk)
  | left _ ih => exact .left (ih hk)
  | right _ ih => exact .right (ih hk)
  | skip => exact .skip
  | take _ ih => exact .take (ih hk)
  | stop => exact .stop
  | step _ hs ihf ihs => exact .step (ihf (Nat.le_trans (Spells.le hs) hk)) (ihs hk)

theorem takesAt_of_takes {t : Terminal} {left left' : List Token} (h : t.Takes left left')
    (hi : i ≤ k ∧ ts.slice i k = left) :
    ∃ j, ts.TakesAt t i j ∧ j ≤ k ∧ ts.slice j k = left' := by
  obtain ⟨token, ht, rfl⟩ := h
  have hlt : i < k := Nat.lt_of_not_le fun hk => by
    have hs := hi.2
    rw [slice_of_le hk] at hs
    cases hs
  have hs := hi.2
  rw [slice_cons hlt] at hs
  obtain ⟨rfl, hl⟩ := List.cons.inj hs
  exact ⟨i + 1, ⟨ht, rfl⟩, hlt, hl⟩

/-- All tokens between two indices can be taken away just if they spell the phrase. -/
theorem takes_slice (hik : i ≤ k) :
    f.Spans Terminal.Takes Nonterminal.rule (ts.slice i k) [] ↔ ts.Spells f i k := by
  constructor
  · intro h
    obtain ⟨j, hs, hjk, hj⟩ := h.simulate (R := fun left i => i ≤ k ∧ ts.slice i k = left)
      (fun _ _ _ _ => takesAt_of_takes) ⟨hik, rfl⟩
    have hkj : k ≤ j := Nat.le_of_not_lt fun hlt => by
      rw [slice_cons hlt] at hj
      cases hj
    rwa [Nat.le_antisymm hjk hkj] at hs
  · intro h
    have hs := h.takes (Nat.le_refl k)
    rw [slice_of_le (Nat.le_refl k)] at hs
    exact hs

/-- Sentences are what the tokens between two indices spell. -/
theorem sentence_slice {n : Nonterminal} (hik : i ≤ k) :
    n.Sentence (ts.slice i k) ↔ ts.Spells (.part n) i k := takes_slice hik

/-- The tokens before the first end of input. -/
theorem takeWhile_eq_slice (ts : TokenList) :
    ∃ m, ts.toList.takeWhile (!·.isEof) = ts.slice 0 m ∧ ts.kind m = .eof ∧
      ∀ l < m, ts.kind l ≠ .eof := by
  suffices h : ∀ n i, i < ts.size → ts.size - i = n →
      ∃ m, i ≤ m ∧ (ts.slice i ts.size).takeWhile (!·.isEof) = ts.slice i m ∧ ts.kind m = .eof ∧
        ∀ l, i ≤ l → l < m → ts.kind l ≠ .eof by
    obtain ⟨m, -, hs, hm, hl⟩ := h _ 0 (Nat.succ_pos _) rfl
    exact ⟨m, slice_size ts ▸ hs, hm, fun l => hl l (Nat.zero_le l)⟩
  intro n
  induction n with
  | zero =>
    intro i hi hn
    omega
  | succ n ih =>
    intro i hi hn
    rw [slice_cons hi]
    by_cases he : ts.kind i = .eof
    · refine ⟨i, Nat.le_refl i, ?_, he, fun l _ _ => by omega⟩
      rw [slice_of_le (Nat.le_refl i), List.takeWhile_cons_of_neg]
      simpa [Token.isEof, kind] using he
    · obtain ⟨m, him, hs, hm, hl⟩ := ih (i + 1) (lt_size_of_kind he) (by omega)
      refine ⟨m, by omega, ?_, hm, fun l hil hlm => ?_⟩
      · rw [List.takeWhile_cons_of_pos, hs, ← slice_cons (by omega)]
        simpa [Token.isEof, kind] using he
      · by_cases hli : l = i
        · exact hli ▸ he
        · exact hl l (by omega) hlm

/-- The list that is read is the given one, and an end of input after it just if its last token is
none. -/
theorem toList_of_getLast? {tokens : List Token} (h : ofTokens tokens = .ok ts) :
    ∃ last, tokens.getLast? = some last ∧
      ts.toList = tokens ++ if last.isEof then [] else [last.endAfter] := by
  unfold ofTokens at h
  split at h
  next => cases h
  next =>
    split at h
    next => cases h
    next last hl =>
      refine ⟨last, hl, ?_⟩
      obtain ⟨front, rfl⟩ := List.getLast?_eq_some_iff.mp hl
      split at h
      next he =>
        cases h
        simp [toList, he]
      next he =>
        cases h
        simp [toList, he]

/-- The list that is read is the given one, with an end of input after it if it has none. -/
theorem toList_of_ofTokens {tokens : List Token} (h : ofTokens tokens = .ok ts) :
    ts.toList = tokens ∨ ∃ t, t.isEof = true ∧ ts.toList = tokens ++ [t] := by
  obtain ⟨last, _, hs⟩ := toList_of_getLast? h
  split at hs
  next => exact .inl (hs.trans (List.append_nil tokens))
  next => exact .inr ⟨last.endAfter, rfl, hs⟩

end SqlSelect.TokenList
