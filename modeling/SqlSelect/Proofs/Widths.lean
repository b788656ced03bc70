import SqlSelect.Proofs.Words

namespace SqlSelect

/-- A reading that is a token is no wider than what there is to read. -/
def Reading.Within (r : Reading) (n : Nat) : Prop :=
  ∀ kind, r.verdict = .ok kind → r.width ≤ n

namespace Reading

variable {width n : Nat}

theorem within_token {kind : TokenKind} (h : width ≤ n) : (token width kind).Within n :=
  fun _ _ => h

theorem within_flaw {f : Flaw} : (flaw width f).Within n := fun _ h => nomatch h

theorem within_fixed (text : List Char) (m : Match) : (fixed text m).Within text.length := by
  unfold fixed
  split
  next h =>
    rw [List.length_take] at h
    exact within_token (by omega)
  next => exact within_flaw

end Reading

section

variable {text : List Char} {p : Char → Bool} {width : Nat}

theorem frontWidth_le (p : Char → Bool) (text : List Char) : frontWidth p text ≤ text.length :=
  (List.takeWhile_prefix p).length_le

theorem lt_length_of_headIs (h : headIs p (text.drop width) = true) : width < text.length := by
  refine Nat.lt_of_not_le fun hle => ?_
  rw [List.drop_eq_nil_of_le hle] at h
  cases h

theorem frontWidth_drop_le (h : width ≤ text.length) :
    width + frontWidth p (text.drop width) ≤ text.length := by
  have hle := frontWidth_le p (text.drop width)
  rw [List.length_drop] at hle
  omega

theorem mantissa_le (p : Char → Bool) (text : List Char) : mantissa p text ≤ text.length := by
  unfold mantissa
  split
  next h => exact frontWidth_drop_le (lt_length_of_headIs h)
  next => exact frontWidth_le p text

theorem endNumber_within (h : width ≤ text.length) :
    (endNumber width text).Within text.length := by
  unfold endNumber
  split
  next => exact Reading.within_flaw
  next => exact Reading.within_token h

theorem readPower_within : (readPower width text).Within text.length := by
  unfold readPower
  split
  next h => exact endNumber_within (frontWidth_drop_le (Nat.le_of_lt (lt_length_of_headIs h)))
  next => exact Reading.within_flaw

theorem readNumber_within : (readNumber text).Within text.length := by
  unfold readNumber
  split
  next =>
    split
    next h =>
      have hlt := lt_length_of_headIs h
      have hle := mantissa_le isHexadecimal (text.drop 2)
      rw [List.length_drop] at hle
      exact endNumber_within (by omega)
    next => exact Reading.within_flaw
  next =>
    unfold readExponent
    split
    next => exact endNumber_within (mantissa_le isDecimal text)
    next => exact readPower_within

theorem stringEnd_bounds {quote : Char} {n : Nat} (h : stringEnd quote text = some n) :
    0 < n ∧ n ≤ text.length := by
  induction text using stringEnd.induct quote generalizing n with
  | case1 => cases h
  | case2 =>
    cases (if_pos rfl).symm.trans h
    exact ⟨Nat.one_pos, Nat.le_refl 1⟩
  | case3 c hc => cases (if_neg hc).symm.trans h
  | case4 rest ih =>
    simp only [stringEnd, reduceIte, Option.map_eq_some_iff] at h
    obtain ⟨m, hm, rfl⟩ := h
    exact ⟨Nat.succ_pos _, Nat.add_le_add_right (ih hm).2 2⟩
  | case5 d rest hd =>
    simp only [stringEnd, reduceIte, if_neg hd, Option.some.injEq] at h
    simp only [List.length_cons]
    omega
  | case6 c d rest hc ih =>
    simp only [stringEnd, if_neg hc, Option.map_eq_some_iff] at h
    obtain ⟨m, hm, rfl⟩ := h
    exact ⟨Nat.succ_pos _, Nat.add_le_add_right (ih hm).2 1⟩

theorem frontWidth_lt_iff : frontWidth p text < text.length ↔ ∃ c ∈ text, p c = false := by
  induction text with
  | nil => simp [frontWidth]
  | cons d text ih =>
    cases hd : p d with
    | false => simp [frontWidth, hd]
    | true => simpa [frontWidth, hd] using ih

theorem readFrom_within {c : Char} : (readFrom c text).Within (c :: text).length := by
  have hle := frontWidth_le isWordChar text
  unfold readFrom
  split
  next => exact Reading.within_token (by rw [List.length_cons]; omega)
  split
  next => exact readNumber_within
  split
  next =>
    unfold readString
    split
    next h =>
      have hle := (stringEnd_bounds h).2
      exact Reading.within_token (by rw [List.length_cons]; omega)
    next => exact Reading.within_flaw
  split
  next =>
    unfold readBacktick
    split
    next h =>
      have hlt : frontWidth (· ≠ '\x60') text < text.length :=
        frontWidth_lt_iff.mpr ⟨'\x60', h, by decide⟩
      exact Reading.within_token (by rw [List.length_cons]; omega)
    next => exact Reading.within_flaw
  split
  next => exact Reading.within_token (frontWidth_le _ _)
  next =>
    unfold readSymbol
    split
    next => exact Reading.within_fixed _ _
    next => exact Reading.within_flaw

theorem scan_within (text : List Char) : (scan text).Within text.length := by
  unfold scan
  split
  next => exact Reading.within_fixed _ _
  next =>
    cases text with
    | nil => exact Reading.within_token (Nat.le_refl 0)
    | cons c text => exact readFrom_within

end

end SqlSelect
