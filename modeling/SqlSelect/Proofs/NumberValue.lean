import Mathlib.Data.Nat.Digits.Defs
import SqlSelect.Proofs.NumberGrammar

namespace SqlSelect

/-- The digits of all radixes up to sixteen, in the order of their values. -/
def digitRow : List Char := "0123456789abcdef".toList

/-- The place of a digit, in either case, among all digits. What is no digit comes after them. -/
def digitPlace (c : Char) : Nat := digitRow.idxOf c.toLower

/-- Digits, one at least, that stand for `n` in a radix, the first of them for the most. -/
structure Positional (radix : Nat) (digits : List Char) (n : Nat) : Prop where
  ne_nil : digits ≠ []
  digit : ∀ c ∈ digits, digitPlace c < radix
  value : n = Nat.ofDigits radix (digits.reverse.map digitPlace)

/-- Digits, after a plus sign or none. -/
def Signed (radix : Nat) (text : List Char) (n : Nat) : Prop :=
  ∃ sign digits, (sign = [] ∨ sign = ['+']) ∧ text = sign ++ digits ∧ Positional radix digits n

/-- The number that a text stands for: hexadecimal after `0x` or `0X`, else decimal. -/
inductive Denotes : List Char → Nat → Prop
  | decimal {text n} : Signed 10 text n → Denotes text n
  | hexadecimal {mark text n} : mark = 'x' ∨ mark = 'X' → Signed 16 text n →
      Denotes ('0' :: mark :: text) n

section

variable {radix d n high : Nat} {c : Char} {text digits : List Char}

theorem digitValue?_eq (c : Char) :
    digitValue? c = if digitPlace c < 16 then some (digitPlace c) else none := by
  by_cases hc : c.toNat < 128
  · have h : ∀ n < 128, digitValue? (Char.ofNat n) =
        if digitPlace (Char.ofNat n) < 16 then some (digitPlace (Char.ofNat n)) else none := by
      decide +kernel
    have h := h c.toNat hc
    rwa [Char.ofNat_toNat] at h
  · have hlower : c.toLower = c := (toLower_eq_or_mem_capitals c).resolve_right fun hm => by
      have hcapitals : capitals.all (·.toNat < 128) = true := by decide
      exact hc (of_decide_eq_true (List.all_eq_true.mp hcapitals c hm))
    have hrow : c ∉ digitRow := fun hm => by
      have hdigits : digitRow.all (·.toNat < 128) = true := by decide
      exact hc (of_decide_eq_true (List.all_eq_true.mp hdigits c hm))
    have hplace : digitPlace c = 16 := by
      rw [digitPlace, hlower, List.idxOf_eq_length hrow]
      rfl
    have hle {d : Char} (hd : d.toNat < 128) : ¬c ≤ d := fun h => hc (Nat.lt_of_le_of_lt h hd)
    rw [hplace]
    simp [digitValue?, hle (d := '9') (by decide), hle (d := 'f') (by decide),
      hle (d := 'F') (by decide)]

theorem digit?_eq_some (hr : radix ≤ 16) :
    digit? radix c = some d ↔ digitPlace c < radix ∧ d = digitPlace c := by
  rw [digit?, digitValue?_eq]
  split
  next =>
    simp only [Option.filter_eq_some_iff, Option.some.injEq, decide_eq_true_eq]
    constructor
    · rintro ⟨rfl, h⟩
      exact ⟨h, rfl⟩
    · rintro ⟨h, rfl⟩
      exact ⟨rfl, h⟩
  next h =>
    constructor
    · intro hd
      cases hd
    · intro hd
      omega

/-- What was read before counts once more for each digit after it. -/
theorem readDigits_eq_some (hr : radix ≤ 16) :
    readDigits radix high digits = some n ↔ (∀ c ∈ digits, digitPlace c < radix) ∧
      n = Nat.ofDigits radix (digits.reverse.map digitPlace) + radix ^ digits.length * high := by
  induction digits generalizing high with
  | nil => simp [readDigits, eq_comm]
  | cons c digits ih =>
    have hvalue : Nat.ofDigits radix ((c :: digits).reverse.map digitPlace) +
        radix ^ (c :: digits).length * high =
          Nat.ofDigits radix (digits.reverse.map digitPlace) +
            radix ^ digits.length * (high * radix + digitPlace c) := by
      simp only [List.reverse_cons, List.map_append, List.map_cons, List.map_nil,
        Nat.ofDigits_append, Nat.ofDigits_singleton, List.length_map, List.length_reverse,
        List.length_cons]
      ring
    simp only [readDigits, Option.bind_eq_some_iff, digit?_eq_some hr, ih, List.forall_mem_cons,
      hvalue]
    constructor
    · rintro ⟨_, ⟨hc, rfl⟩, hdigits, hn⟩
      exact ⟨⟨hc, hdigits⟩, hn⟩
    · rintro ⟨⟨hc, hdigits⟩, hn⟩
      exact ⟨_, ⟨hc, rfl⟩, hdigits, hn⟩

theorem magnitude?_eq_some (hr : radix ≤ 16) :
    magnitude? radix text = some n ↔ Signed radix text n := by
  have hread (digits : List Char) : (if digits.isEmpty then none else readDigits radix 0 digits) =
      some n ↔ Positional radix digits n := by
    split
    next h => exact ⟨nofun, fun hp => (hp.ne_nil (List.isEmpty_iff.mp h)).elim⟩
    next h =>
      rw [readDigits_eq_some hr, Nat.mul_zero, Nat.add_zero]
      exact ⟨fun ⟨hd, hn⟩ => ⟨fun he => h (List.isEmpty_iff.mpr he), hd, hn⟩,
        fun hp => ⟨hp.digit, hp.value⟩⟩
  rw [magnitude?, hread]
  constructor
  · intro h
    cases text with
    | nil => exact ⟨[], [], .inl rfl, rfl, h⟩
    | cons c rest =>
      rw [dropPlus_cons] at h
      split at h
      next hc => exact ⟨['+'], rest, .inr rfl, by rw [hc]; rfl, h⟩
      next => exact ⟨[], c :: rest, .inl rfl, rfl, h⟩
  · rintro ⟨sign, digits, rfl | rfl, rfl, h⟩
    · obtain ⟨c, rest, rfl⟩ := List.exists_cons_of_ne_nil h.ne_nil
      have hplus : c ≠ '+' := by
        rintro rfl
        have hplace : ¬digitPlace '+' < 16 := by decide
        have := h.digit '+' List.mem_cons_self
        omega
      rw [dropPlus_cons, if_neg hplus]
      exact h
    · exact h

theorem not_signed_of_marked {mark : Char} (hm : mark = 'x' ∨ mark = 'X') :
    ¬Signed 10 ('0' :: mark :: text) n := by
  rintro ⟨sign, digits, rfl | rfl, he, h⟩
  · obtain rfl : '0' :: mark :: text = digits := he
    have hd := h.digit mark (by simp)
    rcases hm with rfl | rfl
    · exact absurd hd (by decide)
    · exact absurd hd (by decide)
  · cases he

theorem natural?_eq_some : natural? text = some n ↔ Denotes text n := by
  rw [natural?_eq]
  constructor
  · intro h
    split at h
    next hm =>
      obtain ⟨mark, rest, hmark, rfl⟩ := eq_cons_of_isMarked hm
      exact .hexadecimal hmark ((magnitude?_eq_some (Nat.le_refl 16)).mp h)
    next => exact .decimal ((magnitude?_eq_some (by decide)).mp h)
  · intro h
    cases h with
    | decimal h =>
      rw [if_neg, magnitude?_eq_some (by decide)]
      · exact h
      · intro hm
        obtain ⟨mark, rest, hmark, rfl⟩ := eq_cons_of_isMarked hm
        exact not_signed_of_marked hmark h
    | hexadecimal hmark h =>
      have hread := (magnitude?_eq_some (Nat.le_refl 16)).mpr h
      rcases hmark with rfl | rfl
      · exact hread
      · exact hread

end

theorem wordBound_eq : wordBound = 2 ^ 64 := by decide

/-- A text has a value just if it is a number of no more than 64 bits. -/
theorem unsigned?_eq_some {text : String} {n : Nat} :
    unsigned? text = some n ↔ Denotes text.toList n ∧ n < 2 ^ 64 := by
  rw [unsigned?, Option.filter_eq_some_iff, natural?_eq_some, decide_eq_true_eq, wordBound_eq]

end SqlSelect
