namespace SqlSelect

/-- Closed ranges of code points, in ascending order. -/
abbrev Ranges := List (Nat × Nat)

namespace Ranges

/-- The order of the ranges lets the search stop at the first one that begins past `n`. -/
def contains : Ranges → Nat → Bool
  | [], _ => false
  | (low, high) :: rest, n => decide (low ≤ n) && (decide (n ≤ high) || contains rest n)

theorem exists_of_contains {rs : Ranges} {n : Nat} (h : rs.contains n = true) :
    ∃ r ∈ rs, r.1 ≤ n ∧ n ≤ r.2 := by
  induction rs with
  | nil => simp [contains] at h
  | cons r rs ih =>
    simp only [contains, Bool.and_eq_true, Bool.or_eq_true, decide_eq_true_eq] at h
    rcases h.2 with hn | hn
    · exact ⟨r, by simp, h.1, hn⟩
    · obtain ⟨q, hq, hb⟩ := ih hn
      exact ⟨q, List.mem_cons_of_mem r hq, hb⟩

end Ranges

/-- The property White_Space of Unicode 17. -/
def whiteSpace : Ranges :=
  [(0x09, 0x0D), (0x20, 0x20), (0x85, 0x85), (0xA0, 0xA0), (0x1680, 0x1680), (0x2000, 0x200A),
   (0x2028, 0x2029), (0x202F, 0x202F), (0x205F, 0x205F), (0x3000, 0x3000)]

/-- Blanks and line breaks of every script. -/
def isSpace (c : Char) : Bool := whiteSpace.contains c.toNat

end SqlSelect
