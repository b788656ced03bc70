import SqlSelect.Proofs.Sentence

namespace SqlSelect

/-- How many parentheses are open after a token, if as many as `opened` are open before it. -/
def Token.nest (opened : Nat) (t : Token) : Nat :=
  match t.kind with
  | .leftParen => opened + 1
  | .rightParen => opened - 1
  | _ => opened

namespace TokenList

/-- How many parentheses are open before the token at `j`, if as many as `opened` are open before
the one at `i`. -/
def openBefore (ts : TokenList) (opened i j : Nat) : Nat := (ts.slice i j).foldl Token.nest opened

/-- How many parentheses that open from `start` on are open after the token at `i`. -/
def depth (ts : TokenList) (start i : Nat) : Nat := ts.openBefore 0 start (i + 1)

/-- How deep the parentheses nest in the tokens from `first` to `last`, both included. -/
def nesting (ts : TokenList) (first last : Nat) : Nat :=
  ((List.range' first (last + 1 - first)).map (ts.depth first)).foldr max 0

variable {ts : TokenList} {d h i j k p : Nat}

theorem foldr_max_le_iff {l : List Nat} : l.foldr max 0 ≤ d ↔ ∀ n ∈ l, n ≤ d := by
  induction l with
  | nil => simp
  | cons n l ih => rw [List.foldr_cons, Nat.max_le, ih, List.forall_mem_cons]

theorem nesting_le_iff {first last : Nat} :
    ts.nesting first last ≤ d ↔ ∀ m, first ≤ m → m ≤ last → ts.depth first m ≤ d := by
  rw [nesting, foldr_max_le_iff]
  simp only [List.forall_mem_map, List.mem_range'_1]
  exact ⟨fun hd m hf hl => hd m ⟨hf, by omega⟩, fun hd m hm => hd m hm.1 (by omega)⟩

@[simp] theorem openBefore_self : ts.openBefore h i i = h := by
  simp [openBefore, slice_of_le (Nat.le_refl i)]

theorem openBefore_succ (hij : i ≤ j) :
    ts.openBefore h i (j + 1) = (ts.token j).nest (ts.openBefore h i j) := by
  rw [openBefore, slice_succ hij, List.foldl_append]
  rfl

theorem openBefore_trans (hij : i ≤ j) (hjk : j ≤ k) :
    ts.openBefore h i k = ts.openBefore (ts.openBefore h i j) j k := by
  rw [openBefore, ← slice_append hij hjk, List.foldl_append]
  rfl

theorem openBefore_leftParen (ho : ts.kind i = .leftParen) :
    ts.openBefore h i (i + 1) = h + 1 := by
  have ho : (ts.token i).kind = .leftParen := ho
  rw [openBefore_succ (Nat.le_refl i), openBefore_self, Token.nest]
  simp only [ho]

theorem openBefore_rightParen (hc : ts.kind i = .rightParen) :
    ts.openBefore h i (i + 1) = h - 1 := by
  have hc : (ts.token i).kind = .rightParen := hc
  rw [openBefore_succ (Nat.le_refl i), openBefore_self, Token.nest]
  simp only [hc]

theorem openBefore_of_not_mem (hk : ts.kind i ∉ [TokenKind.leftParen, .rightParen]) :
    ts.openBefore h i (i + 1) = h := by
  have hk : (ts.token i).kind ≠ .leftParen ∧ (ts.token i).kind ≠ .rightParen := by
    simpa [kind] using hk
  rw [openBefore_succ (Nat.le_refl i), openBefore_self, Token.nest]
  split
  next ho => exact (hk.1 ho).elim
  next hc => exact (hk.2 hc).elim
  next => rfl

/-- The tokens from `i` up to `j` close just the parentheses that they open, which nest no deeper
than `d`. -/
structure Within (ts : TokenList) (d i j : Nat) : Prop where
  le : i ≤ j
  closed (h : Nat) : ts.openBefore h i j = h
  shallow (h m : Nat) : i ≤ m → m ≤ j → ts.openBefore h i m ≤ h + d

/-- The first parenthesis from `i` on that is nested deeper than `d` opens at `p`. -/
structure Exceeds (ts : TokenList) (d i p : Nat) : Prop where
  le : i ≤ p
  opens : ts.kind p = .leftParen
  deep (h : Nat) : ts.openBefore h i (p + 1) = h + d + 1
  shallow (h m : Nat) : i ≤ m → m ≤ p → ts.openBefore h i m ≤ h + d

namespace Within

theorem refl (d i : Nat) : ts.Within d i i := by
  refine ⟨Nat.le_refl i, fun h => openBefore_self, fun h m hi hm => ?_⟩
  obtain rfl : m = i := by omega
  simp

theorem token (hk : ts.kind i ∉ [TokenKind.leftParen, .rightParen]) : ts.Within d i (i + 1) := by
  refine ⟨Nat.le_succ i, fun h => openBefore_of_not_mem hk, fun h m hi hm => ?_⟩
  by_cases hm' : m = i
  · rw [hm', openBefore_self]
    omega
  · obtain rfl : m = i + 1 := by omega
    rw [openBefore_of_not_mem hk]
    omega

theorem trans (hij : ts.Within d i j) (hjk : ts.Within d j k) : ts.Within d i k := by
  refine ⟨Nat.le_trans hij.le hjk.le, fun h => ?_, fun h m hi hm => ?_⟩
  · rw [openBefore_trans hij.le hjk.le, hij.closed, hjk.closed]
  · by_cases hj : m ≤ j
    · exact hij.shallow h m hi hj
    · have hjm : j ≤ m := by omega
      rw [openBefore_trans hij.le hjm, hij.closed]
      exact hjk.shallow h m hjm hm

theorem parenthesized (ho : ts.kind i = .leftParen) (hi : ts.Within d (i + 1) j)
    (hc : ts.kind j = .rightParen) : ts.Within (d + 1) i (j + 1) := by
  have hij : i ≤ j := Nat.le_of_succ_le hi.le
  have hclosed (h : Nat) : ts.openBefore h i j = h + 1 := by
    rw [openBefore_trans (Nat.le_add_right i 1) hi.le, openBefore_leftParen ho, hi.closed]
  have hend (h : Nat) : ts.openBefore h i (j + 1) = h := by
    rw [openBefore_trans hij (Nat.le_add_right j 1), hclosed, openBefore_rightParen hc]
    omega
  refine ⟨Nat.le_succ_of_le hij, hend, fun h m hm hmj => ?_⟩
  by_cases him : m = i
  · rw [him, openBefore_self]
    omega
  by_cases hmj' : m = j + 1
  · rw [hmj', hend]
    omega
  · have him' : i + 1 ≤ m := by omega
    rw [openBefore_trans (Nat.le_add_right i 1) him', openBefore_leftParen ho]
    have := hi.shallow (h + 1) m him' (by omega)
    omega

theorem nesting_le {last : Nat} (hw : ts.Within d i (last + 1)) : ts.nesting i last ≤ d := by
  refine nesting_le_iff.mpr fun m hi hm => ?_
  have := hw.shallow 0 (m + 1) (by omega) (by omega)
  rwa [Nat.zero_add] at this

end Within

namespace Exceeds

theorem here (ho : ts.kind p = .leftParen) : ts.Exceeds 0 p p := by
  refine ⟨Nat.le_refl p, ho, fun h => openBefore_leftParen ho, fun h m hi hm => ?_⟩
  obtain rfl : m = p := by omega
  rw [openBefore_self]
  omega

theorem after (hij : ts.Within d i j) (hp : ts.Exceeds d j p) : ts.Exceeds d i p := by
  refine ⟨Nat.le_trans hij.le hp.le, hp.opens, fun h => ?_, fun h m hi hm => ?_⟩
  · rw [openBefore_trans hij.le (Nat.le_succ_of_le hp.le), hij.closed, hp.deep]
  · by_cases hj : m ≤ j
    · exact hij.shallow h m hi hj
    · have hjm : j ≤ m := by omega
      rw [openBefore_trans hij.le hjm, hij.closed]
      exact hp.shallow h m hjm hm

theorem inside (ho : ts.kind i = .leftParen) (hp : ts.Exceeds d (i + 1) p) :
    ts.Exceeds (d + 1) i p := by
  refine ⟨Nat.le_of_succ_le hp.le, hp.opens, fun h => ?_, fun h m hi hm => ?_⟩
  · rw [openBefore_trans (Nat.le_add_right i 1) (Nat.le_succ_of_le hp.le),
      openBefore_leftParen ho, hp.deep]
    omega
  · by_cases him : m = i
    · rw [him, openBefore_self]
      omega
    · have him' : i + 1 ≤ m := by omega
      rw [openBefore_trans (Nat.le_add_right i 1) him', openBefore_leftParen ho]
      have := hp.shallow (h + 1) m him' hm
      omega

theorem depth_eq (hp : ts.Exceeds d i p) : ts.depth i p = d + 1 := by
  rw [depth, hp.deep, Nat.zero_add]

theorem depth_le (hp : ts.Exceeds d i p) {m : Nat} (hi : i ≤ m) (hm : m < p) : ts.depth i m ≤ d := by
  have := hp.shallow 0 (m + 1) (by omega) hm
  rwa [Nat.zero_add] at this

theorem lt_nesting {last : Nat} (hp : ts.Exceeds d i p) (hl : p ≤ last) :
    d < ts.nesting i last := by
  refine Nat.lt_of_not_le fun hn => ?_
  have := nesting_le_iff.mp hn p hp.le hl
  rw [hp.depth_eq] at this
  omega

end Exceeds

end TokenList

end SqlSelect
