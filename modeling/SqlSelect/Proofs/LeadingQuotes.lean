import SqlSelect.Proofs.LeadingNumbers
import SqlSelect.Proofs.Quoting

namespace SqlSelect

theorem drop_more {w rest : List Char} {c : Char} {n : Nat} (h : w.drop n = c :: rest) (k : Nat) :
    w.drop (n + (k + 1)) = rest.drop k := by rw [← List.drop_drop, h, List.drop_succ_cons]

namespace Lexer

variable {lx : Lexer} {n : Nat}

theorem advance_of_le (h : lx.rest.length ≤ n) : lx.advance n = lx.advance lx.rest.length := by
  simp [advance, List.take_of_length_le h, List.drop_eq_nil_of_le h]

/-- What a string is whose end is looked for from a distance on. -/
def closeString (lx : Lexer) (n : Nat) : Option Nat → Token × Lexer
  | some width => (lx.advance (n + width)).emit .string
  | none => (lx.advance lx.rest.length).report .string

theorem closeString_map (lx : Lexer) (n k : Nat) (width : Option Nat) :
    lx.closeString n (width.map (· + k)) = lx.closeString (n + k) width := by
  cases width with
  | none => rfl
  | some width =>
    rw [Option.map_some, closeString, closeString, Nat.add_comm width, Nat.add_assoc]

end Lexer

namespace Cursor.Leads

variable {text : String} {lx : Lexer} {n : Nat} {rest : List Char} {c quote : Char}

/-- A loop goes on after a turn that takes some of the characters that come next. -/
theorem loop_on {α : Type} {turn : Move (Option α)} {r : α × Lexer} {k : Nat}
    (hr : lx.rest.drop n = c :: rest) (hk : 0 < k)
    (h : Leads text turn (lx.advance n) (none, lx.advance (n + k)))
    (hmore : Leads text (loop turn) (lx.advance (n + k)) r) :
    Leads text (loop turn) (lx.advance n) r := by
  refine loop_again h rfl ?_ hmore
  show byteWidth (lx.rest.drop (n + k)) < byteWidth (lx.rest.drop n)
  rw [← List.drop_drop, hr]
  refine byteWidth_drop_lt ?_
  rw [List.length_drop, List.length_cons]
  omega

theorem lexQuoted_nil (hr : lx.rest.drop n = []) :
    Leads text (lexQuoted quote) (lx.advance n) (lx.closeString n none) := by
  have hlength := List.drop_eq_nil_iff.mp hr
  have hclose : lx.closeString n none = (lx.advance (n + 1)).report .string := by
    rw [Lexer.closeString, Lexer.advance_of_le (Nat.le_succ_of_le hlength)]
  have hreport : Leads text (Cursor.report .string "") (lx.advance (n + 1))
    ((lx.advance (n + 1)).report .string) := report fun _ => rfl
  rw [hclose]
  refine loop_done ((nextChar_more text lx n).bind ?_)
  rw [hr]
  exact hreport.bind (pure _)

theorem lexQuoted_cons_ne {r : Token × Lexer} (hr : lx.rest.drop n = c :: rest) (hc : c ≠ quote)
    (h : Leads text (lexQuoted quote) (lx.advance (n + 1)) r) :
    Leads text (lexQuoted quote) (lx.advance n) r := by
  refine loop_on hr Nat.one_pos ((nextChar_more text lx n).bind ?_) h
  rw [hr]
  dsimp only [List.head?_cons]
  rw [if_pos hc]
  exact pure none

/-- A quote that stands alone closes a string. -/
theorem lexQuoted_close (hr : lx.rest.drop n = quote :: rest)
    (hq : headIs (· = quote) rest = false) :
    Leads text (lexQuoted quote) (lx.advance n) (lx.closeString n (some 1)) := by
  have hrest : (lx.advance (n + 1)).rest.head? ≠ some quote := by
    show (lx.rest.drop (n + 1)).head? ≠ some quote
    rw [← List.drop_drop, hr]
    intro he
    have hq : rest.head?.any (· = quote) = false := hq
    have he : rest.head? = some quote := he
    simp [he] at hq
  refine loop_done ((nextChar_more text lx n).bind ?_)
  rw [hr]
  dsimp only [List.head?_cons]
  rw [if_neg (not_not_intro rfl)]
  refine (peek text (lx.advance (n + 1))).bind ?_
  rw [if_pos hrest]
  exact (emit text _ _).bind (pure _)

theorem lexQuoted_doubled {r : Token × Lexer} (hr : lx.rest.drop n = quote :: quote :: rest)
    (h : Leads text (lexQuoted quote) (lx.advance (n + 2)) r) :
    Leads text (lexQuoted quote) (lx.advance n) r := by
  have hrest : (lx.advance (n + 1)).rest.head? = some quote := by
    show (lx.rest.drop (n + 1)).head? = some quote
    rw [← List.drop_drop, hr]
    rfl
  refine loop_on hr Nat.two_pos ((nextChar_more text lx n).bind ?_) h
  rw [hr]
  dsimp only [List.head?_cons]
  rw [if_neg (not_not_intro rfl)]
  refine (peek text (lx.advance (n + 1))).bind ?_
  rw [if_neg (not_not_intro hrest)]
  exact (nextChar_more text lx (n + 1)).bind (pure none)

theorem lexQuoted (text : String) (lx : Lexer) (n : Nat) (quote : Char) :
    Leads text (lexQuoted quote) (lx.advance n)
      (lx.closeString n (stringEnd quote (lx.rest.drop n))) := by
  generalize hr : lx.rest.drop n = rest
  induction rest using stringEnd.induct quote generalizing n with
  | case1 => exact lexQuoted_nil hr
  | case2 =>
    rw [stringEnd, if_pos rfl]
    exact lexQuoted_close hr rfl
  | case3 c hc =>
    rw [stringEnd, if_neg hc]
    exact lexQuoted_cons_ne hr hc (lexQuoted_nil (drop_more hr 0))
  | case4 rest ih =>
    rw [stringEnd, if_pos rfl, if_pos rfl, Lexer.closeString_map]
    exact lexQuoted_doubled hr (ih (n + 2) (drop_more hr 1))
  | case5 d rest hd =>
    rw [stringEnd, if_pos rfl, if_neg hd]
    exact lexQuoted_close hr (decide_eq_false hd)
  | case6 c d rest hc ih =>
    rw [stringEnd, if_neg hc, Lexer.closeString_map]
    exact lexQuoted_cons_ne hr hc (ih (n + 1) (drop_more hr 0))

theorem lexString (hr : lx.rest = quote :: rest) :
    Leads text (lexString quote) lx (lx.follow (readString quote rest)) := by
  have hrest : lx.rest.drop 1 = rest := by rw [hr, List.drop_succ_cons, List.drop_zero]
  have hfollow : lx.follow (readString quote rest) = lx.closeString 1 (stringEnd quote rest) := by
    unfold readString
    cases stringEnd quote rest with
    | none =>
      rw [Lexer.closeString, hr, List.length_cons, Nat.add_comm rest.length]
      rfl
    | some width => rfl
  have hquoted := lexQuoted text lx 1 quote
  rw [hrest] at hquoted
  rw [hfollow]
  exact (nextChar text lx).bind hquoted

theorem lexTicked (text : String) (lx : Lexer) (n : Nat) :
    Leads text lexTicked (lx.advance n) (if '\x60' ∈ lx.rest.drop n then
      (lx.advance (n + frontWidth (· ≠ '\x60') (lx.rest.drop n) + 1)).emit .literal
    else (lx.advance lx.rest.length).report .backtick) := by
  generalize hr : lx.rest.drop n = rest
  induction rest generalizing n with
  | nil =>
    have hlength := List.drop_eq_nil_iff.mp hr
    have hreport : Leads text (Cursor.report .backtick "") (lx.advance (n + 1))
      ((lx.advance (n + 1)).report .backtick) := report fun _ => rfl
    rw [if_neg List.not_mem_nil, ← Lexer.advance_of_le (Nat.le_succ_of_le hlength)]
    refine loop_done ((nextChar_more text lx n).bind ?_)
    rw [hr]
    exact hreport.bind (pure _)
  | cons c rest ih =>
    by_cases hc : c = '\x60'
    · have hwidth : frontWidth (· ≠ '\x60') (c :: rest) = 0 := by
        rw [frontWidth, List.takeWhile_cons_of_neg (by simpa using hc), List.length_nil]
      rw [if_pos (hc ▸ List.mem_cons_self), hwidth]
      refine loop_done ((nextChar_more text lx n).bind ?_)
      rw [hr]
      dsimp only [List.head?_cons]
      rw [if_pos hc]
      exact (emit text _ _).bind (pure _)
    · have hwidth : n + frontWidth (· ≠ '\x60') (c :: rest) =
          n + 1 + frontWidth (· ≠ '\x60') rest := by
        rw [frontWidth_of_headIs (by simpa [headIs] using hc), Nat.add_assoc]
        rfl
      have hmem : '\x60' ∈ c :: rest ↔ '\x60' ∈ rest := by simp [Ne.symm hc]
      have hmore := ih (n + 1) (drop_more hr 0)
      rw [hwidth]
      simp only [hmem]
      refine loop_on hr Nat.one_pos ((nextChar_more text lx n).bind ?_) hmore
      rw [hr]
      dsimp only [List.head?_cons]
      rw [if_neg hc]
      exact pure none

theorem lexBacktick (hr : lx.rest = c :: rest) :
    Leads text lexBacktick lx (lx.follow (readBacktick rest)) := by
  have hrest : lx.rest.drop 1 = rest := by rw [hr, List.drop_succ_cons, List.drop_zero]
  have hticked := lexTicked text lx 1
  rw [hrest] at hticked
  refine (nextChar text lx).bind ?_
  unfold readBacktick
  split at hticked
  next hm =>
    rw [if_pos hm]
    exact hticked
  next hm =>
    rw [hr, List.length_cons, Nat.add_comm] at hticked
    rw [if_neg hm]
    exact hticked

end Cursor.Leads

end SqlSelect
