import SqlSelect.Proofs.Balance
import SqlSelect.Proofs.Locating

namespace SqlSelect

namespace TokenList

/-- The parenthesis at `start` is closed by the one at `close`, with no end of input between them. -/
structure ClosedBy (ts : TokenList) (start close : Nat) : Prop where
  parenthesized : Parenthesized (ts.span start close)
  kind_ne_eof (m : Nat) : start < m → m < close → ts.kind m ≠ .eof

/-- A parenthesis opens at `i`, and from there on fewer have closed than opened, however far one
looks before `stop`. -/
structure StaysOpen (ts : TokenList) (i stop : Nat) : Prop where
  opens : ts.kind i = .leftParen
  lt : i < stop
  count_lt (j : Nat) : i ≤ j → j < stop →
    ts.count .rightParen i (j + 1) < ts.count .leftParen i (j + 1)

/-- The first end of input after the token at `start`. -/
structure FirstEnd (ts : TokenList) (start stop : Nat) : Prop where
  lt : start < stop
  isEof : ts.kind stop = .eof
  kind_ne_eof (m : Nat) : start < m → m < stop → ts.kind m ≠ .eof

/-- Of the parentheses from `start` on, those at `inner` and `outer` are open before `i`, the
innermost first. Between two of them, and after the last, all is well nested. -/
inductive Opened (ts : TokenList) (start : Nat) : (i inner : Nat) → (outer : List Nat) → Prop
  | first {i : Nat} : ts.kind start = .leftParen → ts.Nests (start + 1) i →
      Opened ts start i start []
  | within {i inner next : Nat} {outer : List Nat} : Opened ts start inner next outer →
      ts.kind inner = .leftParen → ts.Nests (inner + 1) i → Opened ts start i inner (next :: outer)

variable {ts : TokenList} {start i j m inner stop close bound : Nat} {outer : List Nat} {f : Fault}

/-- Up to the end of what is well nested inside a parenthesis, that stays open. -/
theorem Nests.count_lt_of_opens (h : ts.Nests (i + 1) j) (ho : ts.kind i = .leftParen)
    (hi : i < m) (hm : m ≤ j) : ts.count .rightParen i m < ts.count .leftParen i m := by
  have := h.count_le m hi hm
  rw [count_step _ hi, count_step _ hi, ho, if_neg (by decide), if_pos rfl]
  omega

namespace Opened

theorem opens (h : ts.Opened start i inner outer) : ts.kind inner = .leftParen := by
  cases h <;> assumption

theorem nests (h : ts.Opened start i inner outer) : ts.Nests (inner + 1) i := by
  cases h <;> assumption

theorem start_le (h : ts.Opened start i inner outer) : start ≤ inner := by
  induction h with
  | first => exact Nat.le_refl start
  | within h _ _ ih =>
    have := h.nests.le
    omega

theorem extend (h : ts.Opened start i inner outer) (hn : ts.Nests i j) :
    ts.Opened start j inner outer := by
  cases h with
  | first ho h => exact .first ho (h.trans hn)
  | within hout ho h => exact .within hout ho (h.trans hn)

theorem opening (h : ts.Opened start i inner outer) (ho : ts.kind i = .leftParen) :
    ts.Opened start (i + 1) i (inner :: outer) := .within h ho (.refl ts _)

/-- What has closed is well nested inside the parenthesis around it. -/
theorem closing {next : Nat} (h : ts.Opened start i inner (next :: outer))
    (hc : ts.kind i = .rightParen) : ts.Opened start (i + 1) next outer := by
  cases h with
  | within hout ho h => exact hout.extend (.parenthesized ho h hc)

/-- The outermost parenthesis stays open, and what opens in it adds to that. -/
theorem count_lt (h : ts.Opened start i inner outer) (hm : start < m) (hi : m ≤ i) :
    ts.count .rightParen start m < ts.count .leftParen start m := by
  induction h generalizing m with
  | first ho h => exact h.count_lt_of_opens ho hm hi
  | @within i inner next outer hout ho h ih =>
    have hle : start < inner := Nat.lt_of_le_of_lt hout.start_le hout.nests.le
    by_cases hm' : m ≤ inner
    · exact ih hm hm'
    · have hbefore := ih hle (Nat.le_refl inner)
      have hafter := h.count_lt_of_opens ho (Nat.lt_of_not_le hm') hi
      rw [count_trans _ (Nat.le_of_lt hle) (Nat.le_of_not_le hm'),
        count_trans _ (Nat.le_of_lt hle) (Nat.le_of_not_le hm')]
      omega

theorem staysOpen (h : ts.Opened start stop inner outer) : ts.StaysOpen inner stop :=
  ⟨h.opens, h.nests.le, fun _ hi hj => h.nests.count_lt_of_opens h.opens (Nat.lt_succ_of_le hi) hj⟩

/-- After the innermost open parenthesis as many close as open, so that none of them stays open. -/
theorem le_of_staysOpen (h : ts.Opened start stop inner outer) (ho : ts.StaysOpen i stop) :
    i ≤ inner := by
  refine Nat.le_of_not_lt fun hlt => ?_
  have hstop := ho.lt
  have hcount := ho.count_lt (stop - 1) (by omega) (by omega)
  rw [Nat.sub_add_cancel (by omega)] at hcount
  have hlt : inner + 1 ≤ i := hlt
  have hle := h.nests.count_le i hlt (Nat.le_of_lt hstop)
  have heq := h.nests.count_eq
  rw [count_trans _ hlt (Nat.le_of_lt hstop), count_trans _ hlt (Nat.le_of_lt hstop)] at heq
  omega

end Opened

/-- A search that fails has come to an end of input, and tells of the innermost parenthesis that is
open there. -/
theorem opened_of_closeFrom (h : closeFrom ts bound i inner outer = .error f)
    (ho : ts.Opened start i inner outer) (hi : i < ts.size) (hb : ts.size ≤ i + bound) :
    ∃ stop outer', i ≤ stop ∧ ts.kind stop = .eof ∧ (∀ m, i ≤ m → m < stop → ts.kind m ≠ .eof) ∧
      ts.Opened start stop f.index outer' := by
  induction bound generalizing i inner outer with
  | zero => omega
  | succ bound ih =>
    have hgo {inner' : Nat} {outer' : List Nat} (hk : ts.kind i ≠ .eof)
        (h : closeFrom ts bound (i + 1) inner' outer' = .error f)
        (ho : ts.Opened start (i + 1) inner' outer') :
        ∃ stop outer', i ≤ stop ∧ ts.kind stop = .eof ∧
          (∀ m, i ≤ m → m < stop → ts.kind m ≠ .eof) ∧ ts.Opened start stop f.index outer' := by
      obtain ⟨stop, outer', hle, hstop, hn, ho⟩ := ih h ho (lt_size_of_kind hk) (by omega)
      refine ⟨stop, outer', by omega, hstop, fun m hm hlt => ?_, ho⟩
      rcases Nat.lt_or_eq_of_le hm with hm | rfl
      · exact hn m hm hlt
      · exact hk
    unfold closeFrom at h
    split at h
    next hk => exact hgo (by simp [hk]) h (ho.opening hk)
    next hk =>
      split at h
      next => cases h
      next => exact hgo (by simp [hk]) h (ho.closing hk)
    next hk =>
      cases h
      exact ⟨i, outer, Nat.le_refl i, hk, fun m hm hlt => by omega, ho⟩
    next hl hr he =>
      refine hgo he h (ho.extend (.token ?_))
      simp only [List.mem_cons, List.not_mem_nil, or_false]
      exact not_or.mpr ⟨hl, hr⟩

/-- Where no parenthesis closes the one at `start`, the innermost that is open at the next end of
input is told of. -/
theorem opened_of_closing (ho : ts.kind start = .leftParen) (h : SqlSelect.closing ts start = .error f) :
    ∃ stop outer, ts.FirstEnd start stop ∧ ts.Opened start stop f.index outer := by
  have hlt : start + 1 < ts.size := lt_size_of_kind (by simp [ho])
  unfold SqlSelect.closing at h
  rw [if_pos ho] at h
  obtain ⟨stop, outer, hle, hstop, hn, hopened⟩ :=
    opened_of_closeFrom h (.first ho (.refl ts _)) hlt (by omega)
  exact ⟨stop, outer, ⟨hle, hstop, hn⟩, hopened⟩

namespace ClosedBy

theorem opens (h : ts.ClosedBy start close) : start ≤ close ∧ ts.kind start = .leftParen := by
  have ho : (ts.slice start (close + 1)).head?.map (·.kind) = some .leftParen :=
    h.parenthesized.opens
  by_cases hle : start ≤ close
  · rw [slice_cons (Nat.lt_succ_of_le hle)] at ho
    exact ⟨hle, Option.some.inj ho⟩
  · rw [slice_of_le (by omega)] at ho
    cases ho

/-- An end of input neither opens a parenthesis nor closes one. -/
theorem not_opened (h : ts.ClosedBy start close) (hend : ts.FirstEnd start stop) :
    ¬ts.Opened start stop inner outer := by
  intro ho
  have hle := h.opens.1
  have hbalanced : ts.count .leftParen start (close + 1) = ts.count .rightParen start (close + 1) :=
    h.parenthesized.balanced
  rcases Nat.lt_trichotomy stop close with hlt | rfl | hlt
  · exact h.kind_ne_eof stop hend.lt hlt hend.isEof
  · have := ho.count_lt hend.lt (Nat.le_refl stop)
    rw [count_succ _ hle, count_succ _ hle, hend.isEof, if_neg (by decide), if_neg (by decide)]
      at hbalanced
    omega
  · have := ho.count_lt (m := close + 1) (by omega) hlt
    omega

end ClosedBy

/-- The search finds the parenthesis that closes another, if one does before the end of input. -/
theorem closing_eq_ok_iff : SqlSelect.closing ts start = .ok close ↔ ts.ClosedBy start close := by
  constructor
  · intro h
    exact ⟨parenthesized_of_closing h, fun m hm hlt =>
      ((closing_tracks start).holds h).kind_ne_eof (Nat.le_of_lt hm) (Nat.le_of_lt hlt)⟩
  · intro h
    obtain ⟨hle, ho⟩ := h.opens
    cases hc : SqlSelect.closing ts start with
    | ok close' =>
      have hp := parenthesized_of_closing hc
      have hle' : start ≤ close' := Nat.le_of_lt (closing_lt hc)
      rw [Nat.le_antisymm (le_of_parenthesized hle h.parenthesized hp)
        (le_of_parenthesized hle' hp h.parenthesized)]
    | error f =>
      obtain ⟨stop, outer, hend, hopened⟩ := opened_of_closing ho hc
      exact (h.not_opened hend hopened).elim

end TokenList

namespace Parser

/-- A parenthesis is found with the one that closes it, if that comes before an end of input. If
none does, the error is about the innermost parenthesis that stays open up to the next end. -/
theorem run_parenthesis (p : Parser) {start : Nat} (ho : p.tokens.kind start = .leftParen) :
    (∀ close, p.run .parenthesis start = .ok ⟨p.tokens, .leaf .parenthesis start close⟩ ↔
      p.tokens.ClosedBy start close) ∧
    ((∀ close, ¬p.tokens.ClosedBy start close) → ∃ stop i, p.tokens.FirstEnd start stop ∧
      start ≤ i ∧ p.tokens.StaysOpen i stop ∧ (∀ j, p.tokens.StaysOpen j stop → j ≤ i) ∧
      p.run .parenthesis start = .error
        (.atToken "unmatched parenthesis: '(' is never closed" (p.tokens.token i))) := by
  refine ⟨fun close => ?_, fun hn => ?_⟩
  · rw [← TokenList.closing_eq_ok_iff, run_eq_ok]
    constructor
    · rintro ⟨_, h⟩
      obtain ⟨close', hc, h⟩ := bind_eq_ok.mp h
      cases h
      exact hc
    · intro hc
      exact ⟨rfl, bind_eq_ok.mpr ⟨close, hc, rfl⟩⟩
  · cases hc : closing p.tokens start with
    | ok close => exact (hn close (TokenList.closing_eq_ok_iff.mp hc)).elim
    | error f =>
      obtain ⟨stop, outer, hend, hopened⟩ := TokenList.opened_of_closing ho hc
      refine ⟨stop, f.index, hend, hopened.start_le, hopened.staysOpen,
        fun j => hopened.le_of_staysOpen, ?_⟩
      have hrun : Production.run .parenthesis p.tokens p.options.maxDepth start = .error f :=
        bind_eq_error.mpr (.inl hc)
      have hf : f = ⟨.unclosed, f.index⟩ := by
        rw [← closing_complaint ho hc]
      rw [run, hrun, hf]
      rfl

theorem run_parenthesis_of_end_between :
    let p : Parser := ⟨⟨#[⟨.leftParen, "(", ⟨1, 1⟩⟩, ⟨.leftParen, "(", ⟨1, 2⟩⟩,
      ⟨.literal, "a", ⟨1, 3⟩⟩, ⟨.rightParen, ")", ⟨1, 4⟩⟩, ⟨.leftParen, "(", ⟨1, 5⟩⟩,
      ⟨.eof, "", ⟨1, 6⟩⟩, ⟨.rightParen, ")", ⟨2, 1⟩⟩, ⟨.rightParen, ")", ⟨2, 2⟩⟩],
      ⟨.eof, "", ⟨2, 3⟩⟩, rfl, by decide⟩, {}⟩
    p.tokens.kind 1 = .leftParen ∧ p.tokens.ClosedBy 1 3 ∧ p.tokens.kind 0 = .leftParen ∧
      (∀ close, ¬p.tokens.ClosedBy 0 close) ∧ ∃ stop i, p.tokens.FirstEnd 0 stop ∧ 0 ≤ i ∧
        p.tokens.StaysOpen i stop ∧ (∀ j, p.tokens.StaysOpen j stop → j ≤ i) ∧
        p.run .parenthesis 0 = .error
          (.atToken "unmatched parenthesis: '(' is never closed" (p.tokens.token i)) := by
  intro p
  have hclosed : p.run .parenthesis 1 = .ok ⟨p.tokens, .leaf .parenthesis 1 3⟩ := rfl
  have hopen : p.run .parenthesis 0 = .error (.grammatical _ ⟨1, 5⟩) := rfl
  have hn : ∀ close, ¬p.tokens.ClosedBy 0 close := fun close hc => by
    have hrun := ((run_parenthesis p rfl).1 close).mpr hc
    cases hopen.symm.trans hrun
  exact ⟨rfl, ((run_parenthesis p rfl).1 3).mp hclosed, rfl, hn, (run_parenthesis p rfl).2 hn⟩

end Parser

end SqlSelect
