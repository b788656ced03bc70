import SqlSelect.Proofs.Tiling

namespace SqlSelect.Lexer

/-- Where a lexer stands in a text: what is pending begins after `done`, and both places are told
by what comes before them. -/
structure Stands (lx : Lexer) (text done : List Char) : Prop where
  text_eq : text = done ++ (lx.pending ++ lx.rest)
  start_eq : lx.start = .ofFront done
  position_eq : lx.position = .ofFront (done ++ lx.pending)

variable {lx : Lexer} {text done : List Char}

theorem stands_ofText (text : String) : (ofText text).Stands text.toList [] := ⟨rfl, rfl, rfl⟩

/-- Before a token nothing is passed over, or the white space that comes next, with what is pending
before it. -/
theorem skipBlanks_cases (lx : Lexer) : lx.skipBlanks = lx ∨
    ∃ n, lx.skipBlanks = (lx.advance n).restart ∧ lx.rest.take n ≠ [] ∧
      ∀ c ∈ lx.rest.take n, isSpace c = true := by
  have ht : lx.rest.take (frontWidth isSpace lx.rest) = lx.rest.takeWhile isSpace :=
    (List.prefix_iff_eq_take.mp (List.takeWhile_prefix isSpace)).symm
  unfold skipBlanks
  split
  next => exact .inl rfl
  next hw =>
    refine .inr ⟨_, rfl, ?_, ?_⟩
    · rw [ht]
      exact fun he => hw (by rw [frontWidth, he]; rfl)
    · rw [ht]
      exact List.all_eq_true.mp List.all_takeWhile

namespace Stands

theorem done_eq {done' : List Char} (h : lx.Stands text done) (h' : lx.Stands text done') :
    done = done' := List.append_cancel_right (h.text_eq.symm.trans h'.text_eq)

theorem advance (h : lx.Stands text done) (n : Nat) : (lx.advance n).Stands text done := by
  refine ⟨?_, h.start_eq, ?_⟩
  · simp [Lexer.advance, h.text_eq]
  · simp only [Lexer.advance, h.position_eq, ← Position.after_origin, ← Position.after_append,
      List.append_assoc]

theorem restart (h : lx.Stands text done) : lx.restart.Stands text (done ++ lx.pending) := by
  refine ⟨?_, h.position_eq, ?_⟩
  · simp [Lexer.restart, h.text_eq]
  · simp [Lexer.restart, h.position_eq]

theorem finish (h : lx.Stands text done) (b : Bool) :
    ({ lx with finished := b } : Lexer).Stands text done := ⟨h.text_eq, h.start_eq, h.position_eq⟩

/-- A token is the text from where what is pending began, and leaves nothing pending; an error
leaves that place as it was. -/
theorem nextToken (h : lx.skipBlanks.Stands text done) :
    lx.nextToken.1.position = lx.skipBlanks.start ∧
      (lx.nextToken.1.isError = false ∧ lx.nextToken.2.pending = [] ∧
          lx.nextToken.2.Stands text (done ++ lx.nextToken.1.text.toList) ∨
        lx.nextToken.1.isError = true ∧ lx.nextToken.2.Stands text done) := by
  have hr := h.advance (scan lx.skipBlanks.rest).width
  unfold Lexer.nextToken follow
  split
  next kind hk =>
    have hkind : kind ≠ .error := by
      rintro rfl
      rcases scan_token hk with ⟨_, he, _⟩ | ⟨he, _⟩
      · cases he
      · cases he
    refine ⟨rfl, .inl ⟨by simp [emit, Token.isError, hkind], rfl, ?_⟩⟩
    simpa [emit] using hr.restart
  next => exact ⟨rfl, .inr ⟨rfl, hr⟩⟩

end Stands

/-- A call either answers nothing and changes nothing, or reads a token; then the lexer is as after
the token but for whether it has come to an end. -/
theorem call_cases (lx : Lexer) (c : Call) :
    c = .next ∧ lx.finished = true ∧ lx.call c = (none, lx) ∨
      ∃ b, lx.call c = (some lx.nextToken.1, { lx.nextToken.2 with finished := b }) := by
  cases c with
  | nextToken => exact .inr ⟨lx.nextToken.2.finished, rfl⟩
  | next =>
    by_cases hf : lx.finished = true
    · exact .inl ⟨rfl, hf, if_pos hf⟩
    · exact .inr ⟨_, if_neg hf⟩

theorem Stands.call (h : lx.skipBlanks.Stands text done) {c : Call} {t : Token}
    (ha : (lx.call c).1 = some t) : t.position = lx.skipBlanks.start ∧
      (t.isError = false ∧ (lx.call c).2.pending = [] ∧
          (lx.call c).2.Stands text (done ++ t.text.toList) ∨
        t.isError = true ∧ (lx.call c).2.Stands text done) := by
  obtain ⟨hp, hn⟩ := h.nextToken
  rcases lx.call_cases c with ⟨-, -, he⟩ | ⟨b, he⟩
  · rw [he] at ha
    cases ha
  · rw [he] at ha ⊢
    cases Option.some.inj ha
    exact ⟨hp, hn.imp (fun hn => ⟨hn.1, hn.2.1, hn.2.2.finish b⟩) fun hn => ⟨hn.1, hn.2.finish b⟩⟩

theorem nextToken_finished (lx : Lexer) : lx.nextToken.2.finished = lx.finished := by
  have hs : lx.skipBlanks.finished = lx.finished := by
    unfold skipBlanks
    split
    next => rfl
    next => rfl
  unfold nextToken follow
  split
  next => exact hs
  next => exact hs

theorem finished_afterCalls (h : lx.finished = true) (calls : List Call) :
    (lx.afterCalls calls).finished = true := by
  induction calls generalizing lx with
  | nil => exact h
  | cons c calls ih =>
    refine ih ?_
    cases c with
    | nextToken => exact (nextToken_finished lx).trans h
    | next =>
      show lx.next.2.finished = true
      rw [next, if_pos h]
      exact h

theorem next_of_finished (h : lx.finished = true) : lx.next = (none, lx) := if_pos h

theorem next_of_terminal (hf : lx.finished = false) (hk : lx.nextToken.1.kind.isTerminal = true) :
    lx.next = (some lx.nextToken.1, { lx.nextToken.2 with finished := true }) := by
  rw [next, if_neg (Bool.eq_false_iff.mp hf), hk]

/-- A lexer that has not finished goes on after a token that is not terminal. -/
theorem next_of_not_terminal (hf : lx.finished = false)
    (hk : lx.nextToken.1.kind.isTerminal = false) :
    lx.next = (some lx.nextToken.1, lx.nextToken.2) := by
  have hfinished : lx.nextToken.2.finished = false := (nextToken_finished lx).trans hf
  rw [next, if_neg (Bool.eq_false_iff.mp hf), hk, ← hfinished]

theorem finished_of_terminal {t : Token} (ha : lx.next.1 = some t)
    (hk : t.kind.isTerminal = true) : lx.next.2.finished = true := by
  unfold next at ha ⊢
  split at ha
  next => cases ha
  next hf =>
    cases Option.some.inj ha
    rw [if_neg hf]
    exact hk

theorem answers_of_finished (h : lx.finished = true) (n : Nat) :
    lx.answers (List.replicate n .next) = List.replicate n none := by
  induction n with
  | zero => rfl
  | succ n ih =>
    rw [List.replicate_succ, List.replicate_succ, answers, call, next_of_finished h, ih]

/-- The operation that stops gives the tokens of a text, and after them nothing any more. -/
theorem answers_next (hf : lx.finished = false) (n : Nat) :
    lx.answers (List.replicate (lx.toTokens.length + n) .next) =
      lx.toTokens.map some ++ List.replicate n none := by
  induction lx using toTokens.induct with
  | case1 lx hk =>
    rw [toTokens_of_terminal hk, List.length_singleton, Nat.add_comm, List.replicate_succ, answers,
      call, next_of_terminal hf hk, answers_of_finished rfl]
    rfl
  | case2 lx hk ih =>
    rw [toTokens_of_not_terminal hk, List.length_cons, Nat.add_right_comm, List.replicate_succ,
      answers, call, next_of_not_terminal hf (Bool.eq_false_iff.mpr hk),
      ih ((nextToken_finished lx).trans hf)]
    rfl

end SqlSelect.Lexer
