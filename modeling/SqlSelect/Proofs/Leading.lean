import SqlSelect.Cursor.Scanner
import SqlSelect.Proofs.CallSequence

namespace SqlSelect

namespace Lexer

theorem advance_zero (lx : Lexer) : lx.advance 0 = lx := by
  simp [advance]

theorem advance_of_nil {lx : Lexer} (h : lx.rest = []) (n : Nat) : lx.advance n = lx := by
  cases lx
  cases h
  simp [advance]

theorem advance_advance (lx : Lexer) (m n : Nat) :
    (lx.advance m).advance n = lx.advance (m + n) := by
  simp only [advance, List.drop_drop, List.append_assoc, ← Position.after_append, List.take_add]

/-- A flaw that is seen at once is one of what was pending before. -/
theorem follow_flaw_zero (lx : Lexer) (f : Flaw) : lx.follow (.flaw 0 f) = lx.report f := by
  show (lx.advance 0).report f = lx.report f
  rw [advance_zero]

end Lexer

namespace Cursor

/-- A cursor is where a lexer is, and has the same pending. -/
structure Tracks (cu : Cursor) (lx : Lexer) (text : String) (done : List Char) : Prop where
  stands : lx.Stands text.toList done
  input_eq : cu.input = text
  start_eq : cu.start = byteWidth done
  pos_eq : cu.pos = byteWidth (done ++ lx.pending)
  startPosition_eq : cu.startPosition = lx.start
  position_eq : cu.position = lx.position
  finished_eq : cu.finished = lx.finished

/-- Wherever a cursor follows a lexer, a move has a result, which is what the lexer gives, and leads
to where the lexer is after that. -/
def Leads {α : Type} (text : String) (x : Move α) (lx : Lexer) (r : α × Lexer) : Prop :=
  ∀ cu done, cu.Tracks lx text done →
    ∃ cu' done', x cu = some (r.1, cu') ∧ cu'.Tracks r.2 text done'

/-- Wherever a cursor follows a lexer, a move has this result and leaves the cursor as it is. -/
def Tells {α : Type} (text : String) (x : Move α) (lx : Lexer) (a : α) : Prop :=
  ∀ cu done, cu.Tracks lx text done → x cu = some (a, cu)

section

variable {α β : Type} {text : String} {lx lx' : Lexer} {cu : Cursor} {done rest : List Char}
  {c : Char}

@[simp] theorem pure_apply (a : α) (cu : Cursor) : (Pure.pure a : Move α) cu = some (a, cu) := rfl

@[simp] theorem bind_apply (x : Move α) (f : α → Move β) (cu : Cursor) :
    (x >>= f) cu = (x cu).bind fun r => f r.1 r.2 := rfl

@[simp] theorem map_apply (f : α → β) (x : Move α) (cu : Cursor) :
    (f <$> x) cu = (x cu).map fun r => (f r.1, r.2) := by
  rw [← bind_pure_comp, bind_apply]
  cases x cu with
  | none => rfl
  | some r => rfl

@[simp] theorem get_apply (cu : Cursor) : (get : Move Cursor) cu = some (cu, cu) := rfl

@[simp] theorem set_apply (cu cu' : Cursor) : (set cu' : Move Unit) cu = some ((), cu') := rfl

@[simp] theorem modify_apply (f : Cursor → Cursor) (cu : Cursor) :
    (modify f : Move Unit) cu = some ((), f cu) := rfl

@[simp] theorem liftM_apply (x : Option α) (cu : Cursor) :
    (liftM x : Move α) cu = x.map (·, cu) := by
  cases x with
  | none => rfl
  | some a => rfl

namespace Leads

theorem pure (a : α) : Leads text (Pure.pure a) lx (a, lx) := fun cu done h => ⟨cu, done, rfl, h⟩

theorem bind {x : Move α} {f : α → Move β} {a : α} {r : β × Lexer} (hx : Leads text x lx (a, lx'))
    (hf : Leads text (f a) lx' r) : Leads text (x >>= f) lx r := by
  intro cu done h
  obtain ⟨cu', done', he, h'⟩ := hx cu done h
  obtain ⟨cu'', done'', he', h''⟩ := hf cu' done' h'
  exact ⟨cu'', done'', by rw [bind_apply, he]; exact he', h''⟩

end Leads

namespace Tracks

/-- What there is to go back to does not count. -/
theorem forget (h : cu.Tracks lx text done) (width column : Nat) :
    ({ cu with width := width, lastColumn := column } : Cursor).Tracks lx text done :=
  ⟨h.stands, h.input_eq, h.start_eq, h.pos_eq, h.startPosition_eq, h.position_eq, h.finished_eq⟩

theorem slice?_ahead (h : cu.Tracks lx text done) :
    slice? cu.input cu.pos cu.input.utf8ByteSize = some (String.ofList lx.rest) := by
  have htext : text.toList = (done ++ lx.pending) ++ (lx.rest ++ []) := by
    rw [h.stands.text_eq]
    simp
  have hsize : text.utf8ByteSize = byteWidth ((done ++ lx.pending) ++ lx.rest) := by
    rw [← byteWidth_toList, htext, List.append_nil]
  rw [h.input_eq, h.pos_eq, hsize]
  exact slice?_of_toList htext

theorem ahead_eq (h : cu.Tracks lx text done) : ahead cu = some (lx.rest, cu) := by
  simp [ahead, h.slice?_ahead]

theorem stepOver (h : cu.Tracks lx text done) (hr : lx.rest = c :: rest) :
    (cu.stepOver c).Tracks (lx.advance 1) text done := by
  refine ⟨h.stands.advance 1, h.input_eq, h.start_eq, ?_, h.startPosition_eq, ?_, h.finished_eq⟩
  · simp [Cursor.stepOver, Lexer.advance, hr, h.pos_eq, Nat.add_assoc]
  · have hposition := h.position_eq
    simp only [Lexer.advance, hr, ← hposition]
    by_cases hc : c = '\n'
    · simp [Cursor.stepOver, Cursor.position, Position.next, hc]
    · simp [Cursor.stepOver, Cursor.position, Position.next, hc]

theorem nextChar_cons (h : cu.Tracks lx text done) (hr : lx.rest = c :: rest) :
    nextChar cu = some (some c, cu.stepOver c) := by
  simp [nextChar, h.ahead_eq, hr]

theorem nextChar_nil (h : cu.Tracks lx text done) (hr : lx.rest = []) :
    nextChar cu = some (none, { cu with width := 0 }) := by
  simp [nextChar, h.ahead_eq, hr]

/-- After a character was read, the way back leads to where it is read next. -/
theorem backup_stepOver (h : cu.Tracks lx text done) (hr : lx.rest = c :: rest) :
    backup (cu.stepOver c) = some ((), { cu with width := 0, lastColumn := cu.column }) := by
  have hwidth : (cu.stepOver c).width ≠ 0 := Nat.ne_of_gt c.utf8Size_pos
  have hpos : less? (cu.stepOver c).pos (cu.stepOver c).width = some cu.pos := by
    simp [less?, Cursor.stepOver]
  have hslice : slice? (cu.stepOver c).input cu.pos (cu.stepOver c).input.utf8ByteSize =
    some (String.ofList lx.rest) := h.slice?_ahead
  have hline : (if (String.ofList lx.rest).toList.head? = some '\n' then
      less? (cu.stepOver c).line 1 else some (cu.stepOver c).line) = some cu.line := by
    by_cases hc : c = '\n'
    · simp [less?, Cursor.stepOver, hr, hc]
    · simp [Cursor.stepOver, hr, hc]
  simp only [backup, bind_apply, get_apply, Option.bind_some, if_neg hwidth, liftM_apply, hpos,
    Option.map_some, hslice, hline, set_apply]
  rfl

theorem left_eq (h : cu.Tracks lx text done) :
    cu.left = byteWidth lx.rest + if lx.finished then 0 else 1 := by
  have hsize : cu.input.utf8ByteSize = cu.pos + byteWidth lx.rest := by
    rw [h.input_eq, h.pos_eq, ← byteWidth_toList, h.stands.text_eq]
    simp [Nat.add_assoc]
  rw [left, hsize, h.finished_eq, Nat.add_sub_cancel_left]

end Tracks

namespace Tells

theorem pure (a : α) : Tells text (Pure.pure a) lx a := fun _ _ _ => rfl

theorem bind {x : Move α} {f : α → Move β} {a : α} {b : β} (hx : Tells text x lx a)
    (hf : Tells text (f a) lx b) : Tells text (x >>= f) lx b := by
  intro cu done h
  rw [bind_apply, hx cu done h]
  exact hf cu done h

theorem leads {x : Move α} {a : α} (h : Tells text x lx a) : Leads text x lx (a, lx) :=
  fun cu done ht => ⟨cu, done, h cu done ht, ht⟩

theorem peekAhead (text : String) (lx : Lexer) (n : Nat) :
    Tells text (peekAhead (n + 1)) lx lx.rest[n]? := by
  intro cu done h
  simp [Cursor.peekAhead, h.ahead_eq]

end Tells

theorem backup_of_width (h : cu.width = 0) : backup cu = some ((), cu) := by
  simp [backup, h]

namespace Leads

theorem nextChar (text : String) (lx : Lexer) :
    Leads text nextChar lx (lx.rest.head?, lx.advance 1) := by
  intro cu done h
  cases hr : lx.rest with
  | nil =>
    refine ⟨_, done, h.nextChar_nil hr, ?_⟩
    rw [Lexer.advance_of_nil hr]
    exact h.forget 0 cu.lastColumn
  | cons c rest => exact ⟨_, done, h.nextChar_cons hr, h.stepOver hr⟩

/-- To read a character and go back leads nowhere. -/
theorem back {f : Option Char → Move α} {x : Move α} {r : α × Lexer}
    (hf : f lx.rest.head? = Cursor.backup >>= fun _ => x) (hx : Leads text x lx r) :
    Leads text (Cursor.nextChar >>= f) lx r := by
  intro cu done h
  cases hr : lx.rest with
  | nil =>
    rw [hr] at hf
    have hback : backup { cu with width := 0 } = some ((), { cu with width := 0 }) :=
      backup_of_width rfl
    obtain ⟨cu', done', he, h'⟩ := hx _ done (h.forget 0 cu.lastColumn)
    refine ⟨cu', done', ?_, h'⟩
    rw [bind_apply, h.nextChar_nil hr, Option.bind_some]
    dsimp only
    rw [← List.head?_nil, hf, bind_apply, hback]
    exact he
  | cons c rest =>
    rw [hr] at hf
    obtain ⟨cu', done', he, h'⟩ := hx _ done (h.forget 0 cu.column)
    refine ⟨cu', done', ?_, h'⟩
    rw [bind_apply, h.nextChar_cons hr, Option.bind_some]
    dsimp only
    rw [← List.head?_cons, hf, bind_apply, h.backup_stepOver hr]
    exact he

theorem peek (text : String) (lx : Lexer) : Leads text peek lx (lx.rest.head?, lx) :=
  back rfl (pure lx.rest.head?)

theorem accept_true {p : Char → Bool} (hp : headIs p lx.rest = true) :
    Leads text (accept p) lx (true, lx.advance 1) := by
  refine (nextChar text lx).bind ?_
  have hany : lx.rest.head?.any p = true := hp
  rw [if_pos hany]
  exact pure true

theorem accept_false {p : Char → Bool} (hp : headIs p lx.rest = false) :
    Leads text (accept p) lx (false, lx) := by
  have hany : ¬lx.rest.head?.any p = true := Bool.eq_false_iff.mp hp
  exact back (if_neg hany) (pure false)

/-- A loop whose turn has a result has this result. -/
theorem loop_done {turn : Move (Option α)} {a : α} (h : Leads text turn lx (some a, lx')) :
    Leads text (loop turn) lx (a, lx') := by
  intro cu done ht
  obtain ⟨cu', done', he, h'⟩ := h cu done ht
  exact ⟨cu', done', by rw [loop, he], h'⟩

/-- A loop whose turn has none goes on, if less of the text is left. -/
theorem loop_again {turn : Move (Option α)} {r : α × Lexer} (h : Leads text turn lx (none, lx'))
    (hf : lx'.finished = lx.finished) (hlt : byteWidth lx'.rest < byteWidth lx.rest)
    (hr : Leads text (loop turn) lx' r) : Leads text (loop turn) lx r := by
  intro cu done ht
  obtain ⟨cu', done', he, h'⟩ := h cu done ht
  obtain ⟨cu'', done'', he', h''⟩ := hr cu' done' h'
  have hleft : cu'.left < cu.left := by
    rw [h'.left_eq, ht.left_eq, hf]
    exact Nat.add_lt_add_right hlt _
  refine ⟨cu'', done'', ?_, h''⟩
  rw [loop, he]
  exact (if_pos hleft).trans he'

theorem acceptWhile (text : String) (lx : Lexer) (p : Char → Bool) :
    Leads text (acceptWhile p) lx ((), lx.advance (frontWidth p lx.rest)) := by
  generalize hr : lx.rest = rest
  induction rest generalizing lx with
  | nil =>
    rw [Lexer.advance_of_nil hr]
    exact loop_done ((accept_false (by rw [hr]; rfl)).bind (pure _))
  | cons c rest ih =>
    by_cases hc : p c = true
    · have hrest : (lx.advance 1).rest = rest := by
        rw [Lexer.advance, hr]
        rfl
      have hmore := ih (lx.advance 1) hrest
      rw [Lexer.advance_advance, Nat.add_comm] at hmore
      rw [frontWidth, List.takeWhile_cons_of_pos hc, List.length_cons]
      refine loop_again ((accept_true (by rw [hr]; exact hc)).bind (pure _)) rfl ?_ hmore
      rw [hrest, hr, byteWidth_cons]
      exact Nat.lt_add_of_pos_left c.utf8Size_pos
    · rw [frontWidth, List.takeWhile_cons_of_neg hc, List.length_nil, Lexer.advance_zero]
      exact loop_done ((accept_false (by rw [hr]; exact Bool.eq_false_iff.mpr hc)).bind (pure _))

theorem forward (text : String) (lx : Lexer) (n : Nat) :
    Leads text (forward n) lx (decide (n ≤ lx.rest.length), lx.advance n) := by
  induction n generalizing lx with
  | zero =>
    rw [Lexer.advance_zero]
    exact pure true
  | succ n ih =>
    refine (nextChar text lx).bind ?_
    cases hr : lx.rest with
    | nil =>
      rw [Lexer.advance_of_nil hr, Lexer.advance_of_nil hr]
      exact pure false
    | cons c rest =>
      have hrest : (lx.advance 1).rest = rest := by
        rw [Lexer.advance, hr]
        rfl
      have hmore := ih (lx.advance 1)
      rw [Lexer.advance_advance, Nat.add_comm, hrest] at hmore
      rw [List.length_cons, decide_eq_decide.mpr Nat.add_le_add_iff_right]
      exact hmore

theorem fastForward_true {n : Nat} (h : n ≤ lx.rest.length) :
    Leads text (fastForward n) lx (true, lx.advance n) := by
  intro cu done ht
  obtain ⟨cu', done', he, h'⟩ := forward text lx n cu done ht
  rw [decide_eq_true h] at he
  exact ⟨cu', done', by simp [fastForward, he], h'⟩

/-- Where there are too few characters the cursor stays where it is. -/
theorem fastForward_false {n : Nat} (h : lx.rest.length < n) :
    Leads text (fastForward n) lx (false, lx) := by
  intro cu done ht
  obtain ⟨cu', done', he, h'⟩ := forward text lx n cu done ht
  rw [decide_eq_false (Nat.not_le_of_gt h)] at he
  have hdone : done' = done := h'.stands.done_eq (ht.stands.advance n)
  subst hdone
  refine ⟨_, done', by simp [fastForward, he]; rfl, ?_⟩
  exact ⟨ht.stands, h'.input_eq, h'.start_eq, ht.pos_eq, h'.startPosition_eq, ht.position_eq,
    h'.finished_eq⟩

theorem ignore (text : String) (lx : Lexer) : Leads text ignore lx ((), lx.restart) := by
  intro cu done h
  refine ⟨_, done ++ lx.pending, modify_apply _ cu, h.stands.restart, h.input_eq, h.pos_eq, ?_,
    h.position_eq, h.position_eq, h.finished_eq⟩
  simpa [Lexer.restart] using h.pos_eq

theorem pending (text : String) (lx : Lexer) :
    Leads text pending lx (String.ofList lx.pending, lx) := by
  intro cu done h
  have hslice : slice? cu.input cu.start cu.pos = some (String.ofList lx.pending) := by
    rw [h.input_eq, h.start_eq, h.pos_eq]
    exact slice?_of_toList h.stands.text_eq
  exact ⟨cu, done, by simp [Cursor.pending, hslice], h⟩

/-- A move may look at the cursor itself, for what the lexer can tell. -/
theorem inspect {f : Cursor → Move α} {x : Move α} {r : α × Lexer}
    (hf : ∀ cu done, cu.Tracks lx text done → f cu cu = x cu) (hx : Leads text x lx r) :
    Leads text (get >>= f) lx r := by
  intro cu done h
  obtain ⟨cu', done', he, h'⟩ := hx cu done h
  exact ⟨cu', done', (hf cu done h).trans he, h'⟩

theorem emit (text : String) (lx : Lexer) (kind : TokenKind) :
    Leads text (emit kind) lx (lx.emit kind) := by
  refine inspect (x := do
    let text ← Cursor.pending
    Cursor.ignore
    return ⟨kind, text, lx.start⟩) (fun cu done h => ?_)
    ((pending text lx).bind ((ignore text lx).bind (pure _)))
  rw [h.startPosition_eq]

/-- A message shows what is pending only if it is about a number. -/
theorem report {flaw : Flaw} {shown : String}
    (hs : ∀ p, flaw.message shown p = flaw.message (String.ofList lx.pending) p) :
    Leads text (report flaw shown) lx (lx.report flaw) := by
  refine inspect (x := return ⟨.error, flaw.message shown lx.start, lx.start⟩)
    (fun cu done h => ?_) ?_
  · rw [h.startPosition_eq]
  · rw [hs]
    exact pure _

end Leads

end

end Cursor

end SqlSelect
