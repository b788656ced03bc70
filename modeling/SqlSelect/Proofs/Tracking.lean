import SqlSelect.Proofs.Covering
import SqlSelect.Proofs.Guarded

namespace SqlSelect

/-- A guarded computation comes to what a plain one comes to: a result with some property, or a
fault. It is never stopped for an index. -/
inductive Tracks {α : Type} (P : α → Prop) : Guarded α → Except Fault α → Prop
  | ok {a} : P a → Tracks P (.ok a) (.ok a)
  | fault {f} : Tracks P (.error (.fault f)) (.error f)

namespace Tracks

variable {α β : Type} {P : α → Prop} {Q : β → Prop} {g : Guarded α} {r : Except Fault α}
variable {g' : α → Guarded β} {r' : α → Except Fault β}

theorem eq (h : Tracks P g r) : g = r.mapError .fault := by
  cases h with
  | ok => rfl
  | fault => rfl

theorem holds (h : Tracks P g r) {a : α} (ha : r = .ok a) : P a := by
  cases h with
  | ok hp =>
    cases ha
    exact hp
  | fault => cases ha

theorem bind (h : Tracks P g r) (hf : ∀ a, P a → Tracks Q (g' a) (r' a)) :
    Tracks Q (g >>= g') (r >>= r') := by
  cases h with
  | ok ha => exact hf _ ha
  | fault => exact .fault

end Tracks

namespace Guarded

variable {ts : TokenList} {α β : Type} {P : α → Prop} {i l n : Nat}

theorem token_eq : token ts i = .ok (ts.token i) := by
  have hlt : min i (ts.size - 1) < ts.size := by
    have hpos : 0 < ts.size := Nat.succ_pos _
    omega
  have hi : ts.token (min i (ts.size - 1)) = ts.token i := by
    by_cases h : i ≤ ts.size - 1
    · rw [Nat.min_eq_left h]
    · rw [TokenList.token_of_size_le (i := i) (by omega), TokenList.token_of_size_le (by omega)]
  rw [token, TokenList.getElem?_toList hlt, hi]

theorem kind_bind {f : TokenKind → Guarded β} : (kind ts i >>= f) = f (ts.kind i) := by
  rw [kind, token_eq]
  rfl

theorem ahead_bind (h : i < ts.size) {f : Nat → Guarded β} : (ahead ts i n >>= f) = f (i + n) := by
  rw [ahead, if_pos h]
  rfl

theorem complain_eq {c : Complaint} : (complain ts c i : Guarded α) = .error (.fault ⟨c, i⟩) := by
  rw [complain, token_eq]
  rfl

theorem complain_tracks {c : Complaint} : Tracks P (complain ts c i) (.error ⟨c, i⟩) := by
  rw [complain_eq]
  exact .fault

theorem node_eq (h : ts.Covers i l) {k : NodeKind} {children : List Node} :
    node ts k i l children = .ok ⟨k, i, l, children⟩ := by
  refine if_pos ⟨h.le, h.last_lt, fun t ht => ?_⟩
  obtain ⟨m, hm, rfl⟩ := List.mem_map.mp ht
  have hm := List.mem_range'_1.mp hm
  have hk : (ts.token m).kind ≠ .eof := h.kind_ne_eof (by omega) (by omega)
  simpa [Token.isEof] using hk

theorem node_tracks (h : ts.Covers i l) {k : NodeKind} {children : List Node} :
    Tracks (fun n => ts.Covers i n.last) (node ts k i l children) (.ok ⟨k, i, l, children⟩) := by
  rw [node_eq h]
  exact .ok h

theorem expect_tracks {k : TokenKind} :
    Tracks (fun _ => ts.kind i = k) (expect ts k i) (SqlSelect.expect ts k i) := by
  unfold expect SqlSelect.expect
  rw [kind_bind]
  split
  next hk => exact .ok hk
  next => exact complain_tracks

end Guarded

/-- A guarded rule does as the plain one, wherever it starts; what it finds is there. -/
def Rule.Tracked (ts : TokenList) (g : Guarded.Rule) (rule : Rule) : Prop :=
  ∀ i, Tracks (fun n => ts.Covers i n.last) (g i) (rule i)

/-- A guarded step does as the plain one after tokens that are there, as what it adds is then. -/
def StepTracked (ts : TokenList) (g : Guarded.Step) (step : Nat → Except Fault (Option Stretch)) :
    Prop :=
  ∀ i last, ts.Covers i last → Tracks (fun o => ∀ s ∈ o, ts.Covers i s.last) (g last) (step last)

def Nest.Tracked (ts : TokenList) (g : Guarded.Nest) (nest : Nest) : Prop :=
  ∀ blame e, (nest blame e).Tracked ts (g blame e)

section

variable {ts : TokenList} {i last : Nat} {g : Guarded.Rule} {rule : Rule} {gs : Guarded.Step}
variable {step : Nat → Except Fault (Option Stretch)}

theorem Tracks.none : Tracks (fun o : Option Stretch => ∀ s ∈ o, ts.Covers i s.last)
    (.ok none) (.ok none) := .ok nofun

theorem Tracks.some {s : Stretch} (h : ts.Covers i s.last) :
    Tracks (fun o : Option Stretch => ∀ s ∈ o, ts.Covers i s.last) (.ok (some s)) (.ok (some s)) :=
  .ok fun _ hs => Option.mem_some_iff.mp hs ▸ h

theorem StepTracked.many (h : StepTracked ts gs step) (bound : Nat) (hl : ts.Covers i last) :
    Tracks (fun s => ts.Covers i s.last) (Guarded.many gs bound last) (many step bound last) := by
  induction bound generalizing last with
  | zero => exact .ok hl
  | succ bound ih =>
    refine (h i last hl).bind fun o ho => ?_
    cases o with
    | none => exact .ok hl
    | some s => exact (ih (ho s rfl)).bind fun more hm => .ok hm

theorem Rule.Tracked.chain (hr : rule.Tracked ts g) (h : StepTracked ts gs step)
    (bound : Nat) (i : Nat) : Tracks (fun s => ts.Covers i s.last) (Guarded.chain bound g gs i)
      (chain bound rule step i) :=
  (hr i).bind fun _ hh => (h.many bound hh).bind fun _ hm => .ok hm

theorem Rule.Tracked.announced (hr : rule.Tracked ts g) (p : TokenKind → Bool) :
    StepTracked ts (Guarded.announced ts p g) (announced ts p rule) := by
  intro i last hl
  unfold Guarded.announced SqlSelect.announced
  rw [Guarded.ahead_bind hl.last_lt, Guarded.kind_bind]
  split
  next => exact (hr (last + 1)).bind fun n hn => .some (hl.append hn)
  next => exact .none

/-- What comes after the announcing token is read only if that is no end of input. -/
theorem Rule.Tracked.announced_after (hr : rule.Tracked ts g) {p : TokenKind → Bool}
    (hp : p .eof = false) : StepTracked ts (Guarded.announced ts p (Guarded.after ts g))
      (SqlSelect.announced ts p fun i => rule (i + 1)) := by
  intro i last hl
  unfold Guarded.announced SqlSelect.announced
  rw [Guarded.ahead_bind hl.last_lt, Guarded.kind_bind]
  split
  next hk =>
    have hl := hl.next (TokenKind.ne_eof hk hp)
    unfold Guarded.after
    rw [Guarded.ahead_bind hl.last_lt]
    exact (hr (last + 2)).bind fun n hn => .some (hl.append hn)
  next => exact .none

theorem Rule.Tracked.commaList (hr : rule.Tracked ts g) (i : Nat) :
    Tracks (fun s => ts.Covers i s.last) (Guarded.commaList ts g i) (commaList ts rule i) :=
  hr.chain (hr.announced_after rfl) ts.size i

theorem closeFrom_tracks {bound inner : Nat} {outer : List Nat} {o : Nat} (h : ts.Covers o last) :
    Tracks (ts.Covers o) (Guarded.closeFrom ts bound (last + 1) inner outer)
      (closeFrom ts bound (last + 1) inner outer) := by
  induction bound generalizing last inner outer with
  | zero => exact Guarded.complain_tracks
  | succ bound ih =>
    unfold Guarded.closeFrom
    rw [Guarded.kind_bind]
    split
    next ho =>
      have h := h.next (by simp [ho])
      rw [Guarded.ahead_bind h.last_lt, closeFrom_leftParen ho]
      exact ih h
    next hc =>
      have h := h.next (by simp [hc])
      split
      next =>
        simp only [closeFrom, hc]
        exact .ok h
      next =>
        rw [Guarded.ahead_bind h.last_lt, closeFrom_rightParen hc]
        exact ih h
    next he =>
      simp only [closeFrom, he]
      exact Guarded.complain_tracks
    next ho hc he =>
      have h := h.next he
      have hk : ts.kind (last + 1) ∉ [TokenKind.leftParen, .rightParen, .eof] := by
        simp only [List.mem_cons, List.not_mem_nil, or_false, not_or]
        exact ⟨ho, hc, he⟩
      rw [Guarded.ahead_bind h.last_lt, closeFrom_of_not_mem hk]
      exact ih h

theorem parenthesis_tracks : Rule.Tracked ts (Guarded.parenthesis ts) (Rule.parenthesis ts) := by
  intro i
  unfold Guarded.parenthesis Rule.parenthesis closing
  rw [Guarded.kind_bind]
  split
  next ho =>
    have hi : ts.Covers i i := .token (by simp [ho])
    rw [Guarded.ahead_bind hi.last_lt]
    exact (closeFrom_tracks hi).bind fun close hc => Guarded.node_tracks hc
  next => exact Guarded.complain_tracks

theorem closing_tracks (i : Nat) : Tracks (ts.Covers i) (Guarded.closing ts i) (closing ts i) := by
  rw [closing_eq_parenthesis]
  exact (parenthesis_tracks i).bind fun _ hn => .ok hn

theorem Nest.Tracked.fill {gn : Guarded.Nest} {nest : Nest} (hn : nest.Tracked ts gn)
    {blame close : Nat} {e : Enclosed} {x : Expectation} :
    Tracks (fun n => ts.Covers i n.last) (Guarded.fill ts gn blame e i close x)
      (fill nest blame e i close x) := by
  unfold Guarded.fill SqlSelect.fill
  refine (hn blame e i).bind fun n hi => ?_
  rw [Guarded.ahead_bind hi.last_lt]
  split
  next => exact .ok hi
  next => exact Guarded.complain_tracks

end

end SqlSelect
