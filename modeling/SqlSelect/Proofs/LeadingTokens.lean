import SqlSelect.Proofs.LeadingQuotes

namespace SqlSelect

namespace Lexer

variable {lx : Lexer}

/-- White space that comes next is passed over, one character of it first. -/
theorem skipBlanks_of_headIs (h : headIs isSpace lx.rest = true) :
    (lx.advance 1).restart.skipBlanks = lx.skipBlanks := by
  have hwidth := frontWidth_of_headIs h
  have hpos : ¬frontWidth isSpace lx.rest = 0 := by omega
  have hrest : (lx.advance 1).restart.rest = lx.rest.drop 1 := rfl
  rw [skipBlanks, skipBlanks, if_neg hpos, hrest, hwidth, ← advance_advance]
  split
  next hz => rw [hz, advance_zero]
  next => rfl

theorem exists_nextToken_rest (lx : Lexer) : ∃ n, lx.nextToken.2.rest = lx.rest.drop n := by
  have hblanks : ∃ n, lx.skipBlanks.rest = lx.rest.drop n := by
    unfold Lexer.skipBlanks
    split
    next => exact ⟨0, rfl⟩
    next => exact ⟨_, rfl⟩
  obtain ⟨m, hm⟩ := hblanks
  refine ⟨m + (scan lx.skipBlanks.rest).width, ?_⟩
  unfold nextToken follow
  rw [← List.drop_drop, ← hm]
  split
  next => rfl
  next => rfl

end Lexer

namespace Cursor.Leads

variable {text : String} {lx lx' lx'' : Lexer} {rest : List Char} {c : Char}

theorem lexParameter (hr : lx.rest = c :: rest) : Leads text lexParameter lx
    (lx.follow (.token (1 + frontWidth isWordChar rest) .parameter)) := by
  have hrest : lx.rest.drop 1 = rest := by rw [hr, List.drop_succ_cons, List.drop_zero]
  have hword := acceptWhile_more text lx 1 isWordChar
  rw [hrest] at hword
  exact (nextChar text lx).bind (hword.bind (emit text _ .parameter))

theorem lexLiteral (text : String) (lx : Lexer) : Leads text lexLiteral lx
    (lx.follow (.token (frontWidth isWordChar lx.rest) .literal)) :=
  (acceptWhile text lx isWordChar).bind (emit text _ .literal)

/-- What no sub-scanner begins with is a symbol, a flaw or the end of the text. -/
theorem lexRest (text : String) (lx : Lexer) : Leads text (lexFrom.lexRest lx.rest.head?) lx
    (lx.follow (match lx.rest with
      | [] => .token 0 .eof
      | c :: rest => readSymbol c rest)) := by
  refine (lexSymbol text lx).bind ?_
  cases hr : lx.rest with
  | nil =>
    have hnone : symbol? [] = none := by decide
    have hfollow : lx.follow (.token 0 .eof) = lx.emit .eof := by
      show (lx.advance 0).emit .eof = _
      rw [Lexer.advance_zero]
    rw [hnone, hfollow]
    exact emit text lx .eof
  | cons c rest =>
    dsimp only [List.head?_cons, readSymbol]
    cases symbol? (c :: rest) with
    | none =>
      dsimp only
      rw [Lexer.follow_flaw_zero]
      exact report fun _ => rfl
    | some m =>
      dsimp only [Lexer.take?]
      exact pure _

theorem lexFrom (text : String) (lx : Lexer) : Leads text (lexFrom lx.rest[0]? lx.rest[1]?) lx
    (lx.follow (match lx.rest with
      | [] => .token 0 .eof
      | c :: rest => readFrom c rest)) := by
  have hsymbol := lexRest text lx
  cases hr : lx.rest with
  | nil =>
    rw [hr] at hsymbol
    exact hsymbol
  | cons c rest =>
    rw [hr] at hsymbol
    have hsecond : (c :: rest)[1]?.any isAlphabetic = headIs isAlphabetic rest := by
      rw [headIs, List.head?_eq_getElem?]
      rfl
    unfold Cursor.lexFrom readFrom
    dsimp only [List.getElem?_cons_zero]
    rw [hsecond]
    split
    next => exact lexParameter hr
    next =>
    split
    next =>
      rw [← hr]
      exact lexNumber text lx
    next =>
    split
    next => exact lexString hr
    next =>
    split
    next => exact lexBacktick hr
    next =>
    unfold isWordStart
    split
    next =>
      rw [← hr]
      exact lexLiteral text lx
    next => exact hsymbol

theorem skipBlanks (text : String) (lx : Lexer) : Leads text skipBlanks lx ((), lx.skipBlanks) := by
  generalize hr : lx.rest = rest
  induction rest generalizing lx with
  | nil =>
    have hstay : lx.skipBlanks = lx := by rw [Lexer.skipBlanks, if_pos (by rw [hr]; rfl)]
    rw [hstay]
    refine loop_done ((peek text lx).bind ?_)
    rw [hr]
    exact pure (some ())
  | cons c rest ih =>
    by_cases hc : isSpace c = true
    · have hrest : (lx.advance 1).restart.rest = rest := by
        rw [Lexer.restart, Lexer.advance, hr]
        rfl
      have hmore := ih (lx.advance 1).restart hrest
      rw [Lexer.skipBlanks_of_headIs (by rw [hr]; exact hc)] at hmore
      have hfinished : (lx.advance 1).restart.finished = lx.finished := rfl
      refine loop_again ((peek text lx).bind ?_) hfinished ?_ hmore
      · have hany : ¬(!lx.rest.head?.any isSpace) = true := by simp [hr, hc]
        rw [if_neg hany]
        exact (nextChar text lx).bind ((ignore text (lx.advance 1)).bind (pure none))
      · rw [hrest, hr, byteWidth_cons]
        exact Nat.lt_add_of_pos_left c.utf8Size_pos
    · have hstay : lx.skipBlanks = lx := by
        rw [Lexer.skipBlanks, hr, frontWidth, List.takeWhile_cons_of_neg hc, if_pos List.length_nil]
      rw [hstay]
      refine loop_done ((peek text lx).bind ?_)
      rw [hr, List.head?_cons, Option.any_some, Bool.eq_false_iff.mpr hc]
      exact pure (some ())

/-- A table is tried, and if it has no match the search goes on. -/
theorem orElse {m : Option Match} {x : Move (Option Token)} {y : Move Token} {r : Token × Lexer}
    (hx : Leads text x lx (lx.take? m)) (hm : ∀ k, m = some k → lx.follow (.fixed lx.rest k) = r)
    (hy : m = none → Leads text y lx r) :
    Leads text (do
      if let some t ← x then return t
      y) lx r := by
  refine hx.bind ?_
  cases m with
  | none => exact hy rfl
  | some k =>
    rw [← hm k rfl]
    exact pure _

theorem lexToken (text : String) (lx : Lexer) :
    Leads text lexToken lx (lx.follow (scan lx.rest)) := by
  have hword (m : Match) (h : word? lx.rest = some m) :
      lx.follow (.fixed lx.rest m) = lx.follow (scan lx.rest) := by rw [scan_of_word? h]
  refine orElse (lexKeyword text lx) (fun m h => hword m ?_) fun hkeyword => ?_
  · rw [word?, h]
    rfl
  refine orElse (lexCompound text lx) (fun m h => hword m ?_) fun hcompound => ?_
  · rw [word?, hkeyword, h]
    rfl
  refine orElse (lexFunction text lx) (fun m h => hword m ?_) fun hfunction => ?_
  · rw [word?, hkeyword, hcompound, h]
    rfl
  have hnone : word? lx.rest = none := by
    rw [word?, hkeyword, hcompound, hfunction]
    rfl
  unfold scan
  rw [hnone]
  exact (Tells.peekAhead text lx 0).leads.bind
    ((Tells.peekAhead text lx 1).leads.bind (lexFrom text lx))

theorem nextToken (text : String) (lx : Lexer) : Leads text nextToken lx lx.nextToken :=
  (skipBlanks text lx).bind (lexToken text lx.skipBlanks)

/-- A move may set down whether there is an end. -/
theorem finish (text : String) (lx : Lexer) (b : Bool) :
    Leads text (modify fun cu => { cu with finished := b }) lx ((), { lx with finished := b }) := by
  intro cu done h
  exact ⟨_, done, modify_apply _ cu, h.stands.finish b, h.input_eq, h.start_eq, h.pos_eq,
    h.startPosition_eq, h.position_eq, rfl⟩

theorem next (text : String) (lx : Lexer) : Leads text next lx lx.next := by
  unfold Lexer.next
  by_cases hf : lx.finished = true
  · rw [if_pos hf]
    refine inspect (fun cu done h => ?_) (pure none)
    rw [if_pos (h.finished_eq.trans hf)]
  · have ht := nextToken text lx
    generalize lx.nextToken = r at ht ⊢
    rw [if_neg hf]
    refine inspect (x := do
      let t ← Cursor.nextToken
      modify fun cu => { cu with finished := t.kind.isTerminal }
      return some t) (fun cu done h => ?_)
      (ht.bind ((finish text r.2 r.1.kind.isTerminal).bind (pure (some r.1))))
    rw [if_neg (h.finished_eq ▸ hf)]

theorem call (text : String) (lx : Lexer) (c : Lexer.Call) :
    Leads text (call c) lx (lx.call c) := by
  cases c with
  | next => exact next text lx
  | nextToken => exact (nextToken text lx).bind (pure _)

theorem answers (text : String) (lx : Lexer) (calls : List Lexer.Call) :
    Leads text (answers calls) lx (lx.answers calls, lx.afterCalls calls) := by
  induction calls generalizing lx with
  | nil => exact pure []
  | cons c calls ih => exact (call text lx c).bind ((ih (lx.call c).2).bind (pure _))

theorem collect_done (h : Leads text Cursor.next lx (none, lx')) :
    Leads text collect lx ([], lx') := by
  intro cu done ht
  obtain ⟨cu', done', he, h'⟩ := h cu done ht
  exact ⟨cu', done', by rw [collect, he], h'⟩

theorem collect_again {t : Token} {ts : List Token}
    (h : Leads text Cursor.next lx (some t, lx'))
    (hlt : byteWidth lx'.rest + (if lx'.finished then 0 else 1) <
      byteWidth lx.rest + if lx.finished then 0 else 1)
    (hmore : Leads text collect lx' (ts, lx'')) : Leads text collect lx (t :: ts, lx'') := by
  intro cu done ht
  obtain ⟨cu', done', he, h'⟩ := h cu done ht
  obtain ⟨cu'', done'', he', h''⟩ := hmore cu' done' h'
  have hleft : cu'.left < cu.left := by rwa [h'.left_eq, ht.left_eq]
  refine ⟨cu'', done'', ?_, h''⟩
  rw [collect, he]
  dsimp only
  rw [if_pos hleft, he']
  rfl

/-- To take tokens until there are no more gives those up to the first terminal one. -/
theorem collect (text : String) (hf : lx.finished = false) :
    ∃ lx', Leads text collect lx (lx.toTokens, lx') := by
  induction lx using Lexer.toTokens.induct with
  | case1 lx hk =>
    obtain ⟨n, hrest⟩ := lx.exists_nextToken_rest
    have hnext := next text lx
    rw [Lexer.next_of_terminal hf hk] at hnext
    generalize hlast : ({ lx.nextToken.2 with finished := true } : Lexer) = last at hnext
    have hend := next text last
    rw [Lexer.next_of_finished (by rw [← hlast])] at hend
    refine ⟨last, ?_⟩
    rw [Lexer.toTokens_of_terminal hk]
    refine collect_again hnext ?_ (collect_done hend)
    subst hlast
    have hle := byteWidth_take_add_drop lx.rest n
    rw [hf, hrest, if_pos rfl, if_neg Bool.false_ne_true]
    omega
  | case2 lx hk ih =>
    obtain ⟨n, hrest⟩ := lx.exists_nextToken_rest
    have hfinished := lx.nextToken_finished
    have hnext := next text lx
    have hgoes := Bool.eq_false_iff.mpr hk
    rw [Lexer.next_of_not_terminal hf hgoes] at hnext
    obtain ⟨lx', hmore⟩ := ih (hfinished.trans hf)
    refine ⟨lx', ?_⟩
    rw [Lexer.toTokens_of_not_terminal hk]
    refine collect_again hnext ?_ hmore
    rw [hfinished, hrest]
    exact Nat.add_lt_add_right (byteWidth_drop_lt (hrest ▸ Lexer.nextToken_shortens hgoes)) _

end Cursor.Leads

namespace Cursor

theorem tracks_ofText (text : String) : (ofText text).Tracks (Lexer.ofText text) text [] :=
  ⟨Lexer.stands_ofText text, rfl, rfl, rfl, rfl, rfl, rfl⟩

/-- Whatever calls are made, a cursor over a text answers as the lexer over it does, and is where
this is afterwards. -/
theorem answers_ofText (text : String) (calls : List Lexer.Call) : ∃ cu done,
    answers calls (ofText text) = some ((Lexer.ofText text).answers calls, cu) ∧
      cu.Tracks ((Lexer.ofText text).afterCalls calls) text done :=
  Leads.answers text (Lexer.ofText text) calls _ _ (tracks_ofText text)

/-- The tokens of a text are those that its cursor gives until there are no more. -/
theorem collect_ofText (text : String) :
    ∃ cu, collect (ofText text) = some (tokenize text, cu) := by
  have hf : (Lexer.ofText text).finished = false := rfl
  obtain ⟨lx, h⟩ := Leads.collect text hf
  obtain ⟨cu, _, he, _⟩ := h _ _ (tracks_ofText text)
  exact ⟨cu, he⟩

end Cursor

end SqlSelect
