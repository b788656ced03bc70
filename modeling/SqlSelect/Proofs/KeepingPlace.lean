import SqlSelect.Proofs.LeadingTokens

namespace SqlSelect

/-- A place in a text, by how many bytes come before it and by the line feeds among them. -/
def Placed (text : String) (i : Nat) (p : Position) : Prop :=
  ∃ front, slice? text 0 i = some front ∧ p = .ofFront front.toList

/-- A token and the bytes that it is cut out of a text from and up to. -/
structure Cut where
  first : Nat
  last : Nat
  token : Token

/-- The text of the token stands there, and its place is told. -/
structure Cut.Of (u : Cut) (text : String) : Prop where
  slice_eq : slice? text u.first u.last = some u.token.text
  placed : Placed text u.first u.token.position

/-- The tokens among some answers, without those that report an error. -/
def tokensOf (answers : List (Option Token)) : List Token :=
  (answers.filterMap id).filter (!·.isError)

namespace Cursor

/-- A cursor knows where what is pending starts and where it reads on. -/
structure Sound (cu : Cursor) (text : String) : Prop where
  input_eq : cu.input = text
  start_le : cu.start ≤ cu.pos
  start_placed : Placed text cu.start cu.startPosition
  pos_placed : Placed text cu.pos cu.position

/-- Before a token a cursor stays where it is, or it gives up what is pending and goes past some
white space. -/
def Passes (cu here : Cursor) : Prop :=
  here.start = cu.start ∧ here.pos = cu.pos ∨
    here.start = here.pos ∧ ∃ blanks, slice? cu.input cu.pos here.pos = some blanks ∧
      blanks ≠ "" ∧ ∀ c ∈ blanks.toList, isSpace c = true

/-- What it is to read a token. One that reports no error is all that is pending then, and nothing
stays pending; an error leaves the place where that starts. -/
def Reads (text : String) (cu : Cursor) (t : Token) (cu' : Cursor) : Prop :=
  ∃ here, skipBlanks cu = some ((), here) ∧ cu.Passes here ∧ here.Sound text ∧
    t.position = here.startPosition ∧
    (t.isError = false ∧ slice? text here.start cu'.pos = some t.text ∧ cu'.start = cu'.pos ∨
      t.isError = true ∧ cu'.start = here.start)

variable {text : String} {cu cu' here : Cursor} {lx : Lexer} {done : List Char}

namespace Tracks

theorem start_of_stands (h : cu.Tracks lx text done) {front : List Char}
    (hs : lx.Stands text.toList front) : cu.start = byteWidth front := by
  rw [h.start_eq, h.stands.done_eq hs]

theorem placed {front rest : List Char} {p : Position} (ht : text.toList = front ++ rest)
    (hp : p = .ofFront front) : Placed text (byteWidth front) p := by
  have hslice : slice? text (byteWidth []) (byteWidth ([] ++ front)) = some (String.ofList front) :=
    slice?_of_toList ht
  exact ⟨String.ofList front, hslice, by rw [String.toList_ofList, hp]⟩

theorem sound (h : cu.Tracks lx text done) : cu.Sound text := by
  have ht := h.stands.text_eq
  refine ⟨h.input_eq, ?_, ?_, ?_⟩
  · rw [h.start_eq, h.pos_eq, byteWidth_append]
    exact Nat.le_add_right _ _
  · rw [h.start_eq, h.startPosition_eq]
    exact placed ht h.stands.start_eq
  · rw [h.pos_eq, h.position_eq]
    exact placed (by rw [List.append_assoc]; exact ht) h.stands.position_eq

theorem exists_passes (h : cu.Tracks lx text done) : ∃ here done',
    Cursor.skipBlanks cu = some ((), here) ∧ here.Tracks lx.skipBlanks text done' ∧
      cu.Passes here := by
  obtain ⟨here, done', he, h'⟩ := Leads.skipBlanks text lx cu done h
  refine ⟨here, done', he, h', ?_⟩
  rcases lx.skipBlanks_cases with hstay | ⟨n, hskip, hne, hspace⟩
  · rw [hstay] at h'
    left
    rw [h'.start_eq, h.start_eq, h'.pos_eq, h.pos_eq, h'.stands.done_eq h.stands]
    exact ⟨rfl, rfl⟩
  · right
    rw [hskip] at h'
    obtain rfl := h'.stands.done_eq (h.stands.advance n).restart
    have htext : text.toList = (done ++ lx.pending) ++ (lx.rest.take n ++ lx.rest.drop n) := by
      rw [List.take_append_drop, List.append_assoc]
      exact h.stands.text_eq
    have hpos : here.pos = byteWidth ((done ++ lx.pending) ++ lx.rest.take n) := by
      rw [h'.pos_eq]
      simp [Lexer.restart, Lexer.advance]
    refine ⟨?_, String.ofList (lx.rest.take n), ?_, ?_, by rwa [String.toList_ofList]⟩
    · simp [h'.start_eq, h'.pos_eq, Lexer.restart]
    · rw [h.input_eq, h.pos_eq, hpos]
      exact slice?_of_toList htext
    · simpa using hne

theorem reads (h : cu.Tracks lx text done) {c : Lexer.Call} {t : Token}
    (ha : (lx.call c).1 = some t) {done' : List Char}
    (h' : cu'.Tracks (lx.call c).2 text done') : Reads text cu t cu' := by
  obtain ⟨here, front, he, hhere, hpass⟩ := h.exists_passes
  obtain ⟨hposition, hend⟩ := hhere.stands.call ha
  refine ⟨here, he, hpass, hhere.sound, hposition.trans hhere.startPosition_eq.symm, ?_⟩
  rcases hend with ⟨ht, hpending, hs⟩ | ⟨ht, hs⟩
  · have hpos : cu'.pos = byteWidth (front ++ t.text.toList) := by
      rw [h'.pos_eq, h'.stands.done_eq hs, hpending, List.append_nil]
    refine .inl ⟨ht, ?_, ?_⟩
    · have htext := hs.text_eq
      rw [hpending, List.nil_append, List.append_assoc] at htext
      rw [hhere.start_eq, hpos, slice?_of_toList htext, String.ofList_toList]
    · rw [hpos, h'.start_of_stands hs]
  · exact .inr ⟨ht, by rw [h'.start_of_stands hs, hhere.start_eq]⟩

theorem next_of_finished (h : cu.Tracks lx text done) (hf : lx.finished = true) :
    Cursor.next cu = some (none, cu) := by
  simp [Cursor.next, h.finished_eq.trans hf]

/-- Whatever is called, there is an answer: nothing where the lexer is finished, and otherwise a
token that is read. -/
theorem exists_answer (h : cu.Tracks lx text done) (c : Lexer.Call) : ∃ answer cu' done',
    Cursor.call c cu = some (answer, cu') ∧ cu'.Tracks (lx.call c).2 text done' ∧
      (answer = none ∧ c = .next ∧ cu.finished = true ∧ cu' = cu ∨
        ∃ t, answer = some t ∧ Reads text cu t cu') := by
  rcases lx.call_cases c with ⟨rfl, hf, he⟩ | ⟨b, he⟩
  · refine ⟨none, cu, done, h.next_of_finished hf, by rwa [he], .inl ?_⟩
    exact ⟨rfl, rfl, h.finished_eq.trans hf, rfl⟩
  · obtain ⟨cu', done', hc, h'⟩ := Leads.call text lx c cu done h
    have ha : (lx.call c).1 = some lx.nextToken.1 := by rw [he]
    refine ⟨some lx.nextToken.1, cu', done', ?_, h', .inr ⟨_, rfl, h.reads ha h'⟩⟩
    rw [hc, ha]

end Tracks

theorem Passes.start_le (h : cu.Passes here) (hs : cu.Sound text) : cu.start ≤ here.start := by
  rcases h with ⟨hstart, _⟩ | ⟨hstart, blanks, hslice, _⟩
  · exact Nat.le_of_eq hstart.symm
  · rw [hstart]
    exact Nat.le_trans hs.start_le (le_of_slice? hslice)

namespace Reads

variable {t : Token}

/-- Reading a token leads forward. -/
theorem start_le (h : Reads text cu t cu') (hs : cu.Sound text) : cu.start ≤ cu'.start := by
  obtain ⟨here, _, hpass, _, _, ⟨_, hslice, hend⟩ | ⟨_, hend⟩⟩ := h
  · rw [hend]
    exact Nat.le_trans (hpass.start_le hs) (le_of_slice? hslice)
  · rw [hend]
    exact hpass.start_le hs

/-- A token that reports no error is cut out of the text after what was given before. -/
theorem exists_cut (h : Reads text cu t cu') (hs : cu.Sound text) (ht : t.isError = false) :
    ∃ u : Cut, u.token = t ∧ u.Of text ∧ cu.start ≤ u.first ∧ u.last = cu'.start := by
  obtain ⟨here, _, hpass, hhere, hposition, ⟨_, hslice, hend⟩ | ⟨he, _⟩⟩ := h
  · refine ⟨⟨here.start, cu'.pos, t⟩, rfl, ⟨hslice, ?_⟩, hpass.start_le hs, hend.symm⟩
    rw [hposition]
    exact hhere.start_placed
  · cases ht.symm.trans he

end Reads

/-- The tokens that calls give are cut out of the text one after another. -/
theorem Tracks.exists_cuts (h : cu.Tracks lx text done) (calls : List Lexer.Call) :
    ∃ given cu' done', Cursor.answers calls cu = some (given, cu') ∧
      cu'.Tracks (lx.afterCalls calls) text done' ∧ cu.start ≤ cu'.start ∧
      ∃ cuts : List Cut, tokensOf given = cuts.map Cut.token ∧
        (∀ u ∈ cuts, u.Of text ∧ cu.start ≤ u.first ∧ u.last ≤ cu'.start) ∧
        cuts.Pairwise fun u u' => u.last ≤ u'.first := by
  induction calls generalizing cu lx done with
  | nil =>
    exact ⟨[], cu, done, rfl, h, Nat.le_refl _, [], rfl, List.forall_mem_nil _, List.Pairwise.nil⟩
  | cons c calls ih =>
    obtain ⟨answer, mid, front, hc, hmid, hanswer⟩ := h.exists_answer c
    obtain ⟨given, cu', done', he, h', hle, cuts, htokens, hcuts, hpairs⟩ := ih hmid
    have hrun : Cursor.answers (c :: calls) cu = some (answer :: given, cu') := by
      simp [Cursor.answers, hc, he]
    refine ⟨answer :: given, cu', done', hrun, h', ?_⟩
    rcases hanswer with ⟨rfl, _, _, rfl⟩ | ⟨t, rfl, hr⟩
    · exact ⟨hle, cuts, htokens, hcuts, hpairs⟩
    have hmidle := hr.start_le h.sound
    refine ⟨Nat.le_trans hmidle hle, ?_⟩
    cases ht : t.isError with
    | true =>
      refine ⟨cuts, by simpa [tokensOf, ht] using htokens, fun u hu => ?_, hpairs⟩
      obtain ⟨hof, hfirst, hlast⟩ := hcuts u hu
      exact ⟨hof, Nat.le_trans hmidle hfirst, hlast⟩
    | false =>
      obtain ⟨u, rfl, hof, hfirst, hlast⟩ := hr.exists_cut h.sound ht
      refine ⟨u :: cuts, by simpa [tokensOf, ht] using htokens, ?_, ?_⟩
      · refine List.forall_mem_cons.mpr ⟨⟨hof, hfirst, hlast ▸ hle⟩, fun v hv => ?_⟩
        obtain ⟨hof, hfirst, hlast⟩ := hcuts v hv
        exact ⟨hof, Nat.le_trans hmidle hfirst, hlast⟩
      · exact List.pairwise_cons.mpr ⟨fun v hv => hlast ▸ (hcuts v hv).2.1, hpairs⟩

/-- Whatever calls are made, each has an answer, and the cursor knows where what is pending starts
and where it reads on. The tokens given are cut out of the text one after another, each from where
what was pending started, at that place; an error leaves this where it was. The operation that stops
has nothing more to answer after a terminal token of its own. -/
theorem answers_keep_place (text : String) (calls : List Lexer.Call) :
    ∃ given cu, answers calls (ofText text) = some (given, cu) ∧ cu.Sound text ∧
      (∃ cuts : List Cut, tokensOf given = cuts.map Cut.token ∧
        (∀ u ∈ cuts, u.Of text ∧ u.last ≤ cu.start) ∧
        cuts.Pairwise fun u u' => u.last ≤ u'.first) ∧
      (∀ c, ∃ answer cu', call c cu = some (answer, cu') ∧ cu'.Sound text ∧
        (answer = none ∧ c = .next ∧ cu.finished = true ∧ cu' = cu ∨
          ∃ t, answer = some t ∧ Reads text cu t cu')) ∧
      ∀ t cu', next cu = some (some t, cu') → t.kind.isTerminal = true → ∀ later,
        ∃ given' cu'', answers later cu' = some (given', cu'') ∧ next cu'' = some (none, cu'') := by
  obtain ⟨given, cu, done, he, h, _, cuts, htokens, hcuts, hpairs⟩ :=
    (tracks_ofText text).exists_cuts calls
  refine ⟨given, cu, he, h.sound, ⟨cuts, htokens, fun u hu => ?_, hpairs⟩, fun c => ?_,
    fun t cu' ha hk later => ?_⟩
  · obtain ⟨hof, _, hlast⟩ := hcuts u hu
    exact ⟨hof, hlast⟩
  · obtain ⟨answer, cu', _, hc, h', hanswer⟩ := h.exists_answer c
    exact ⟨answer, cu', hc, h'.sound, hanswer⟩
  · obtain ⟨cu₁, _, hnext, h'⟩ := Leads.next text _ cu done h
    obtain ⟨hanswer, rfl⟩ := Prod.mk.inj (Option.some.inj (hnext.symm.trans ha))
    obtain ⟨given', cu'', _, hrun, h'', _⟩ := h'.exists_cuts later
    have hfinished := Lexer.finished_of_terminal hanswer hk
    exact ⟨given', cu'', hrun, h''.next_of_finished (Lexer.finished_afterCalls hfinished later)⟩

example : answers [.next, .nextToken, .next] (ofText "1é b") = some
    ([some ⟨.error, "malformed number literal '1é' at line 1, column 1", ⟨1, 1⟩⟩,
      some ⟨.literal, "b", ⟨1, 4⟩⟩, none], ⟨"1é b", 5, 5, 0, 1, 5, 4, 1, 5, true⟩) := by
  decide +kernel

end Cursor

end SqlSelect
