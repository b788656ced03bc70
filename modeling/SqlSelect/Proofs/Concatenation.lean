import SqlSelect.Proofs.CaseInsensitive
import SqlSelect.Proofs.Spacing

namespace SqlSelect

/-- The place with the same column, some lines further down. -/
def Position.down (k : Nat) (p : Position) : Position := ⟨p.line + k, p.column⟩

def Token.down (k : Nat) (t : Token) : Token := { t with position := t.position.down k }

/-- The last token before the end is no name that is spelt like the first word of a keyword of two. -/
def EndsApart (ts : List Token) : Prop :=
  ∀ t ∈ ts.dropLast.getLast?, t.kind = .literal → t.text.toLower ∉ compounds.map (·.first)

theorem Position.after_down (k : Nat) (p : Position) (text : List Char) :
    (p.down k).after text = (p.after text).down k := by
  induction text generalizing p with
  | nil => rfl
  | cons c text ih =>
    have hnext : (p.down k).next c = (p.next c).down k := by
      unfold next
      split
      next => exact congrArg (Position.mk · 1) (Nat.add_right_comm ..)
      next => rfl
    rw [after_cons, hnext, ih, after_cons]

section

variable {w rest b : List Char}

/-- A word that begins no keyword of two makes none with anything. -/
theorem compound?_of_not_first (hw : ∀ d ∈ w, isWordChar d = true)
    (hend : headIs isWordChar rest = false) (hn : lowered w ∉ compounds.map (·.first)) :
    compound? (w ++ rest) = none := by
  rw [compound?_eq]
  refine ite_eq_right_iff.mpr fun _ => Option.map_eq_none_iff.mpr ?_
  refine Option.eq_none_iff_forall_not_mem.mpr fun k hk => ?_
  obtain ⟨x, hx, hfirst, _⟩ := compoundOf?_eq_some hk
  rw [spelling, frontWord_append hw hend] at hfirst
  exact hn (hfirst ▸ List.mem_map_of_mem hx)

theorem loosens_line : Loosens rest (rest ++ '\n' :: b) := by
  have hl : Loosens [] ('\n' :: b) := fun c hc => .inl (Option.some.inj hc ▸ rfl)
  have h : Loosens (rest ++ []) (rest ++ '\n' :: b) := hl.append_left
  rwa [List.append_nil] at h

theorem line_loosens : Loosens (rest ++ '\n' :: b) rest := by
  have hl : Loosens ('\n' :: b) [] := nofun
  have h : Loosens (rest ++ '\n' :: b) (rest ++ []) := hl.append_left
  rwa [List.append_nil] at h

end

theorem EndsApart.tail {t : Token} {ts : List Token} (h : EndsApart (t :: ts)) : EndsApart ts := by
  intro u hu
  refine h u ?_
  have hne : ts.dropLast ≠ [] := fun hn => by
    rw [hn] at hu
    cases hu
  have hts : ts ≠ [] := fun hn => hne (by rw [hn]; rfl)
  rw [List.dropLast_cons_of_ne_nil hts, List.getLast?_cons, hu]
  rfl

namespace Reads

variable {p : Position} {a b text rest w gap : List Char} {ts us : List Token}

/-- A text read further down has its tokens further down. -/
theorem down (k : Nat) (h : Reads p text ts) : Reads (p.down k) text (ts.map (Token.down k)) := by
  induction h with
  | @done p gap hg =>
    have hd : Reads (p.down k) gap [⟨.eof, "", (p.down k).after gap⟩] := .done hg
    rwa [Position.after_down] at hd
  | @step p gap w rest kind ts hg hne hk hs _ ih =>
    rw [← Position.after_down, ← Position.after_down] at ih
    have hd := Reads.step hg hne hk hs ih
    rwa [Position.after_down] at hd

theorem of_blank (hg : ∀ c ∈ gap, isSpace c = true) (h : Reads (p.after gap) text ts) :
    Reads p (gap ++ text) ts := by
  cases h with
  | done hg' =>
    rw [← Position.after_append]
    exact .done (List.forall_mem_append.mpr ⟨hg, hg'⟩)
  | @step _ gap' w rest k ts hg' hne hk hs h =>
    have hp : (p.after gap).after gap' = p.after (gap ++ gap') := (Position.after_append ..).symm
    rw [hp] at h ⊢
    rw [← List.append_assoc]
    exact .step (List.forall_mem_append.mpr ⟨hg, hg'⟩) hne hk hs h

/-- A word that makes no keyword with what comes next makes none if a line is put at the end, unless
nothing comes next. -/
theorem compound?_line (h : Reads p rest ts) (hw : ∀ d ∈ w, isWordChar d = true)
    (hend : headIs isWordChar rest = false) (hn : compound? (w ++ rest) = none)
    (hlast : ts.dropLast = [] → lowered w ∉ compounds.map (·.first)) :
    compound? (w ++ (rest ++ '\n' :: b)) = none := by
  have hend' : headIs isWordChar (rest ++ '\n' :: b) = false :=
    loosens_line.headIs inked_isWordChar hend
  cases h with
  | done => exact compound?_of_not_first hw hend' (hlast rfl)
  | @step _ gap w₁ rest k ts hg hne hk hs h =>
    rw [List.append_assoc, List.append_assoc] at hend' ⊢
    by_cases hgap : gap = []
    · refine compound?_of_not_space hw hend' ?_
      have hhead := headIs_isSpace_of_scan hne hs
      rw [headIs_append hne] at hhead
      rw [hgap, List.nil_append, headIs_append hne]
      exact hhead
    · exact compound?_respaced_gap hw hg hgap hg hgap hne hs loosens_line line_loosens hn

/-- With a line put at its end, a text has its own tokens and then those of the line. -/
theorem append_line (h : Reads p a ts) (hb : Reads ((p.after a).next '\n') b us)
    (hc : EndsApart ts) : Reads p (a ++ '\n' :: b) (ts.dropLast ++ us) := by
  induction h with
  | @done p gap hg =>
    have hgap : ∀ c ∈ gap ++ ['\n'], isSpace c = true :=
      List.forall_mem_append.mpr ⟨hg, List.forall_mem_singleton.mpr rfl⟩
    have hp : p.after (gap ++ ['\n']) = (p.after gap).next '\n' := Position.after_append ..
    rw [← hp] at hb
    have hline := hb.of_blank hgap
    rwa [List.append_assoc] at hline
  | @step p gap w rest k ts hg hne hk hs h ih =>
    rw [Position.after_append, Position.after_append] at hb
    have hline := ih hb hc.tail
    rw [List.dropLast_cons_of_ne_nil h.tokens_ne_nil, List.append_assoc, List.append_assoc,
      List.cons_append]
    refine .step hg hne hk (scan_loosened loosens_line line_loosens hne ?_ hs) hline
    -- A name with a token after it has met its second word or never will; the last name must be no
    -- first word, as the line could bring the second.
    refine fun hk hw hend hn => h.compound?_line hw hend hn fun hnil => ?_
    have hfirst := hc ⟨k, String.ofList w, p.after gap⟩ (by
      rw [List.dropLast_cons_of_ne_nil h.tokens_ne_nil, hnil]
      rfl) hk
    rwa [toLower_ofList] at hfirst

end Reads

/-- Two texts on lines of their own have the tokens of the one and then, further down, those of the
other, unless the one ends in a name that is spelt like the first word of a keyword of two. -/
theorem tokenize_append_line {a b : String} (ha : ∀ t ∈ tokenize a, t.kind ≠ .error)
    (hb : ∀ t ∈ tokenize b, t.kind ≠ .error) (hlast : EndsApart (tokenize a)) :
    tokenize (a ++ "\n" ++ b) = (tokenize a).dropLast ++
      (tokenize b).map (Token.down (1 + a.toList.count '\n')) := by
  have hfirst := reads_tokenize ha
  have hp : Position.origin.down (1 + a.toList.count '\n') =
      (Position.origin.after a.toList).next '\n' := by
    rw [Position.after_origin]
    exact congrArg (Position.mk · 1) (Nat.add_comm ..)
  have hdown := (reads_tokenize hb).down (1 + a.toList.count '\n')
  rw [hp] at hdown
  refine tokenize_of_reads ?_
  have hsplit : (a ++ "\n" ++ b).toList = a.toList ++ '\n' :: b.toList := by simp
  rw [hsplit]
  exact hfirst.append_line hdown hlast

theorem tokenize_append_line_of_joins :
    let a := "a left\n join"
    let b := "b -- join"
    (∀ t ∈ tokenize a, t.kind ≠ .error) ∧ (∀ t ∈ tokenize b, t.kind ≠ .error) ∧
      EndsApart (tokenize a) ∧ tokenize (a ++ "\n" ++ b) =
        [⟨.literal, "a", ⟨1, 1⟩⟩, ⟨.leftJoin, "left\n join", ⟨1, 3⟩⟩, ⟨.literal, "b", ⟨3, 1⟩⟩,
          ⟨.minus, "-", ⟨3, 3⟩⟩, ⟨.minus, "-", ⟨3, 4⟩⟩, ⟨.join, "join", ⟨3, 6⟩⟩,
          ⟨.eof, "", ⟨3, 10⟩⟩] := by
  intro a b
  have hfirst : tokenize a = [⟨.literal, "a", ⟨1, 1⟩⟩, ⟨.leftJoin, "left\n join", ⟨1, 3⟩⟩,
      ⟨.eof, "", ⟨2, 6⟩⟩] := Lexer.toTokens_of_firstTokens 3 (by decide +kernel) (by decide)
  have hsecond : tokenize b = [⟨.literal, "b", ⟨1, 1⟩⟩, ⟨.minus, "-", ⟨1, 3⟩⟩,
      ⟨.minus, "-", ⟨1, 4⟩⟩, ⟨.join, "join", ⟨1, 6⟩⟩, ⟨.eof, "", ⟨1, 10⟩⟩] :=
    Lexer.toTokens_of_firstTokens 5 (by decide +kernel) (by decide)
  have ha : ∀ t ∈ tokenize a, t.kind ≠ .error := by
    rw [hfirst]
    decide
  have hb : ∀ t ∈ tokenize b, t.kind ≠ .error := by
    rw [hsecond]
    decide
  have hlast : EndsApart (tokenize a) := by
    unfold EndsApart
    rw [hfirst]
    decide
  have hlines : a.toList.count '\n' = 1 := by decide
  refine ⟨ha, hb, hlast, ?_⟩
  rw [tokenize_append_line ha hb hlast, hfirst, hsecond, hlines]
  rfl

end SqlSelect
