import SqlSelect.Proofs.Alike
import SqlSelect.Proofs.LetterCase
import SqlSelect.Proofs.Loading

namespace SqlSelect

theorem toLower_append (s t : String) : (s ++ t).toLower = s.toLower ++ t.toLower := by
  rw [← String.toList_inj]
  simp [toList_toLower]

theorem toLower_ofList (text : List Char) :
    (String.ofList text).toLower = String.ofList (text.map Char.toLower) := by
  rw [← String.toList_inj]
  simp [toList_toLower]

theorem toLower_toLower (s : String) : s.toLower.toLower = s.toLower := by
  rw [← String.toList_inj]
  simp [toList_toLower, toLower_idem _]

theorem Position.after_lower (p : Position) (text : List Char) :
    p.after (text.map Char.toLower) = p.after text := by
  have hfeed : CaseBlind fun c => decide (c = '\n') := caseBlind_of_capitals (by decide)
  induction text generalizing p with
  | nil => rfl
  | cons c rest ih =>
    simp only [List.map_cons, after_cons, next, decide_eq_decide.mp (hfeed c), ih]

/-- A token with its text in small letters. -/
def Token.lower (t : Token) : Token := { t with text := t.text.toLower }

/-- Messages quote what was read, and nothing else in them depends on it. -/
theorem Flaw.message_lower (f : Flaw) (read : String) (p : Position) :
    (f.message read.toLower p).toLower = (f.message read p).toLower := by
  cases f with
  | number =>
    have h (a b c : String) :
        (a ++ read.toLower ++ b ++ c).toLower = (a ++ read ++ b ++ c).toLower := by
      simp only [toLower_append, toLower_toLower]
    exact h _ _ _
  | string | backtick | character | cutShort => rfl

namespace Lexer

/-- A lexer in the same place of the text in small letters. -/
def lower (lx : Lexer) : Lexer :=
  { lx with pending := lx.pending.map Char.toLower, rest := lx.rest.map Char.toLower }

theorem advance_lower (lx : Lexer) (n : Nat) : lx.lower.advance n = (lx.advance n).lower := by
  simp only [advance, lower, ← List.map_take, ← List.map_drop, ← List.map_append,
    Position.after_lower]

theorem skipBlanks_lower (lx : Lexer) : lx.lower.skipBlanks = lx.skipBlanks.lower := by
  unfold skipBlanks
  rw [advance_lower]
  simp only [lower, frontWidth_lower isSpace_caseBlind]
  split
  next => rfl
  next => rfl

theorem follow_lower (lx : Lexer) (r : Reading) :
    (lx.lower.follow r).1.lower = (lx.follow r).1.lower ∧
      (lx.lower.follow r).2 = (lx.follow r).2.lower := by
  unfold follow
  rw [advance_lower]
  cases r.verdict with
  | ok kind =>
    refine ⟨?_, rfl⟩
    simp only [emit, lower, Token.lower, ← toLower_ofList, toLower_toLower]
  | error flaw =>
    refine ⟨?_, rfl⟩
    simp only [report, lower, Token.lower, ← toLower_ofList, Flaw.message_lower]

theorem nextToken_lower (lx : Lexer) : lx.lower.nextToken.1.lower = lx.nextToken.1.lower ∧
    lx.lower.nextToken.2 = lx.nextToken.2.lower := by
  have hscan : scan lx.skipBlanks.lower.rest = scan lx.skipBlanks.rest := scan_lower
  unfold nextToken
  rw [skipBlanks_lower, hscan]
  exact lx.skipBlanks.follow_lower _

theorem toTokens_lower (lx : Lexer) :
    lx.lower.toTokens.map Token.lower = lx.toTokens.map Token.lower := by
  have hkind (lx : Lexer) : lx.lower.nextToken.1.kind = lx.nextToken.1.kind := by
    have h := congrArg Token.kind lx.nextToken_lower.1
    exact h
  induction lx using toTokens.induct with
  | case1 lx hk =>
    rw [toTokens_of_terminal hk, toTokens_of_terminal ((hkind lx).symm ▸ hk)]
    exact congrArg (fun t => [t]) lx.nextToken_lower.1
  | case2 lx hk ih =>
    have hk' : ¬lx.lower.nextToken.1.kind.isTerminal = true := by rwa [hkind]
    rw [toTokens_of_not_terminal hk, toTokens_of_not_terminal hk', List.map_cons, List.map_cons,
      lx.nextToken_lower.1, lx.nextToken_lower.2, ih]

end Lexer

theorem tokenize_toLower (s : String) :
    (tokenize s.toLower).map Token.lower = (tokenize s).map Token.lower := by
  have h : Lexer.ofText s.toLower = (Lexer.ofText s).lower := by
    simp [Lexer.ofText, Lexer.lower, toList_toLower]
  rw [tokenize, h, Lexer.toTokens_lower]
  rfl

/-- An error with its message in small letters. -/
def ParseError.lower : ParseError → ParseError
  | .lexical message p => .lexical message.toLower p
  | .grammatical message p => .grammatical message.toLower p
  | e => e

theorem ParseError.ofErrorToken_lower (t : Token) :
    (ofErrorToken t.lower).lower = (ofErrorToken t).lower := by
  simp only [ofErrorToken, Token.lower, lower, toLower_toLower]

theorem Token.describe_lower (t : Token) : t.lower.describe.toLower = t.describe.toLower := by
  have h (a b : String) : (a ++ t.text.toLower ++ b).toLower = (a ++ t.text ++ b).toLower := by
    simp only [toLower_append, toLower_toLower]
  unfold describe isEof
  split
  next hk => rw [if_pos (show (t.kind == .eof) = true from hk)]; rfl
  next hk => rw [if_neg (show ¬(t.kind == .eof) = true from hk)]; exact h _ _

/-- Messages describe the token that was found, and nothing else in them depends on its text. -/
theorem Complaint.toError_lower (c : Complaint) (limit : Nat) (t : Token) :
    (c.toError limit t.lower).lower = (c.toError limit t).lower := by
  have h (a : String) : (a ++ t.lower.describe).toLower = (a ++ t.describe).toLower := by
    rw [toLower_append, toLower_append, t.describe_lower]
  cases c with
  | expected e => exact congrArg (ParseError.grammatical · t.position) (h _)
  | limitArgument => exact congrArg (ParseError.grammatical · t.position) (h _)
  | missingArm | unclosed | incomplete | secondSign | tooDeep => rfl

namespace TokenList

/-- Two token lists that differ in the case of letters only. -/
structure SameLetters (ts ts' : TokenList) : Prop where
  size_eq : ts.size = ts'.size
  lower_eq (i : Nat) : (ts.token i).lower = (ts'.token i).lower

variable {ts ts' : TokenList}

theorem SameLetters.kind_eq (h : ts.SameLetters ts') (i : Nat) : ts.kind i = ts'.kind i := by
  have hk := congrArg Token.kind (h.lower_eq i)
  exact hk

theorem SameLetters.value_eq (h : ts.SameLetters ts') (i : Nat) :
    unsigned? (ts.token i).text = unsigned? (ts'.token i).text := by
  rw [← unsigned?_toLower, ← unsigned?_toLower (ts'.token i).text]
  exact congrArg (fun t => unsigned? t.text) (h.lower_eq i)

theorem SameLetters.alike (h : ts.SameLetters ts') : ts.Alike ts' :=
  ⟨h.size_eq, h.kind_eq, fun i _ => congrArg Option.isSome (h.value_eq i)⟩

theorem SameLetters.limit?_eq (h : ts.SameLetters ts') (n : Node) : n.limit? ts = n.limit? ts' := by
  have hv : Node.firstValue? ts = Node.firstValue? ts' := funext fun m => h.value_eq m.first
  simp only [Node.limit?, hv]

theorem sameLetters_of_front
    (hf : ts.front.toList.map Token.lower = ts'.front.toList.map Token.lower)
    (hfinal : ts.final.lower = ts'.final.lower) : ts.SameLetters ts' := by
  have hl : ts.front.size = ts'.front.size := by simpa using congrArg List.length hf
  refine ⟨by rw [size, size, hl], fun i => ?_⟩
  have hi : ts.front[i]?.map Token.lower = ts'.front[i]?.map Token.lower := by
    simpa using congrArg (·[i]?) hf
  unfold token
  cases hx : ts.front[i]? with
  | none =>
    rw [hx] at hi
    rw [Option.map_eq_none_iff.mp hi.symm]
    exact hfinal
  | some x =>
    rw [hx] at hi
    obtain ⟨y, hy, he⟩ := Option.map_eq_some_iff.mp hi.symm
    rw [hy]
    exact he.symm

end TokenList

namespace Parser

variable {ts ts' : TokenList}

theorem toError_sameLetters (h : ts.SameLetters ts') (options : Options) (f : Fault) :
    (f.toError ts options).lower = (f.toError ts' options).lower := by
  rw [Fault.toError, Fault.toError, ← Complaint.toError_lower, h.lower_eq, Complaint.toError_lower]

/-- Parsers whose tokens differ in the case of letters only find the same tree or the same error. -/
theorem parse_sameLetters (h : ts.SameLetters ts') (options : Options) :
    (∃ n, (Parser.mk ts options).parse = .ok ⟨ts, n⟩ ∧
        (Parser.mk ts' options).parse = .ok ⟨ts', n⟩) ∨
      ∃ e e', (Parser.mk ts options).parse = .error e ∧ (Parser.mk ts' options).parse = .error e' ∧
        e.lower = e'.lower := by
  have hc := complete_alike h.alike options
  unfold parse
  rw [← h.size_eq, ← hc]
  split
  next => exact .inr ⟨_, _, rfl, rfl, rfl⟩
  next =>
    cases (Parser.mk ts options).complete with
    | ok n => exact .inl ⟨n, rfl, rfl⟩
    | error f => exact .inr ⟨_, _, rfl, rfl, toError_sameLetters h options f⟩

end Parser

/-- Texts that differ in the case of letters only have the same tokens but for that, and the same
tree, or the same error but for the case of letters in its message. -/
theorem parse_ignores_case {s t : String} (h : s.toLower = t.toLower) (options : Options) :
    (tokenize s).map Token.lower = (tokenize t).map Token.lower ∧
    ((∃ a b, parse s options = .ok a ∧ parse t options = .ok b ∧ a.root = b.root ∧
        a.root.preorder.map (·.limit? a.source) = b.root.preorder.map (·.limit? b.source)) ∨
      ∃ e e', parse s options = .error e ∧ parse t options = .error e' ∧ e.lower = e'.lower) := by
  have hts : (tokenize s).map Token.lower = (tokenize t).map Token.lower := by
    rw [← tokenize_toLower s, ← tokenize_toLower t, h]
  refine ⟨hts, ?_⟩
  obtain ⟨front, final, he, -, hs⟩ := tokenize_loads s
  obtain ⟨front', final', he', -, ht⟩ := tokenize_loads t
  rw [he, he', List.map_append, List.map_append] at hts
  obtain ⟨hfront, hlast⟩ := List.append_inj' hts rfl
  have hlast : final.lower = final'.lower := by simpa using hlast
  have hkind : final.kind = final'.kind := by
    have hk := congrArg Token.kind hlast
    exact hk
  rcases hs with ⟨hk, hs⟩ | ⟨hk, ts, hf, hl, hs⟩
  · rcases ht with ⟨-, ht⟩ | ⟨hk', -⟩
    · refine .inr ⟨_, _, hs options, ht options, ?_⟩
      rw [← ParseError.ofErrorToken_lower, hlast, ParseError.ofErrorToken_lower]
    · cases hk.symm.trans (hkind.trans hk')
  · rcases ht with ⟨hk', -⟩ | ⟨-, ts', hf', hl', ht⟩
    · cases hk.symm.trans (hkind.trans hk')
    · have hsame : ts.SameLetters ts' := by
        refine TokenList.sameLetters_of_front ?_ ?_
        · simpa [hf, hf'] using hfront
        · rw [hl, hl', hlast]
      rw [hs, ht]
      rcases Parser.parse_sameLetters hsame options with ⟨n, ha, hb⟩ | he
      · refine .inl ⟨_, _, ha, hb, rfl, ?_⟩
        exact List.map_congr_left fun m _ => hsame.limit?_eq m
      · exact .inr he

theorem parse_ignores_case_of_limit :
    let s := "select A from t LIMIT 0X1f"
    let t := "SELECT a FROM T limit 0x1F"
    s.toLower = t.toLower ∧
    (tokenize s).map Token.lower = (tokenize t).map Token.lower ∧
    ∃ a b, parse s {} = .ok a ∧ parse t {} = .ok b ∧ a.root = b.root ∧
      a.root.preorder.map (·.limit? a.source) = b.root.preorder.map (·.limit? b.source) ∧
      a.root.preorder.filterMap (·.limit? a.source) = [⟨31, 0⟩] := by
  intro s t
  have h : s.toLower = t.toLower := by
    rw [← String.toList_inj, toList_toLower, toList_toLower]
    decide
  have hvalues : (parse s {}).toOption.map
      (fun a => a.root.preorder.filterMap (·.limit? a.source)) = some [⟨31, 0⟩] := by
    decide +kernel
  obtain ⟨htokens, ⟨a, b, ha, hb, hroot, hlimits⟩ | ⟨e, e', he, _⟩⟩ := parse_ignores_case h {}
  · rw [ha] at hvalues
    exact ⟨h, htokens, a, b, ha, hb, hroot, hlimits, Option.some.inj hvalues⟩
  · rw [he] at hvalues
    cases hvalues

end SqlSelect
