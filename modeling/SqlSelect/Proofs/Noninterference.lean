import SqlSelect.Proofs.Alike
import SqlSelect.Proofs.Outcome
import SqlSelect.Proofs.Sentence

namespace SqlSelect

/-- Two tokens of one kind that, if they are numbers, both have a value or both have none. -/
def Token.Alike (t t' : Token) : Prop :=
  t.kind = t'.kind ∧
    (t.kind = .number → (unsigned? t.text).isSome = (unsigned? t'.text).isSome)

instance (t t' : Token) : Decidable (t.Alike t') :=
  inferInstanceAs (Decidable (t.kind = t'.kind ∧
    (t.kind = .number → (unsigned? t.text).isSome = (unsigned? t'.text).isSome)))

namespace TokenList

variable {ts ts' : TokenList} {tokens tokens' : List Token}

theorem size_le_of_ofTokens (h : ofTokens tokens = .ok ts) : ts.size ≤ tokens.length + 1 := by
  obtain ⟨last, _, hlist⟩ := toList_of_getLast? h
  rw [← length_toList, hlist, List.length_append]
  split
  next => exact Nat.le_succ _
  next => exact Nat.le_refl _

theorem getElem?_of_ofTokens (h : ofTokens tokens = .ok ts) {i : Nat} (hi : i < tokens.length) :
    tokens[i]? = some (ts.token i) := by
  obtain ⟨last, _, hlist⟩ := toList_of_getLast? h
  have hsize : i < ts.size := by
    rw [← length_toList, hlist, List.length_append]
    exact Nat.lt_add_right _ hi
  rw [← getElem?_toList hsize, hlist, List.getElem?_append_left hi]

/-- Token lists that are given alike are read alike. -/
theorem alike_of_ofTokens (hl : tokens.length = tokens'.length)
    (h : ∀ (i : Nat) t t', tokens[i]? = some t → tokens'[i]? = some t' → Token.Alike t t')
    (hts : ofTokens tokens = .ok ts) (hts' : ofTokens tokens' = .ok ts') : ts.Alike ts' := by
  have hsize : ts.size = ts'.size := by
    obtain ⟨last, hlast, hlist⟩ := toList_of_getLast? hts
    obtain ⟨last', hlast', hlist'⟩ := toList_of_getLast? hts'
    rw [List.getLast?_eq_getElem?] at hlast hlast'
    have hk : last.kind = last'.kind := (h _ _ _ hlast (hl ▸ hlast')).1
    have he : last.isEof = last'.isEof := by rw [Token.isEof, Token.isEof, hk]
    rw [← length_toList, ← length_toList, hlist, hlist', List.length_append, List.length_append,
      hl, he]
    split
    next => rfl
    next => rfl
  have htoken (i : Nat) : (ts.token i).Alike (ts'.token i) := by
    by_cases hi : i < tokens.length
    · exact h i _ _ (getElem?_of_ofTokens hts hi) (getElem?_of_ofTokens hts' (hl ▸ hi))
    · have hend := size_le_of_ofTokens hts
      have hk : ts.kind i = .eof := kind_of_size_le (by omega)
      have hk' : ts'.kind i = .eof := kind_of_size_le (by omega)
      refine ⟨hk.trans hk'.symm, fun hn => ?_⟩
      cases hk.symm.trans hn
  exact ⟨hsize, fun i => (htoken i).1, fun i => (htoken i).2⟩

end TokenList

namespace Parser

/-- Two parsers find the same node, or have the same complaint about a token, each about its own
in the same place. -/
def Agree (p p' : Parser) (r r' : Except ParseError Tree) : Prop :=
  (∃ n, r = .ok ⟨p.tokens, n⟩ ∧ r' = .ok ⟨p'.tokens, n⟩) ∨
    ∃ (c : Complaint) (i : Nat), r = .error (c.toError p.options.maxDepth (p.tokens.token i)) ∧
      r' = .error (c.toError p'.options.maxDepth (p'.tokens.token i))

theorem toTree_agree (p p' : Parser) (r : Except Fault Node) :
    p.Agree p' (p.toTree r) (p'.toTree r) := by
  cases r with
  | ok n => exact .inl ⟨n, rfl, rfl⟩
  | error f => exact .inr ⟨f.complaint, f.index, rfl, rfl⟩

/-- Names, contents of strings, values of numbers and positions do not influence what is found or
where a complaint is made: only the kinds of the tokens do, and which numbers have a value. -/
theorem run_noninterference {tokens tokens' : List Token} {options : Options} {p p' : Parser}
    (hp : ofTokens tokens options = .ok p) (hp' : ofTokens tokens' options = .ok p')
    (hl : tokens.length = tokens'.length)
    (h : ∀ (i : Nat) t t', tokens[i]? = some t → tokens'[i]? = some t' → Token.Alike t t') :
    (∀ part start, p.Agree p' (p.run part start) (p'.run part start)) ∧
      (p.Agree p' p.parse p'.parse ∨
        p.parse = .error .emptyInput ∧ p'.parse = .error .emptyInput) := by
  obtain ⟨ts, hts, hp⟩ := bind_eq_ok.mp hp
  obtain ⟨ts', hts', hp'⟩ := bind_eq_ok.mp hp'
  cases hp
  cases hp'
  have ha := TokenList.alike_of_ofTokens hl h hts hts'
  refine ⟨fun part start => ?_, ?_⟩
  · unfold run
    rw [part.run_alike ha]
    exact toTree_agree _ _ _
  · unfold parse
    rw [complete_alike ha, ha.size_eq]
    split
    next => exact .inr ⟨rfl, rfl⟩
    next => exact .inl (toTree_agree _ _ _)

theorem run_noninterference_of_names :
    let tokens : List Token := [⟨.select, "SELECT", ⟨1, 1⟩⟩, ⟨.literal, "a", ⟨1, 8⟩⟩,
      ⟨.from, "FROM", ⟨1, 10⟩⟩, ⟨.literal, "t", ⟨1, 15⟩⟩, ⟨.limit, "LIMIT", ⟨1, 17⟩⟩,
      ⟨.number, "10", ⟨1, 23⟩⟩]
    let tokens' : List Token := [⟨.select, "select", ⟨1, 1⟩⟩, ⟨.literal, "name", ⟨2, 1⟩⟩,
      ⟨.from, "from", ⟨3, 1⟩⟩, ⟨.literal, "student", ⟨3, 6⟩⟩, ⟨.limit, "limit", ⟨4, 1⟩⟩,
      ⟨.number, "0xFF", ⟨4, 7⟩⟩]
    ∃ p p', ofTokens tokens {} = .ok p ∧ ofTokens tokens' {} = .ok p' ∧
      tokens.length = tokens'.length ∧
      (∀ (i : Nat) t t', tokens[i]? = some t → tokens'[i]? = some t' → Token.Alike t t') ∧
      p.parse.isOk = true ∧
      (∀ part start, p.Agree p' (p.run part start) (p'.run part start)) ∧
      (p.Agree p' p.parse p'.parse ∨
        p.parse = .error .emptyInput ∧ p'.parse = .error .emptyInput) := by
  intro tokens tokens'
  have hp : ofTokens tokens {} =
      .ok ⟨⟨tokens.toArray, ⟨.eof, "", ⟨1, 25⟩⟩, rfl, by decide⟩, {}⟩ := rfl
  have hp' : ofTokens tokens' {} =
      .ok ⟨⟨tokens'.toArray, ⟨.eof, "", ⟨4, 11⟩⟩, rfl, by decide⟩, {}⟩ := rfl
  have hzip : ∀ x ∈ tokens.zip tokens', x.1.Alike x.2 := by decide
  have h (i : Nat) (t t' : Token) (ht : tokens[i]? = some t) (ht' : tokens'[i]? = some t') :
      t.Alike t' :=
    hzip (t, t') (List.mem_of_getElem? (List.getElem?_zip_eq_some.mpr ⟨ht, ht'⟩))
  exact ⟨_, _, hp, hp', rfl, h, by decide +kernel, run_noninterference hp hp' rfl h⟩

end Parser

end SqlSelect
