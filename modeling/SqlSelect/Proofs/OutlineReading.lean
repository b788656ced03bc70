import SqlSelect.Proofs.Foreseen
import SqlSelect.Proofs.LeafText

namespace SqlSelect

/-- What a line of an outline begins with: the depth of a node, its kind and its span. -/
structure Heading where
  depth : Nat
  kind : NodeKind
  first : Nat
  last : Nat
deriving DecidableEq, Repr

/-- What comes after a mark that a text begins with. -/
def afterMark? (mark text : List Char) : Option (List Char) :=
  if mark <+: text then some (text.drop mark.length) else none

theorem afterMark?_append (mark rest : List Char) : afterMark? mark (mark ++ rest) = some rest := by
  simp [afterMark?]

namespace Heading

def chars (h : Heading) : List Char :=
  List.replicate (2 * h.depth) ' ' ++ (h.kind.name.toList ++ (" [".toList ++
    (Nat.toDigits 10 h.first ++ ("..".toList ++ (Nat.toDigits 10 h.last ++ "]".toList)))))

/-- The number that the digits at the front of a text are. -/
def number (text : List Char) : Nat := Nat.ofDigitChars 10 (text.takeWhile isDecimal) 0

/-- Reads a heading, and what comes after it. -/
def read? (text : List Char) : Option (Heading × List Char) := do
  let inner := text.dropWhile (· = ' ')
  let kind ← NodeKind.ofName? (String.ofList (frontWord inner))
  let first ← afterMark? " [".toList (afterWord inner)
  let last ← afterMark? "..".toList (first.dropWhile isDecimal)
  let after ← afterMark? "]".toList (last.dropWhile isDecimal)
  return (⟨frontWidth (· = ' ') text / 2, kind, number first, number last⟩, after)

theorem number_append (n : Nat) {rest : List Char} (hr : headIs isDecimal rest = false) :
    number (Nat.toDigits 10 n ++ rest) = n ∧
      (Nat.toDigits 10 n ++ rest).dropWhile isDecimal = rest := by
  have hd : ∀ c ∈ Nat.toDigits 10 n, isDecimal c = true :=
    fun c => Nat.isDigit_of_mem_toDigits (by omega) (by omega)
  rw [number, takeWhile_append hd hr, dropWhile_append hd hr,
    Nat.ofDigitChars_ten_toDigits]
  exact ⟨rfl, rfl⟩

/-- The name of a kind is one word. -/
theorem name_word (k : NodeKind) :
    (∀ c ∈ k.name.toList, isWordChar c = true) ∧ k.name.toList ≠ [] := by
  have hall : ∀ k ∈ NodeKind.all,
      k.name.toList.all isWordChar = true ∧ k.name.toList ≠ [] := by decide +kernel
  obtain ⟨hw, hne⟩ := hall k (by cases k <;> decide)
  exact ⟨List.all_eq_true.mp hw, hne⟩

theorem headIs_name (k : NodeKind) (rest : List Char) :
    headIs (· = ' ') (k.name.toList ++ rest) = false := by
  obtain ⟨hw, hne⟩ := name_word k
  obtain ⟨c, w, hc⟩ := List.exists_cons_of_ne_nil hne
  rw [hc] at hw ⊢
  refine decide_eq_false ?_
  rintro rfl
  have hblank := hw ' ' List.mem_cons_self
  exact absurd hblank (by decide)

/-- A heading is read as what it is, whatever comes after it. -/
theorem read?_chars (h : Heading) (rest : List Char) :
    read? (h.chars ++ rest) = some (h, rest) := by
  obtain ⟨depth, kind, first, last⟩ := h
  have hspaces : ∀ c ∈ List.replicate (2 * depth) ' ', decide (c = ' ') = true := by simp
  have hspan : headIs isWordChar (" [".toList ++ (Nat.toDigits 10 first ++ ("..".toList ++
    (Nat.toDigits 10 last ++ ("]".toList ++ rest))))) = false := rfl
  have hclosing : headIs isDecimal ("]".toList ++ rest) = false := rfl
  have hdots : headIs isDecimal ("..".toList ++ (Nat.toDigits 10 last ++ ("]".toList ++ rest))) =
    false := rfl
  obtain ⟨hfirst, hafter⟩ := number_append first hdots
  obtain ⟨hlast, hend⟩ := number_append last hclosing
  unfold read? chars
  simp only [List.append_assoc]
  rw [dropWhile_append hspaces (headIs_name kind _), frontWidth_eq hspaces (headIs_name kind _),
    frontWord_append (name_word kind).1 hspan, afterWord_append (name_word kind).1 hspan,
    String.ofList_toList, NodeKind.ofName?_name, List.length_replicate]
  simp only [Option.bind_eq_bind, Option.bind_some, afterMark?_append, hfirst, hafter, hlast, hend]
  have hdepth : 2 * depth / 2 = depth := by omega
  rw [hdepth]
  rfl

/-- Nothing in a heading is a quotation mark or a line feed. -/
theorem unmarked_chars (h : Heading) : Unmarked h.chars := by
  have hdigits (n : Nat) : Unmarked (Nat.toDigits 10 n) := unmarked_word fun c hc =>
    isWordChar_of_isDecimal (Nat.isDigit_of_mem_toDigits (by omega) (by omega) hc)
  have hspaces : Unmarked (List.replicate (2 * h.depth) ' ') := fun c hc => by
    rw [List.eq_of_mem_replicate hc]
    decide
  simp only [chars, unmarked_append]
  exact ⟨hspaces, unmarked_word (name_word h.kind).1, by decide, hdigits _, by decide, hdigits _,
    by decide⟩

end Heading

namespace Node

def heading (depth : Nat) (n : Node) : Heading := ⟨depth, n.kind, n.first, n.last⟩

/-- What the line of a node shows after the heading: the text of a leaf. -/
def caption (ts : TokenList) (n : Node) : List Char :=
  if n.children.isEmpty then ' ' :: (n.text ts).toList else []

/-- The line of a node without the line feed that ends it. -/
def line (ts : TokenList) (depth : Nat) (n : Node) : List Char :=
  (n.heading depth).chars ++ n.caption ts

theorem toList_outlineLine (ts : TokenList) (depth : Nat) (n : Node) :
    (n.outlineLine ts depth).toList = n.line ts depth ++ ['\n'] := by
  have hstring (s : String) : toString s = s := rfl
  unfold outlineLine line caption heading Heading.chars
  cases n.children.isEmpty <;> simp [hstring]

end Node

namespace Tree

def headings (t : Tree) : List Heading := t.nodes.map fun n => n.2.heading n.1

def lines (t : Tree) : List (List Char) := t.nodes.map fun n => n.2.line t.source n.1

theorem toList_outline (t : Tree) : t.outline.toList = t.lines.flatMap (· ++ ['\n']) := by
  have hlines : (fun n : Nat × Node => (n.2.outlineLine t.source n.1).toList) =
      fun n => n.2.line t.source n.1 ++ ['\n'] :=
    funext fun n => Node.toList_outlineLine t.source n.1 n.2
  rw [outline, String.toList_join, lines, List.flatMap_map, List.flatMap_map, hlines]

end Tree

section

variable {ls : List (List Char)}

theorem count_lines (ls : List (List Char)) :
    (ls.flatMap (· ++ ['\n'])).count '\n' = ls.length + ls.flatten.count '\n' := by
  induction ls with
  | nil => rfl
  | cons l ls ih =>
    simp only [List.flatMap_cons, List.flatten_cons, List.count_append, List.count_singleton_self,
      List.length_cons, ih]
    omega

theorem splitOn_lines (h : ∀ l ∈ ls, '\n' ∉ l) :
    (ls.flatMap (· ++ ['\n'])).splitOn '\n' = ls ++ [[]] := by
  induction ls with
  | nil => rfl
  | cons l ls ih =>
    obtain ⟨hl, hls⟩ := List.forall_mem_cons.mp h
    rw [List.flatMap_cons, List.append_assoc, List.singleton_append,
      List.splitOn_append_cons_self_of_not_mem hl, ih hls, List.cons_append]

theorem length_splitOn (text : List Char) :
    (text.splitOn '\n').length = text.count '\n' + 1 := by
  induction text with
  | nil => rfl
  | cons c text ih =>
    rw [List.splitOn_cons_eq_if_modifyHead, List.count_cons]
    split
    next hc => simp [ih]
    next hc => simp [ih]

/-- Where a text is split at its line feeds into the lines it is made of, none holds another. -/
theorem splitOn_lines_iff :
    (ls.flatMap (· ++ ['\n'])).splitOn '\n' = ls ++ [[]] ↔ ∀ l ∈ ls, '\n' ∉ l := by
  refine ⟨fun h l hl => ?_, splitOn_lines⟩
  have hlength := length_splitOn (ls.flatMap (· ++ ['\n']))
  rw [h, count_lines, List.length_append, List.length_singleton] at hlength
  have hnone : ls.flatten.count '\n' = 0 := by omega
  exact fun hn => List.count_eq_zero.mp hnone (List.mem_flatten_of_mem hl hn)

/-- Line feeds between quotation marks are flattened line by line. -/
theorem flattened_lines (h : ∀ l ∈ ls, Unbroken l) :
    flattened none (ls.flatMap (· ++ ['\n'])) =
      (ls.map (flattened none)).flatMap (· ++ ['\n']) := by
  induction ls with
  | nil => rfl
  | cons l ls ih =>
    obtain ⟨hl, hls⟩ := List.forall_mem_cons.mp h
    have hopen : (l ++ ['\n']).foldl openMark none = none := by
      rw [List.foldl_append, hl.closed]
      rfl
    rw [List.flatMap_cons, flattened_append, hopen, ih hls, flattened_append, hl.closed,
      List.map_cons, List.flatMap_cons]
    rfl

end

/-- Reads the heading of each line, where no line feed between quotation marks ends a line. -/
def readLines (text : List Char) : Option (List Heading) :=
  ((flattened none text).splitOn '\n').dropLast.mapM fun l => (Heading.read? l).map (·.1)

/-- Reads the headings of an outline back. What follows the first heading on its line is the text of
a leaf, so that there is no other node. -/
def readOutline (text : String) : Option (List Heading) :=
  match Heading.read? text.toList with
  | none => none
  | some (root, after) => if headIs (· = ' ') after then some [root] else readLines text.toList

theorem Node.read?_flattened_line (ts : TokenList) (depth : Nat) (n : Node) :
    (Heading.read? (flattened none (n.line ts depth))).map (·.1) = some (n.heading depth) := by
  obtain ⟨hfold, hflat⟩ := (n.heading depth).unmarked_chars.flattened_eq
  rw [line, flattened_append, hfold, hflat, Heading.read?_chars]
  rfl

namespace Tree

variable {t : Tree}

theorem nodes_eq (t : Tree) : t.nodes = (0, t.root) :: Node.walkAll 1 t.root.children := by
  rw [nodes]
  cases t.root
  rfl

/-- The outline of a tree begins with the heading of its root. -/
theorem read?_outline (t : Tree) : ∃ rest, Heading.read? t.outline.toList =
    some (t.root.heading 0, t.root.caption t.source ++ '\n' :: rest) := by
  rw [toList_outline, lines, nodes_eq, List.map_cons, List.flatMap_cons, Node.line]
  simp only [List.append_assoc, List.singleton_append]
  exact ⟨_, Heading.read?_chars _ _⟩

theorem readOutline_of_leaf (h : t.root.children = []) :
    readOutline t.outline = some t.headings := by
  obtain ⟨rest, hread⟩ := read?_outline t
  have hcaption : t.root.caption t.source = ' ' :: (t.root.text t.source).toList := by
    rw [Node.caption, h]
    rfl
  rw [readOutline, hread, hcaption, headings, nodes_eq, h]
  rfl

/-- One line is read for each node. -/
theorem readLines_outline (h : ∀ l ∈ t.lines, Unbroken l) :
    readLines t.outline.toList = some t.headings := by
  have hone : ∀ l ∈ t.lines.map (flattened none), '\n' ∉ l :=
    List.forall_mem_map.mpr fun l hl => (h l hl).oneLine
  rw [readLines, toList_outline, flattened_lines h, splitOn_lines hone, List.dropLast_concat, lines,
    List.mapM_map, List.mapM_map]
  have hread : ((fun l => (Heading.read? l).map (·.1)) ∘ flattened none) ∘
      (fun n : Nat × Node => n.2.line t.source n.1) = fun n => pure (n.2.heading n.1) :=
    funext fun n => Node.read?_flattened_line t.source n.1 n.2
  rw [hread, List.mapM_pure]
  rfl

theorem readOutline_of_unbroken (h : ∀ l ∈ t.lines, Unbroken l) :
    readOutline t.outline = some t.headings := by
  by_cases hc : t.root.children = []
  · exact readOutline_of_leaf hc
  · obtain ⟨rest, hread⟩ := read?_outline t
    have hcaption : t.root.caption t.source = [] := if_neg (by simpa using hc)
    rw [readOutline, hread, hcaption]
    exact readLines_outline h

end Tree

namespace Node

variable {ts : TokenList} {n : Node}

/-- Only the text of a leaf can break its line. -/
theorem count_line (ts : TokenList) (depth : Nat) (n : Node) :
    (n.line ts depth).count '\n' = (n.caption ts).count '\n' := by
  have hheading : '\n' ∉ (n.heading depth).chars := fun hm =>
    (n.heading depth).unmarked_chars '\n' hm List.mem_cons_self
  rw [line, List.count_append, List.count_eq_zero.mpr hheading, Nat.zero_add]

theorem count_flatten_line (ts : TokenList) (nodes : List (Nat × Node)) :
    (nodes.map fun n => n.2.line ts n.1).flatten.count '\n' =
      (nodes.flatMap fun n => n.2.caption ts).count '\n' := by
  induction nodes with
  | nil => rfl
  | cons n nodes ih =>
    rw [List.map_cons, List.flatten_cons, List.flatMap_cons, List.count_append, List.count_append,
      count_line, ih]

theorem newline_mem_caption : '\n' ∈ n.caption ts ↔
    n.children = [] ∧ '\n' ∈ (n.text ts).toList := by
  unfold caption
  cases n.children with
  | nil => simp
  | cons => simp

theorem unbroken_line (h : n.children = [] → Unbroken (n.text ts).toList) (depth : Nat) :
    Unbroken (n.line ts depth) := by
  refine (n.heading depth).unmarked_chars.unbroken.append ?_
  unfold caption
  split
  next hc =>
    have hblank : Unbroken [' '] := Unmarked.unbroken (by decide)
    exact hblank.append (h (by simpa using hc))
  next => exact Unmarked.unbroken nofun

end Node

namespace Parser

variable {text : String} {options : Options} {p : Parser} {t : Tree}

theorem readOutline_of_ofText (hp : ofText text options = .ok p)
    (ht : (∃ part start, p.run part start = .ok t) ∨ p.parse = .ok t) :
    readOutline t.outline = some t.headings := by
  obtain ⟨hsource, ⟨first, last, hroot⟩ | hnodes⟩ := laidOut_of_tree ht
  · exact Tree.readOutline_of_leaf (by rw [hroot]; rfl)
  · refine Tree.readOutline_of_unbroken (List.forall_mem_map.mpr fun m hm => ?_)
    rw [hsource]
    exact Node.unbroken_line (unbroken_text hp (hnodes m.2 (List.mem_map_of_mem hm))) m.1

/-- An outline has a line for each node, parents before children, and the line feeds that leaves
show besides; so it splits into these lines just if no leaf shows one. In any case the depth, the
kind and the span of every node can be read back, and trees with one outline have the same ones. -/
theorem outline_lines (hp : ofText text options = .ok p)
    (ht : (∃ part start, p.run part start = .ok t) ∨ p.parse = .ok t) :
    t.outline.toList.count '\n' =
        t.nodes.length + (t.nodes.flatMap fun n => n.2.caption t.source).count '\n' ∧
      (t.outline.toList.splitOn '\n' = t.lines ++ [[]] ↔
        ∀ n ∈ t.root.preorder, n.children = [] → '\n' ∉ (n.text t.source).toList) ∧
      readOutline t.outline = some t.headings ∧
      ∀ text' options' p' t', ofText text' options' = .ok p' →
        (∃ part start, p'.run part start = .ok t') ∨ p'.parse = .ok t' →
          t'.outline = t.outline → t'.headings = t.headings := by
  have hread := readOutline_of_ofText hp ht
  refine ⟨?_, ?_, hread, fun text' options' p' t' hp' ht' he => ?_⟩
  · rw [Tree.toList_outline, count_lines, Tree.lines, List.length_map, Node.count_flatten_line]
  · rw [Tree.toList_outline, splitOn_lines_iff, Tree.lines, List.forall_mem_map, Node.preorder,
      List.forall_mem_map]
    refine forall₂_congr fun m _ => ?_
    rw [← List.count_eq_zero, Node.count_line, List.count_eq_zero, Node.newline_mem_caption,
      not_and]
  · have hread' := readOutline_of_ofText hp' ht'
    rw [he, hread] at hread'
    exact (Option.some.inj hread').symm

theorem outline_lines_of_quoted_line :
    let text := "'a\n  Operand [9..9] b'"
    ∃ p t, ofText text {} = .ok p ∧ p.run .expression 0 = .ok t ∧
      readOutline t.outline = some [⟨0, .expression, 0, 0⟩, ⟨1, .operand, 0, 0⟩] ∧
      t.outline.toList.count '\n' = 2 + 1 := by
  intro text
  let front : List Token := [⟨.string, text, ⟨1, 1⟩⟩]
  let ts : TokenList := ⟨front.toArray, ⟨.eof, "", ⟨2, 20⟩⟩, rfl, by decide⟩
  have htokens : tokenize text = front ++ [ts.final] :=
    Lexer.toTokens_of_firstTokens 2 (by decide +kernel) (by decide)
  have hload : ofText text {} = .ok ⟨ts, {}⟩ := by
    rw [ofText, htokens]
    rfl
  have hrun : run ⟨ts, {}⟩ .expression 0 =
      .ok ⟨ts, ⟨.expression, 0, 0, [.leaf .operand 0 0]⟩⟩ := rfl
  obtain ⟨hcount, _, hread, _⟩ := outline_lines hload (.inl ⟨_, _, hrun⟩)
  refine ⟨_, _, hload, hrun, hread, hcount.trans ?_⟩
  decide +kernel

/-- A string of two lines takes two lines of an outline. -/
theorem outline_of_two_lines :
    let text := "'a\nb'"
    ∃ p t, ofText text {} = .ok p ∧ p.run .expression 0 = .ok t ∧ t.nodes.length = 2 ∧
      t.outline = "Expression [0..0]\n  Operand [0..0] 'a\nb'\n" ∧
      t.outline.toList.splitOn '\n' =
        ["Expression [0..0]".toList, "  Operand [0..0] 'a".toList, "b'".toList, []] ∧
      t.outline.toList.splitOn '\n' ≠ t.lines ++ [[]] := by
  intro text
  let front : List Token := [⟨.string, text, ⟨1, 1⟩⟩]
  let ts : TokenList := ⟨front.toArray, ⟨.eof, "", ⟨2, 3⟩⟩, rfl, by decide⟩
  have htokens : tokenize text = front ++ [ts.final] :=
    Lexer.toTokens_of_firstTokens 2 (by decide +kernel) (by decide)
  have hload : ofText text {} = .ok ⟨ts, {}⟩ := by
    rw [ofText, htokens]
    rfl
  have hrun : run ⟨ts, {}⟩ .expression 0 =
      .ok ⟨ts, ⟨.expression, 0, 0, [.leaf .operand 0 0]⟩⟩ := rfl
  refine ⟨_, _, hload, hrun, rfl, by decide +kernel, by decide +kernel, by decide +kernel⟩

end Parser

end SqlSelect
