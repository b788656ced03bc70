import SqlSelect.Lexer
import SqlSelect.Text.Slice

namespace SqlSelect

/-- A lexer that finds its way by bytes. It goes forward a character at a time, and back over the
character it read last; what is pending goes from `start` to `pos`. -/
structure Cursor where
  input : String
  start : Nat
  pos : Nat
  /-- How many bytes to go back, zero where there is no way back. -/
  width : Nat
  line : Nat
  column : Nat
  /-- The column to go back to. -/
  lastColumn : Nat
  startLine : Nat
  startColumn : Nat
  finished : Bool
deriving DecidableEq, Repr

namespace Cursor

def ofText (text : String) : Cursor := ⟨text, 0, 0, 0, 1, 1, 1, 1, 1, false⟩

/-- What a cursor does. There is no result if a place within a character is read from, if a number
would get below zero, or if a loop does not come nearer to its end. -/
abbrev Move := StateT Cursor Option

/-- What a cursor has before it: the bytes that are left, and the end if it has not been told. -/
def left (cu : Cursor) : Nat :=
  cu.input.utf8ByteSize - cu.pos + if cu.finished then 0 else 1

/-- Takes turns until one has a result. -/
def loop {α : Type} (turn : Move (Option α)) (cu : Cursor) : Option (α × Cursor) :=
  match turn cu with
  | none => none
  | some (some a, cu') => some (a, cu')
  | some (none, cu') => if cu'.left < cu.left then loop turn cu' else none
termination_by cu.left

/-- The characters from where to read on. -/
def ahead : Move (List Char) := do
  let cu ← get
  let text ← slice? cu.input cu.pos cu.input.utf8ByteSize
  return text.toList

def stepOver (c : Char) (cu : Cursor) : Cursor :=
  { cu with
    pos := cu.pos + c.utf8Size
    width := c.utf8Size
    line := if c = '\n' then cu.line + 1 else cu.line
    column := if c = '\n' then 1 else cu.column + 1
    lastColumn := cu.column }

def nextChar : Move (Option Char) := do
  match ← ahead with
  | [] =>
    modify fun cu => { cu with width := 0 }
    return none
  | c :: _ =>
    modify (stepOver c)
    return some c

/-- A difference that must not be negative. -/
def less? (m n : Nat) : Option Nat := if n ≤ m then some (m - n) else none

/-- Goes back over the character read last, which is possible once. -/
def backup : Move Unit := do
  let cu ← get
  if cu.width = 0 then return ()
  let pos ← less? cu.pos cu.width
  let text ← slice? cu.input pos cu.input.utf8ByteSize
  let line ← (if text.toList.head? = some '\n' then less? cu.line 1 else some cu.line : Option Nat)
  set { cu with pos := pos, width := 0, line := line, column := cu.lastColumn }

def peek : Move (Option Char) := do
  let c ← nextChar
  backup
  return c

/-- The character at a distance, where that of the next one is 1. -/
def peekAhead (distance : Nat) : Move (Option Char) := do
  let text ← ahead
  return if distance = 0 then none else text[distance - 1]?

/-- Goes forward as many characters as asked for, if there are as many. -/
def forward : Nat → Move Bool
  | 0 => return true
  | n + 1 => do
    match ← nextChar with
    | none => return false
    | some _ => forward n

/-- The same, but for staying where it was if there are not as many. -/
def fastForward (n : Nat) : Move Bool := do
  let saved ← get
  if ← forward n then return true
  modify fun cu =>
    { cu with
      pos := saved.pos
      width := saved.width
      line := saved.line
      column := saved.column
      lastColumn := saved.lastColumn }
  return false

/-- Takes the next character if it satisfies `p`. -/
def accept (p : Char → Bool) : Move Bool := do
  if (← nextChar).any p then return true
  backup
  return false

/-- Takes characters for as long as they satisfy `p`. -/
def acceptWhile (p : Char → Bool) : Move Unit := loop do
  return if ← accept p then none else some ()

/-- Whether the next bytes are those of a word, in whatever ASCII case. -/
def matchPrefix (word : String) : Move Bool := do
  let cu ← get
  return (slice? cu.input cu.pos (cu.pos + word.utf8ByteSize)).any (sameBytes · word)

/-- Gives up what is pending. -/
def ignore : Move Unit := modify fun cu =>
  { cu with start := cu.pos, startLine := cu.line, startColumn := cu.column }

def pending : Move String := do
  let cu ← get
  slice? cu.input cu.start cu.pos

def startPosition (cu : Cursor) : Position := ⟨cu.startLine, cu.startColumn⟩

def position (cu : Cursor) : Position := ⟨cu.line, cu.column⟩

/-- Takes what is pending as a token. -/
def emit (kind : TokenKind) : Move Token := do
  let cu ← get
  let text ← pending
  ignore
  return ⟨kind, text, cu.startPosition⟩

/-- Reports a flaw of what is pending, some of which the message may show. -/
def report (flaw : Flaw) (shown : String) : Move Token := do
  let cu ← get
  return ⟨.error, flaw.message shown cu.startPosition, cu.startPosition⟩

end Cursor

end SqlSelect
