import SqlSelect.Lexer.Advance
import SqlSelect.Token

namespace SqlSelect

/-- A lexer between two tokens. What is pending has been read and belongs to no token yet: after
a token there is none, after an error it is what the error was about. -/
structure Lexer where
  pending : List Char
  rest : List Char
  start : Position
  position : Position
  finished : Bool
deriving DecidableEq, Repr

namespace Lexer

def ofText (text : String) : Lexer := ⟨[], text.toList, .origin, .origin, false⟩

/-- Reads `n` characters more. -/
def advance (lx : Lexer) (n : Nat) : Lexer :=
  { lx with
    pending := lx.pending ++ lx.rest.take n
    rest := lx.rest.drop n
    position := lx.position.after (lx.rest.take n) }

/-- Gives up what is pending, so that the next token starts here. -/
def restart (lx : Lexer) : Lexer := { lx with pending := [], start := lx.position }

/-- White space belongs to no token, and what is pending before it never will. -/
def skipBlanks (lx : Lexer) : Lexer :=
  if frontWidth isSpace lx.rest = 0 then lx else (lx.advance (frontWidth isSpace lx.rest)).restart

/-- Takes what is pending as a token. -/
def emit (lx : Lexer) (kind : TokenKind) : Token × Lexer :=
  (⟨kind, String.ofList lx.pending, lx.start⟩, lx.restart)

/-- Reports a flaw of what is pending, which stays pending. -/
def report (lx : Lexer) (flaw : Flaw) : Token × Lexer :=
  (⟨.error, flaw.message (String.ofList lx.pending) lx.start, lx.start⟩, lx)

def follow (lx : Lexer) (reading : Reading) : Token × Lexer :=
  match reading.verdict with
  | .ok kind => (lx.advance reading.width).emit kind
  | .error flaw => (lx.advance reading.width).report flaw

/-- Reads one token, whatever was read before. -/
def nextToken (lx : Lexer) : Token × Lexer := lx.skipBlanks.follow (scan lx.skipBlanks.rest)

/-- Reads one token, unless this operation has already read a terminal one. -/
def next (lx : Lexer) : Option Token × Lexer :=
  if lx.finished then (none, lx)
  else (some lx.nextToken.1, { lx.nextToken.2 with finished := lx.nextToken.1.kind.isTerminal })

/-- The two ways to ask a lexer for a token. -/
inductive Call where
  | next
  | nextToken
deriving DecidableEq, Repr

def call (lx : Lexer) : Call → Option Token × Lexer
  | .next => lx.next
  | .nextToken => (some lx.nextToken.1, lx.nextToken.2)

/-- The answers to calls that are made one after another. -/
def answers (lx : Lexer) : List Call → List (Option Token)
  | [] => []
  | c :: calls => (lx.call c).1 :: (lx.call c).2.answers calls

/-- The lexer after such calls. -/
def afterCalls (lx : Lexer) (calls : List Call) : Lexer :=
  calls.foldl (fun lx c => (lx.call c).2) lx

theorem nextToken_shortens {lx : Lexer} (h : lx.nextToken.1.kind.isTerminal = false) :
    lx.nextToken.2.rest.length < lx.rest.length := by
  have hs : lx.skipBlanks.rest.length ≤ lx.rest.length := by
    unfold skipBlanks
    split
    next => exact Nat.le_refl _
    next => simp [restart, advance]
  unfold nextToken follow at h ⊢
  split at h
  next kind hk =>
    have := scan_shortens hk h
    simp only [emit, restart, advance]
    omega
  next => cases h

/-- The tokens up to the first terminal one, which is the last. -/
def toTokens (lx : Lexer) : List Token :=
  if lx.nextToken.1.kind.isTerminal then [lx.nextToken.1]
  else lx.nextToken.1 :: lx.nextToken.2.toTokens
termination_by lx.rest.length
decreasing_by exact nextToken_shortens (by simp_all)

end Lexer

def tokenize (text : String) : List Token := (Lexer.ofText text).toTokens

end SqlSelect
