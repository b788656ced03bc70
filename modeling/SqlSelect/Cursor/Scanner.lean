import SqlSelect.Cursor

namespace SqlSelect.Cursor

/-- Where a keyword may end, by the character that comes next. -/
def isBoundary : Option Char → Bool
  | none => true
  | some c => isSpace c || startsSymbol c

/-- Takes a word of so many characters that was found to come next. -/
def lexFixed (width : Nat) (kind : TokenKind) : Move Token := do
  if ← fastForward width then emit kind
  else report (.cutShort kind) ""

/-- Whether a word comes next, and after it, as far away as it has bytes, what may follow. -/
def probeWord (follows : Option Char → Bool) (word : String) : Move Bool := do
  if ← matchPrefix word then return follows (← peekAhead (word.utf8ByteSize + 1))
  return false

/-- The first word of a table that comes next. -/
def findWord (follows : Option Char → Bool) (words : List (String × TokenKind)) :
    Move (Option (String × TokenKind)) :=
  words.findM? fun v => probeWord follows v.1

/-- Takes a word of a table. It is as many characters as it has bytes. -/
def lexWord (follows : Option Char → Bool) (words : List (String × TokenKind)) :
    Move (Option Token) := do
  match ← findWord follows words with
  | none => return none
  | some (word, kind) => return some (← lexFixed word.utf8ByteSize kind)

/-- Looks for the end of white space from a distance on, no farther than a text has bytes. -/
def gapEndWithin (size width : Nat) : Move Nat := do
  if (← peekAhead (width + 1)).any isSpace then
    if width < size then gapEndWithin size (width + 1)
    else failure
  else return width
termination_by size - width

/-- The distance before which the white space at a distance ends. -/
def gapEnd (width : Nat) : Move Nat := fun cu => gapEndWithin cu.input.utf8ByteSize width cu

/-- Whether a word comes at a distance, character by character. -/
def matchAhead : List Char → Nat → Move Bool
  | [], _ => return true
  | c :: word, width => do
    if (← peekAhead (width + 1)).any (sameLetter c) then matchAhead word (width + 1)
    else return false

/-- The width of two words and the white space between them, if they come next. -/
def compoundWidth (first second : String) : Move (Option Nat) := do
  if !(← matchPrefix first) then return none
  let gap ← gapEnd first.utf8ByteSize
  if gap = first.utf8ByteSize then return none
  if !(← matchAhead second.toList gap) then return none
  let width := gap + second.utf8ByteSize
  return if isBoundary (← peekAhead (width + 1)) then some width else none

def findCompound : Move (Option Match) :=
  compounds.findSomeM? fun v => do
    return (← compoundWidth v.first v.second).map fun width => ⟨width, v.kind⟩

def lexCompound : Move (Option Token) := do
  match ← findCompound with
  | none => return none
  | some m => return some (← lexFixed m.width m.kind)

def findSymbol : Move (Option (String × TokenKind)) := symbols.findM? fun v => matchPrefix v.1

/-- Takes a symbol. -/
def lexSymbol : Move (Option Token) := do
  match ← findSymbol with
  | none => return none
  | some (symbol, kind) => return some (← lexFixed symbol.length kind)

def lexParameter : Move Token := do
  let _ ← nextChar
  acceptWhile isWordChar
  emit .parameter

def malformedNumber : Move Token := do
  report .number (← pending)

def decimalDigits : String := "0123456789"

def hexadecimalDigits : String := "0123456789abcdefABCDEF"

def among (characters : String) (c : Char) : Bool := characters.toList.contains c

/-- A number ends where no character comes next that could belong to a word. -/
def endNumber : Move Token := do
  if (← peek).any isWordChar then
    let _ ← nextChar
    malformedNumber
  else emit .number

def lexExponent : Move Token := do
  let _ ← accept (among "+-")
  if ← accept (among decimalDigits) then
    acceptWhile (among decimalDigits)
    endNumber
  else malformedNumber

/-- The point of a number and the digits after it, if there is one. -/
def lexFraction (digits : String) : Move Unit := do
  if ← accept (among ".") then acceptWhile (among digits)

/-- The rest of a number, from where its digits go on. -/
def lexDigits (digits : String) : Move Token := do
  acceptWhile (among digits)
  lexFraction digits
  if ← accept (among "eE") then lexExponent
  else endNumber

def lexNumber : Move Token := do
  if ← accept (among "0") <&&> accept (among "xX") then
    if ← accept (among hexadecimalDigits) then lexDigits hexadecimalDigits
    else malformedNumber
  else lexDigits decimalDigits

/-- The rest of a string. A doubled quote does not close it. -/
def lexQuoted (quote : Char) : Move Token := loop do
  match ← nextChar with
  | none => return some (← report .string "")
  | some c =>
    if c ≠ quote then return none
    if (← peek) ≠ some quote then return some (← emit .string)
    let _ ← nextChar
    return none

def lexString (quote : Char) : Move Token := do
  let _ ← nextChar
  lexQuoted quote

/-- The rest of a literal in backticks. -/
def lexTicked : Move Token := loop do
  match ← nextChar with
  | none => return some (← report .backtick "")
  | some c =>
    if c = '\x60' then return some (← emit .literal)
    return none

def lexBacktick : Move Token := do
  let _ ← nextChar
  lexTicked

def lexLiteral : Move Token := do
  acceptWhile isWordChar
  emit .literal

/-- What a character opens that does not begin a word of the tables. -/
def lexFrom (first second : Option Char) : Move Token := do
  match first with
  | none => lexRest none
  | some c =>
    if c = ':' && second.any isAlphabetic then lexParameter
    else if isDecimal c then lexNumber
    else if c = '\'' || c = '"' then lexString c
    else if c = '\x60' then lexBacktick
    else if isAlphabetic c || c == '_' then lexLiteral
    else lexRest (some c)
where
  /-- A symbol, the end of the text or a character that nothing begins with. -/
  lexRest (first : Option Char) : Move Token := do
    match ← lexSymbol with
    | some t => return t
    | none =>
      match first with
      | none => emit .eof
      | some c => report (.character c) ""

/-- White space belongs to no token, and what is pending before it never will. -/
def skipBlanks : Move Unit := loop do
  if !(← peek).any isSpace then return some ()
  let _ ← nextChar
  ignore
  return none

/-- Reads what comes next where this is no white space. -/
def lexToken : Move Token := do
  if let some t ← lexWord isBoundary keywords then return t
  if let some t ← lexCompound then return t
  if let some t ← lexWord (· == some '(') functions then return t
  lexFrom (← peekAhead 1) (← peekAhead 2)

def nextToken : Move Token := do
  skipBlanks
  lexToken

def next : Move (Option Token) := do
  if (← get).finished then return none
  let t ← nextToken
  modify fun cu => { cu with finished := t.kind.isTerminal }
  return some t

def call : Lexer.Call → Move (Option Token)
  | .next => next
  | .nextToken => return some (← nextToken)

/-- The answers to calls that are made one after another. -/
def answers : List Lexer.Call → Move (List (Option Token))
  | [] => return []
  | c :: calls => return (← call c) :: (← answers calls)

/-- The tokens up to where there are no more. -/
def collect (cu : Cursor) : Option (List Token × Cursor) :=
  match next cu with
  | none => none
  | some (none, cu') => some ([], cu')
  | some (some t, cu') =>
    if cu'.left < cu.left then (collect cu').map fun (tokens, cu'') => (t :: tokens, cu'')
    else none
termination_by cu.left

end SqlSelect.Cursor
