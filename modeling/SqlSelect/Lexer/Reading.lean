import SqlSelect.Lexer.Words
import SqlSelect.Position
import SqlSelect.Text.Shown
import SqlSelect.Unicode.Numeric

namespace SqlSelect

/-- Why a text cannot be read on. -/
inductive Flaw where
  | number
  | string
  | backtick
  | character (c : Char)
  | cutShort (kind : TokenKind)
deriving DecidableEq, Repr

/-- The message for a flaw in what began at `p` and was `read` so far. -/
def Flaw.message (read : String) (p : Position) : Flaw → String
  | .number => s!"malformed number literal '{read}' at {p.phrase}"
  | .string => s!"unterminated quoted string starting at {p.phrase}"
  | .backtick => s!"unterminated backtick literal starting at {p.phrase}"
  | .character c => s!"unrecognized character {shown c} at {p.phrase}"
  | .cutShort kind => s!"unexpected end of input while reading {kind.spelling} at {p.phrase}"

/-- What the front of a text is, and how many characters were read to find out. -/
structure Reading where
  width : Nat
  verdict : Except Flaw TokenKind

namespace Reading

def token (width : Nat) (kind : TokenKind) : Reading := ⟨width, .ok kind⟩

def flaw (width : Nat) (f : Flaw) : Reading := ⟨width, .error f⟩

/-- A token of known width, which a text that ends too soon does not hold. -/
def fixed (text : List Char) (m : Match) : Reading :=
  if (text.take m.width).length = m.width then token m.width m.kind
  else flaw 0 (.cutShort m.kind)

end Reading

def isDecimal (c : Char) : Bool := c.isDigit

def isHexadecimal (c : Char) : Bool :=
  c.isDigit || ('a' ≤ c && c ≤ 'f') || ('A' ≤ c && c ≤ 'F')

/-- Whether the first character of a text is there and satisfies `p`. -/
def headIs (p : Char → Bool) (text : List Char) : Bool := text.head?.any p

/-- Whether a text begins with the mark of a hexadecimal number. -/
def isMarked : List Char → Bool
  | '0' :: 'x' :: _ => true
  | '0' :: 'X' :: _ => true
  | _ => false

/-- The width of a run of digits, which may have a point and more digits after it. -/
def mantissa (digit : Char → Bool) (text : List Char) : Nat :=
  if headIs (· = '.') (text.drop (frontWidth digit text)) then
    frontWidth digit text + 1 + frontWidth digit (text.drop (frontWidth digit text + 1))
  else frontWidth digit text

/-- The width of an exponent's letter and sign, zero where there is no letter. -/
def exponentMark (text : List Char) : Nat :=
  if headIs (fun c => c = 'e' || c = 'E') text then
    if headIs (fun c => c = '+' || c = '-') (text.drop 1) then 2 else 1
  else 0

/-- A number ends where no character follows that could belong to a word. -/
def endNumber (width : Nat) (text : List Char) : Reading :=
  if headIs isWordChar (text.drop width) then .flaw (width + 1) .number
  else .token width .number

/-- The digits of an exponent, of which there is one at least. -/
def readPower (width : Nat) (text : List Char) : Reading :=
  if headIs isDecimal (text.drop width) then
    endNumber (width + frontWidth isDecimal (text.drop width)) text
  else .flaw width .number

/-- A decimal number from where its exponent may begin. -/
def readExponent (width : Nat) (text : List Char) : Reading :=
  if exponentMark (text.drop width) = 0 then endNumber width text
  else readPower (width + exponentMark (text.drop width)) text

/-- What a digit opens. A hexadecimal number has no exponent, since `e` is a digit of it. -/
def readNumber (text : List Char) : Reading :=
  if isMarked text then
    if headIs isHexadecimal (text.drop 2) then
      endNumber (2 + mantissa isHexadecimal (text.drop 2)) text
    else .flaw 2 .number
  else readExponent (mantissa isDecimal text) text

/-- The width up to the quote that closes a string, and with it; a doubled quote does not. -/
def stringEnd (quote : Char) : List Char → Option Nat
  | [] => none
  | [c] => if c = quote then some 1 else none
  | c :: d :: rest =>
    if c = quote then
      if d = quote then (stringEnd quote rest).map (· + 2) else some 1
    else (stringEnd quote (d :: rest)).map (· + 1)

/-- What a quote opens; `rest` comes after it. -/
def readString (quote : Char) (rest : List Char) : Reading :=
  match stringEnd quote rest with
  | some width => .token (1 + width) .string
  | none => .flaw (1 + rest.length) .string

/-- What a backtick opens; no character of `rest` is special before the next backtick. -/
def readBacktick (rest : List Char) : Reading :=
  if '\x60' ∈ rest then .token (1 + frontWidth (· ≠ '\x60') rest + 1) .literal
  else .flaw (1 + rest.length) .backtick

def readSymbol (c : Char) (rest : List Char) : Reading :=
  match symbol? (c :: rest) with
  | some m => .fixed (c :: rest) m
  | none => .flaw 0 (.character c)

/-- What a character opens that does not begin a word of the tables. -/
def readFrom (c : Char) (rest : List Char) : Reading :=
  if c = ':' && headIs isAlphabetic rest then .token (1 + frontWidth isWordChar rest) .parameter
  else if isDecimal c then readNumber (c :: rest)
  else if c = '\'' || c = '"' then readString c rest
  else if c = '\x60' then readBacktick rest
  else if isWordStart c then .token (frontWidth isWordChar (c :: rest)) .literal
  else readSymbol c rest

/-- The tables are tried in this order; no text begins with words of two of them. -/
def word? (text : List Char) : Option Match := keyword? text <|> compound? text <|> function? text

/-- The token at the front of a text that begins with no white space. -/
def scan (text : List Char) : Reading :=
  match word? text with
  | some m => .fixed text m
  | none =>
    match text with
    | [] => .token 0 .eof
    | c :: rest => readFrom c rest

end SqlSelect
