import SqlSelect.TokenKind
import SqlSelect.Unicode.Ranges

namespace SqlSelect

/-- The words that are a keyword wherever a boundary follows them. -/
def keywords : List (String × TokenKind) :=
  [("select", .select), ("from", .from), ("where", .where), ("having", .having),
   ("union", .union), ("join", .join), ("on", .on), ("limit", .limit), ("offset", .offset),
   ("as", .as), ("and", .and), ("or", .or), ("not", .not), ("asc", .asc), ("desc", .desc),
   ("between", .between), ("like", .like), ("in", .in), ("create", .create), ("table", .table),
   ("view", .view), ("drop", .drop)]

/-- A keyword of two words with nothing but white space between them. -/
structure Compound where
  first : String
  second : String
  kind : TokenKind

def compounds : List Compound :=
  [⟨"group", "by", .groupBy⟩, ⟨"order", "by", .orderBy⟩, ⟨"inner", "join", .innerJoin⟩,
   ⟨"outer", "join", .outerJoin⟩, ⟨"left", "join", .leftJoin⟩, ⟨"right", "join", .rightJoin⟩]

/-- The words that name a function where an opening parenthesis follows at once. -/
def functions : List (String × TokenKind) :=
  [("sum", .sum), ("min", .min), ("max", .max), ("avg", .avg), ("count", .count),
   ("greatest", .greatest)]

/-- No symbol comes after one that it begins with, so the first that fits is the longest. -/
def symbols : List (String × TokenKind) :=
  [("<>", .notEqual), ("!=", .notEqual), (">=", .greaterEqual), ("<=", .lessEqual),
   ("=", .equal), (">", .greater), ("<", .less), ("?", .question), ("%", .percent),
   ("*", .star), ("+", .plus), ("-", .minus), ("/", .slash), ("(", .leftParen),
   (")", .rightParen), (".", .dot), (",", .comma), (";", .semicolon)]

/-- The characters some symbol begins with, the exclamation mark among them. -/
def startsSymbol (c : Char) : Bool := symbols.any fun s => s.1.toList.head? == some c

/-- Two characters that are one letter but for its ASCII case, or the same. -/
def sameLetter (a b : Char) : Bool := a.toLower == b.toLower

/-- Whether a text begins with a word, in whatever ASCII case. -/
def beginsWith : List Char → List Char → Bool
  | [], _ => true
  | _ :: _, [] => false
  | w :: word, c :: text => sameLetter w c && beginsWith word text

/-- Where a keyword may end: before white space, before a symbol and at the end of the text. -/
def atBoundary : List Char → Bool
  | [] => true
  | c :: _ => isSpace c || startsSymbol c

/-- How many characters at the front of a text satisfy `p`. -/
def frontWidth (p : Char → Bool) (text : List Char) : Nat := (text.takeWhile p).length

/-- A word of the table and how many characters it takes. -/
structure Match where
  width : Nat
  kind : TokenKind
deriving DecidableEq

def matchWord (follows : List Char → Bool) (text : List Char) (w : String × TokenKind) :
    Option Match :=
  if beginsWith w.1.toList text && follows (text.drop w.1.length) then some ⟨w.1.length, w.2⟩
  else none

def keyword? (text : List Char) : Option Match := keywords.findSome? (matchWord atBoundary text)

def opensCall : List Char → Bool
  | '(' :: _ => true
  | _ => false

def function? (text : List Char) : Option Match := functions.findSome? (matchWord opensCall text)

def symbol? (text : List Char) : Option Match :=
  symbols.findSome? (matchWord (fun _ => true) text)

/-- Where the second word would begin: after all the white space that follows the first. -/
def Compound.gapEnd (w : Compound) (text : List Char) : Nat :=
  w.first.length + frontWidth isSpace (text.drop w.first.length)

/-- The width of both words and all the white space between them. -/
def Compound.width (w : Compound) (text : List Char) : Nat := w.gapEnd text + w.second.length

def matchCompound (text : List Char) (w : Compound) : Option Match :=
  if beginsWith w.first.toList text && decide (w.first.length < w.gapEnd text)
      && beginsWith w.second.toList (text.drop (w.gapEnd text))
      && atBoundary (text.drop (w.width text)) then
    some ⟨w.width text, w.kind⟩
  else none

def compound? (text : List Char) : Option Match := compounds.findSome? (matchCompound text)

end SqlSelect
