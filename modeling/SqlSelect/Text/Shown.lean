import SqlSelect.Unicode.Extending
import SqlSelect.Unicode.Unprintable

namespace SqlSelect

/-- The code point of a character in lower-case hexadecimal, without leading zeros. -/
def codeEscape (c : Char) : List Char :=
  ['\\', 'u', '\x7b'] ++ Nat.toDigits 16 c.toNat ++ ['\x7d']

/-- A character as a message can print it: marks that would attach to the opening quote and
characters that leave no mark are given by their code. -/
def escape (c : Char) : List Char :=
  if c = '\x00' then ['\\', '0']
  else if c = '\t' then ['\\', 't']
  else if c = '\r' then ['\\', 'r']
  else if c = '\n' then ['\\', 'n']
  else if c = '\'' || c = '\\' then ['\\', c]
  else if isExtending c || isUnprintable c then codeEscape c
  else [c]

/-- A character between single quotes. -/
def shown (c : Char) : String := String.ofList (['\''] ++ escape c ++ ['\''])

end SqlSelect
