namespace SqlSelect

/-- A letter counts from ten on, in either case. -/
def digitValue? (c : Char) : Option Nat :=
  if '0' ≤ c && c ≤ '9' then some (c.toNat - '0'.toNat)
  else if 'a' ≤ c && c ≤ 'f' then some (c.toNat - 'a'.toNat + 10)
  else if 'A' ≤ c && c ≤ 'F' then some (c.toNat - 'A'.toNat + 10)
  else none

def digit? (radix : Nat) (c : Char) : Option Nat := (digitValue? c).filter (· < radix)

/-- The number that digits stand for after earlier ones that stand for `high`. -/
def readDigits (radix : Nat) : Nat → List Char → Option Nat
  | high, [] => some high
  | high, c :: rest => (digit? radix c).bind fun d => readDigits radix (high * radix + d) rest

def dropPlus : List Char → List Char
  | '+' :: rest => rest
  | text => text

/-- One plus sign may come first; a digit must follow. -/
def magnitude? (radix : Nat) (text : List Char) : Option Nat :=
  if (dropPlus text).isEmpty then none else readDigits radix 0 (dropPlus text)

/-- A number is hexadecimal after `0x` and decimal otherwise. -/
def natural? : List Char → Option Nat
  | '0' :: 'x' :: rest => magnitude? 16 rest
  | '0' :: 'X' :: rest => magnitude? 16 rest
  | text => magnitude? 10 text

/-- The first number that has more than 64 bits. -/
def wordBound : Nat := 18446744073709551616

/-- The value of a number that has no more than 64 bits. -/
def unsigned? (text : String) : Option Nat := (natural? text.toList).filter (· < wordBound)

end SqlSelect
