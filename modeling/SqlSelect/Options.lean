import SqlSelect.Numeral.Unsigned

namespace SqlSelect

/-- How a text is parsed: how deep parentheses may nest, and whether tokens may follow a query. -/
structure Options where
  maxDepth : Nat := 128
  allowTrailingInput : Bool := false
deriving DecidableEq, Repr

/-- A value in a configuration document, as far as options tell values apart. -/
inductive Setting where
  | number (n : Nat)
  | flag (b : Bool)
  | other
deriving DecidableEq, Repr

namespace Options

/-- A depth has 64 bits; a field of another name is passed over, whatever its value. -/
def set? (o : Options) (field : String) (s : Setting) : Option Options :=
  if field = "max_depth" then
    match s with
    | .number n => if n < wordBound then some { o with maxDepth := n } else none
    | _ => none
  else if field = "allow_trailing_input" then
    match s with
    | .flag b => some { o with allowTrailingInput := b }
    | _ => none
  else some o

/-- Fields that are not named keep their default. -/
def ofFields? (fields : List (String × Setting)) : Option Options :=
  fields.foldlM (fun o f => o.set? f.1 f.2) {}

/-- The document that gives both fields. -/
def toFields (o : Options) : List (String × Setting) :=
  [("max_depth", .number o.maxDepth), ("allow_trailing_input", .flag o.allowTrailingInput)]

theorem ofFields?_toFields {o : Options} (h : o.maxDepth < wordBound) :
    ofFields? o.toFields = some o := by
  simp only [ofFields?, toFields, set?, List.foldlM_cons, List.foldlM_nil, if_pos h, reduceIte,
    Option.bind_eq_bind, Option.bind_some, Option.pure_def, String.reduceEq]

end Options

end SqlSelect
