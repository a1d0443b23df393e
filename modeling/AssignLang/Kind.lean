import AssignLang.Operator

/-! The kind of value that an expression has. `unknown` stands for a value of
which something has already been reported: it fits everywhere a kind is computed,
so that one mistake is reported once. -/

namespace AssignLang

inductive Kind where
  | integer
  | string
  | unknown
deriving DecidableEq, Repr, Inhabited

/-- A value of this kind can stand where `expected` is wanted. -/
def Kind.satisfies (kind expected : Kind) : Bool := expected = .unknown || kind = expected

namespace Operator

/-- The kind of an operation, and none if the operator does not take strings.
A sum is a string as soon as one operand is. -/
def resultKind? (op : Operator) (left right : Kind) : Option Kind :=
  if left = .unknown ∨ right = .unknown then some .unknown
  else match op with
    | .add => some (if left = .string ∨ right = .string then .string else .integer)
    | .subtract | .multiply | .divide =>
      if left = .integer ∧ right = .integer then some .integer else none

def operandKind : Operator → Kind
  | .add => .unknown
  | .subtract | .multiply | .divide => .integer

end Operator

end AssignLang
