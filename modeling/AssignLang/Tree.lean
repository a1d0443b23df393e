import AssignLang.Operator
import AssignLang.Span

/-! The tree of a file. A file is a list of assignments. A value that could not
be read is left out of its assignment, and an operation whose right operand could
not be read keeps its left one: nothing is ever made up. -/

namespace AssignLang

structure Ident where
  span : Span
  name : String
deriving DecidableEq, Repr, Inhabited

inductive Expr where
  | integer (span : Span) (digits : String)
  | string (span : Span) (value : String)
  | reference (ident : Ident)
  | operation (span : Span) (op : Operator) (left right : Expr)
  | broken (span : Span) (op : Operator) (left : Expr)
deriving DecidableEq, Repr, Inhabited

inductive Node where
  | integer (span : Span) (digits : String)
  | string (span : Span) (value : String)
  | reference (ident : Ident)
  | operation (span : Span) (op : Operator)
  | broken (span : Span) (op : Operator)
deriving DecidableEq, Repr, Inhabited

namespace Expr

def span : Expr → Span
  | .integer span _ => span
  | .string span _ => span
  | .reference ident => ident.span
  | .operation span .. => span
  | .broken span .. => span

def binary (op : Operator) (left right : Expr) : Expr :=
  .operation (left.span.merge right.span) op left right

/-- The nodes of the expression, operands first, in front of `behind`. -/
def postorderOnto : Expr → List Node → List Node
  | .integer span digits, behind => .integer span digits :: behind
  | .string span value, behind => .string span value :: behind
  | .reference ident, behind => .reference ident :: behind
  | .operation span op left right, behind =>
    left.postorderOnto (right.postorderOnto (.operation span op :: behind))
  | .broken span op left, behind => left.postorderOnto (.broken span op :: behind)

def postorder (e : Expr) : List Node := e.postorderOnto []

theorem postorderOnto_eq (e : Expr) (behind : List Node) :
    e.postorderOnto behind = e.postorder ++ behind := by
  induction e generalizing behind with
  | integer | string | reference => rfl
  | operation span op left right ihl ihr =>
    simp only [postorder, postorderOnto]
    rw [ihl, ihr, ihl (right.postorderOnto _), ihr [_]]
    simp
  | broken span op left ih =>
    simp only [postorder, postorderOnto]
    rw [ih, ih [_]]
    simp

@[simp] theorem postorder_operation (span : Span) (op : Operator) (left right : Expr) :
    (operation span op left right).postorder =
      left.postorder ++ right.postorder ++ [.operation span op] := by
  rw [postorder, postorderOnto, postorderOnto_eq, postorderOnto_eq, List.append_assoc]

@[simp] theorem postorder_broken (span : Span) (op : Operator) (left : Expr) :
    (broken span op left).postorder = left.postorder ++ [.broken span op] := by
  rw [postorder, postorderOnto, postorderOnto_eq]

end Expr

structure Assignment where
  target : Ident
  span : Span
  value? : Option Expr
deriving DecidableEq, Repr, Inhabited

namespace Assignment

/-- The assignment of a value that was read, which covers name and value. -/
def complete (target : Ident) (value : Expr) : Assignment :=
  ⟨target, target.span.merge value.span, some value⟩

/-- The assignment whose value could not be read; it covers what was skipped. -/
def failed (target : Ident) (skipped : Option Span) : Assignment :=
  ⟨target, target.span.extend skipped, none⟩

def isValid (a : Assignment) : Bool := a.value?.isSome

end Assignment

structure File where
  span : Span
  assignments : List Assignment
deriving DecidableEq, Repr, Inhabited

end AssignLang
