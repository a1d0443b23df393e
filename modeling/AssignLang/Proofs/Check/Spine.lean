import Mathlib.Algebra.GroupWithZero.Nat
import AssignLang.Proofs.Check.Inference

/-! Three ways to infer a kind. The rules speak of an operation and its operands, so they are
a recursion on the value. A long value is a long chain of left operands, and a loop can walk
down that chain first and go back up from its end. Going over the nodes with a stack does
not care how the value is nested. All three say the same, with the same reports in the same
order. -/

namespace AssignLang

/-- An operation without its left operand. -/
inductive Expr.Link where
  | operation (span : Span) (op : Operator) (right : Expr)
  | broken (span : Span) (op : Operator)

namespace Expr

/-- Walks down the left operands. The operations on the way go behind those in `spine`, and
the operand at the end is not an operation. -/
def descend (spine : List Link) : Expr → List Link × Expr
  | .operation span op left right => left.descend (spine ++ [.operation span op right])
  | .broken span op left => left.descend (spine ++ [.broken span op])
  | leaf => (spine, leaf)

def weight : Expr → Nat
  | .integer .. | .string .. | .reference .. => 1
  | .operation _ _ left right => left.weight + right.weight + 1
  | .broken _ _ left => left.weight + 1

def Link.weight : Link → Nat
  | .operation _ _ right => right.weight + 1
  | .broken .. => 1

theorem weight_pos (e : Expr) : 0 < e.weight := by
  cases e <;> simp [weight]

theorem weight_descend (spine : List Link) (e : Expr) :
    ((e.descend spine).1.map Link.weight).sum + (e.descend spine).2.weight =
      (spine.map Link.weight).sum + e.weight := by
  induction e generalizing spine with
  | integer | string | reference => rfl
  | operation span op left right ihl _ =>
    rw [descend, ihl, List.map_append, List.sum_append]
    simp only [List.map_singleton, List.sum_singleton, Link.weight, weight]
    omega
  | broken span op left ih =>
    rw [descend, ih, List.map_append, List.sum_append]
    simp only [List.map_singleton, List.sum_singleton, Link.weight, weight]
    omega

end Expr

namespace Inferred

def withoutRight (left : Inferred) : Inferred := { left with kind := .unknown }

/-- The kind of an operation, where `right` was inferred behind `left`. Operands that the
operator does not take are reported behind what is wrong with themselves. -/
def combine (span : Span) (op : Operator) (left right : Inferred) : Inferred :=
  match op.resultKind? left.kind right.kind with
  | some kind => ⟨kind, right.definitions, left.reports ++ right.reports⟩
  | none =>
    ⟨.unknown, right.definitions, left.reports ++ right.reports ++ [⟨span, .stringOperand op⟩]⟩

end Inferred

namespace Definitions

def inferLeaf (defs : Definitions) : Expr → Inferred
  | .integer .. => ⟨.integer, defs, []⟩
  | .string .. => ⟨.string, defs, []⟩
  | .reference ident =>
    match defs[ident.name]? with
    | some d => ⟨d.kind, defs.insert ident.name { d with used := true }, []⟩
    | none => ⟨.unknown, defs, [⟨ident.span, .unknownVariable ident.name⟩]⟩
  | .operation .. | .broken .. => ⟨.unknown, defs, []⟩

/-- Infers the kind of a value by its rules: the left operand first, and the right one, if it
could be read, with what the left one leaves. -/
def inferDirectly (defs : Definitions) : Expr → Inferred
  | .operation span op left right =>
    let first := defs.inferDirectly left
    first.combine span op (first.definitions.inferDirectly right)
  | .broken _ _ left => (defs.inferDirectly left).withoutRight
  | leaf => defs.inferLeaf leaf

mutual

def inferAlongSpine (defs : Definitions) (value : Expr) : Inferred :=
  climb (value.descend []).1.reverse (defs.inferLeaf (value.descend []).2)
termination_by value.weight
decreasing_by
  have hweight := Expr.weight_descend [] value
  have hpos := Expr.weight_pos (value.descend []).2
  simp only [List.map_nil, List.sum_nil] at hweight
  rw [List.map_reverse, List.sum_reverse]
  omega

def climb (links : List Expr.Link) (left : Inferred) : Inferred :=
  match links with
  | [] => left
  | .operation span op right :: links =>
    climb links (left.combine span op (inferAlongSpine left.definitions right))
  | .broken .. :: links => climb links left.withoutRight
termination_by (links.map Expr.Link.weight).sum
decreasing_by
  all_goals
    simp only [List.map_cons, List.sum_cons, Expr.Link.weight]
    omega

end

theorem climb_descend (defs : Definitions) (spine : List Expr.Link) (e : Expr) :
    climb (e.descend spine).1.reverse (defs.inferLeaf (e.descend spine).2) =
      climb spine.reverse (defs.inferDirectly e) := by
  -- the spine is general, as each operation on the way down is added at its end
  induction e generalizing defs spine with
  | integer | string | reference => rfl
  | operation span op left right ihl ihr =>
    have hright : ∀ defs : Definitions, defs.inferAlongSpine right = defs.inferDirectly right := by
      intro defs
      rw [inferAlongSpine, ihr, List.reverse_nil, climb]
    rw [Expr.descend, ihl, List.reverse_concat, climb, hright, inferDirectly]
  | broken span op left ih =>
    rw [Expr.descend, ih, List.reverse_concat, climb, inferDirectly]

theorem inferAlongSpine_eq (defs : Definitions) (e : Expr) :
    defs.inferAlongSpine e = defs.inferDirectly e := by
  rw [inferAlongSpine, climb_descend, List.reverse_nil, climb]

theorem inferLeaf_reference (defs : Definitions) (ident : Ident) :
    defs.inferLeaf (.reference ident) = ⟨defs.kindOf (.reference ident), defs.mark ident.name,
      defs.complaintsOf (.reference ident)⟩ := by
  rw [inferLeaf, kindOf, complaintsOf, kind?, mark]
  cases defs[ident.name]? <;> rfl

/-- Of operands that are inferred one behind the other the kinds are those they have in the
table in front of both. -/
theorem combine_eq (defs : Definitions) (span : Span) (op : Operator) (left right : Expr) :
    Inferred.combine span op ⟨defs.kindOf left, defs.markAll left.references, defs.complaints left⟩
        ⟨defs.kindOf right, defs.markAll (left.references ++ right.references),
          defs.complaints right⟩ =
      ⟨defs.kindOf (.operation span op left right),
        defs.markAll (Expr.operation span op left right).references,
        defs.complaints (.operation span op left right)⟩ := by
  rw [Inferred.combine, kindOf, complaints, complaintsOf, Expr.references]
  cases op.resultKind? (defs.kindOf left) (defs.kindOf right) with
  | none => rfl
  | some kind => simp

theorem inferDirectly_eq (defs : Definitions) (e : Expr) :
    defs.inferDirectly e = ⟨defs.kindOf e, defs.markAll e.references, defs.complaints e⟩ := by
  induction e generalizing defs with
  | integer | string => rfl
  | reference ident => exact inferLeaf_reference defs ident
  | broken span op left ih => rw [inferDirectly, ih]; rfl
  | operation span op left right ihl ihr =>
    rw [inferDirectly, ihl, ihr, kindOf_markAll, complaints_markAll, ← markAll_append]
    exact combine_eq defs span op left right

/-- Inference with a stack and inference along the left operands are inference by the rules:
same kind, same table, same reports in the same order. -/
theorem infer_eq_inferDirectly (defs : Definitions) (value : Expr) :
    defs.infer value = defs.inferDirectly value ∧
      defs.inferAlongSpine value = defs.inferDirectly value :=
  ⟨by rw [infer_eq, inferDirectly_eq], inferAlongSpine_eq defs value⟩

end Definitions

end AssignLang
