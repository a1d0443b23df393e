import AssignLang.Definition
import AssignLang.Diagnostic
import AssignLang.Tree

/-! Kinds of values. The nodes of a value are visited operands first, and the
kinds of the operands that still wait for their operation are kept on a stack; so
the length of a value does not matter. Every name that is read is marked as used. -/

namespace AssignLang

/-- What inference says: the kind of a value, the table with the names it reads
marked, and its complaints. -/
structure Inferred where
  kind : Kind
  definitions : Definitions
  reports : List Diagnostic

/-- Inference half way through the nodes of a value. -/
structure Inference where
  definitions : Definitions
  operands : List Kind := []
  log : List Diagnostic := []

namespace Inference

def lookup (ident : Ident) (s : Inference) : Kind × Inference :=
  match s.definitions[ident.name]? with
  | some d =>
    (d.kind, { s with definitions := s.definitions.insert ident.name { d with used := true } })
  | none => (.unknown, { s with log := ⟨ident.span, .unknownVariable ident.name⟩ :: s.log })

def combine (span : Span) (op : Operator) (left right : Kind) (s : Inference) :
    Kind × Inference :=
  match op.resultKind? left right with
  | some kind => (kind, s)
  | none => (.unknown, { s with log := ⟨span, .stringOperand op⟩ :: s.log })

def push (operands : List Kind) (result : Kind × Inference) : Inference :=
  { result.2 with operands := result.1 :: operands }

def visit (s : Inference) : Node → Inference
  | .integer .. => push s.operands (.integer, s)
  | .string .. => push s.operands (.string, s)
  | .reference ident => push s.operands (s.lookup ident)
  | .operation span op =>
    match s.operands with
    | right :: left :: rest => push rest (s.combine span op left right)
    | _ => s
  | .broken .. =>
    match s.operands with
    | _ :: rest => push rest (.unknown, s)
    | [] => s

end Inference

namespace Definitions

def infer (definitions : Definitions) (value : Expr) : Inferred :=
  let s := value.postorder.foldl Inference.visit { definitions }
  ⟨s.operands.headD .unknown, s.definitions, s.log.reverse⟩

def define (definitions : Definitions) (a : Assignment) : Inferred :=
  let value := match a.value? with
    | some value => infer definitions value
    | none => ⟨.unknown, definitions, []⟩
  { value with definitions := value.definitions.insert a.target.name ⟨a.span, value.kind, false⟩ }

end Definitions

end AssignLang
