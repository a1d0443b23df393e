import AssignLang.Check.Inference
import AssignLang.Parse.File

/-! Names that can take the place of the identifier under a cursor. Only names
that an earlier assignment defines are offered, if they go on from what is typed
up to the cursor and their kind fits: operands of `-`, `*` and `/` are integers,
anything goes elsewhere. -/

namespace AssignLang

/-- The identifier under a cursor, with the kind that is wanted there. The
operation right above decides it; `wanted` stands for what is above `e`. -/
def Expr.referenceAt? (p : Position) (wanted : Kind) (e : Expr) : Option (Ident × Kind) :=
  if e.span.contains p then
    match e with
    | .integer .. | .string .. => none
    | .reference ident => some (ident, wanted)
    | .operation _ op left right =>
      if left.span.contains p then left.referenceAt? p op.operandKind
      else right.referenceAt? p op.operandKind
    | .broken _ op left => left.referenceAt? p op.operandKind
  else none

namespace Definitions

/-- The defined names that start with `typed` and fit where `wanted` is wanted,
in increasing order. -/
def offers (definitions : Definitions) (typed : Text) (wanted : Kind) : List String :=
  (definitions.toList.filter fun (name, d) =>
    typed.isPrefixOf name.toList && d.kind.satisfies wanted).map (·.1)

def completeValue (definitions : Definitions) (p : Position) (value : Expr) : List String :=
  match value.referenceAt? p .unknown with
  | none => []
  | some (ident, wanted) =>
    definitions.offers (ident.name.toList.take (p.offset - ident.span.start.offset)) wanted

/-- The names to offer in the first assignment that the cursor is in, when the
ones before it are defined in turn. -/
def complete (p : Position) (definitions : Definitions) : List Assignment → List String
  | [] => []
  | a :: rest =>
    if a.span.contains p then (a.value?.map (definitions.completeValue p)).getD []
    else complete p (definitions.define a).definitions rest

end Definitions

def File.complete (file : File) (p : Position) : List String :=
  Definitions.complete p ∅ file.assignments

def complete (text : Text) (p : Position) : List String := (File.parse text).file.complete p

end AssignLang
