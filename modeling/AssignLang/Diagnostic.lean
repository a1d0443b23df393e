import AssignLang.Token

/-! Everything that the front end can complain about, with its wording. A
complaint is kept as its cause and put into words only when it is shown. -/

namespace AssignLang

inductive Severity where
  | error
  | hint
deriving DecidableEq, Repr, Inhabited

inductive Cause where
  | unknownCharacters
  | unterminatedString
  | expected (wanted got : TokenKind)
  | unknownVariable (name : String)
  | stringOperand (op : Operator)
  | missingOutput (name : String)
  | unusedDefinition
deriving DecidableEq, Repr, Inhabited

namespace Cause

def message : Cause → String
  | .unknownCharacters => "Unknown character(s)"
  | .unterminatedString => "Unterminated string"
  | .expected wanted got => "Expecting " ++ wanted.name ++ ", got " ++ got.name
  | .unknownVariable name => "Unknown variable '" ++ name ++ "'"
  | .stringOperand op => "Cannot use '" ++ op.symbol.toString ++ "' on strings"
  | .missingOutput name => "Missing '" ++ name ++ "' variable"
  | .unusedDefinition => "Unused definition"

def severity : Cause → Severity
  | .unusedDefinition => .hint
  | _ => .error

def unusedDefinitionCode : String := "unused definition"

def code? : Cause → Option String
  | .unusedDefinition => some unusedDefinitionCode
  | _ => none

def isLexical : Cause → Bool
  | .unknownCharacters | .unterminatedString => true
  | _ => false

def isExpectation : Cause → Bool
  | .expected .. => true
  | _ => false

end Cause

structure Diagnostic where
  span : Span
  cause : Cause
deriving DecidableEq, Repr, Inhabited

namespace Diagnostic

def severity (d : Diagnostic) : Severity := d.cause.severity

def isError (d : Diagnostic) : Bool := d.severity = .error

def isHint (d : Diagnostic) : Bool := d.severity = .hint

end Diagnostic

/-- A complaint put into words. A hint has a code that names its kind, an
error has none. -/
structure Notice where
  span : Span
  message : String
  code? : Option String := none
deriving DecidableEq, Repr, Inhabited

def Notice.severity (n : Notice) : Severity := if n.code?.isSome then .hint else .error

def Diagnostic.notice (d : Diagnostic) : Notice := ⟨d.span, d.cause.message, d.cause.code?⟩

end AssignLang
