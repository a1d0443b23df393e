import AssignLang.Operator
import AssignLang.Span

/-! The words of the language. An identifier comes in two sorts: one that `:=`
follows starts a statement, any other is an operand. -/

namespace AssignLang

inductive Terminal where
  | ident (name : String)
  | leadingIdent (name : String)
  | integer (digits : String)
  | string (value : String)
  | assign
  | operator (op : Operator)
deriving DecidableEq, Repr, Inhabited

/-- What a token is; the end of the text counts as one. -/
inductive TokenKind where
  | ident
  | leadingIdent
  | integer
  | string
  | assign
  | operator (op : Operator)
  | eof
deriving DecidableEq, Repr, Inhabited

structure Token where
  terminal : Terminal
  span : Span
deriving DecidableEq, Repr, Inhabited

namespace Terminal

def kind : Terminal → TokenKind
  | .ident _ => .ident
  | .leadingIdent _ => .leadingIdent
  | .integer _ => .integer
  | .string _ => .string
  | .assign => .assign
  | .operator op => .operator op

/-- The text that a token carries; symbols carry none. -/
def value? : Terminal → Option String
  | .ident name => some name
  | .leadingIdent name => some name
  | .integer digits => some digits
  | .string value => some value
  | .assign | .operator _ => none

end Terminal

namespace TokenKind

def isIdentifier : TokenKind → Bool
  | .ident | .leadingIdent => true
  | _ => false

def operator? : TokenKind → Option Operator
  | .operator op => some op
  | _ => none

def name : TokenKind → String
  | .ident | .leadingIdent => "IDENT"
  | .integer => "INTEGER"
  | .string => "STRING"
  | .assign => "ASSIGN"
  | .operator .add => "ADD"
  | .operator .subtract => "SUBSTRACT"
  | .operator .multiply => "MULTIPLY"
  | .operator .divide => "DIVIDE"
  | .eof => "EOF"

def all : List TokenKind :=
  [.ident, .leadingIdent, .integer, .string, .assign, .operator .add, .operator .subtract,
    .operator .multiply, .operator .divide, .eof]

end TokenKind

def Token.kind (t : Token) : TokenKind := t.terminal.kind

theorem Terminal.kind_ne_eof (t : Terminal) : t.kind ≠ .eof := by
  cases t <;> simp [Terminal.kind]

end AssignLang
