import AssignLang.Diagnostic
import AssignLang.Token.Cursor
import AssignLang.Token.Lexeme

/-! Reading a text token by token. A character that starts no token is passed
over; all such characters on the way to one token are reported together, in one
span, just before the token. -/

namespace AssignLang

structure Reading where
  token : Token
  reports : List Diagnostic
deriving DecidableEq, Repr, Inhabited

/-- One step of a scan: a token and where to go on, or the end of the text. -/
inductive Step where
  | token (reading : Reading) (next : Cursor)
  | finish (position : Position) (reports : List Diagnostic)
deriving DecidableEq, Repr

/-- An identifier starts a statement if `:=` is next in `rest`. -/
def Lexeme.terminal (rest : Text) : Lexeme → Terminal
  | .word name =>
    if rest.startsAssign then .leadingIdent (String.ofList name) else .ident (String.ofList name)
  | .number digits => .integer (String.ofList digits)
  | .quoted value _ => .string (String.ofList value)
  | .assign => .assign
  | .operator op => .operator op

def Lexeme.reports (span : Span) : Lexeme → List Diagnostic
  | .quoted _ false => [⟨span, .unterminatedString⟩]
  | _ => []

def unknownReports (run : Option Span) : List Diagnostic :=
  run.toList.map (⟨·, .unknownCharacters⟩)

namespace Cursor

/-- Takes the step from here; `run` covers the unknown characters behind it. -/
def nextFrom (run : Option Span) (c : Cursor) : Step :=
  match _hc : c.skipTrivia with
  | ⟨p, []⟩ => .finish p (unknownReports run)
  | ⟨p, ch :: cs⟩ =>
    match Lexeme.read? (ch :: cs) with
    | some (lexeme, rest) =>
      let span : Span := ⟨p, p.after lexeme.spelling⟩
      .token ⟨⟨lexeme.terminal rest, span⟩, unknownReports run ++ lexeme.reports span⟩
        ⟨span.stop, rest⟩
    | none => nextFrom (some (Span.join run ⟨p, p.advance ch⟩)) ⟨p.advance ch, cs⟩
termination_by c.rest.length
decreasing_by
  have := length_skipTrivia_le c
  rw [_hc] at this
  exact this

def next (c : Cursor) : Step := nextFrom none c

theorem length_lt_of_nextFrom {run : Option Span} {c d : Cursor} {r : Reading}
    (h : c.nextFrom run = .token r d) : d.rest.length < c.rest.length := by
  fun_induction nextFrom run c with
  | case1 => simp at h
  | case2 run c p ch cs hc lexeme rest hread span =>
    obtain ⟨-, rfl⟩ := Step.token.inj h
    have hle := length_skipTrivia_le c
    rw [hc] at hle
    exact Nat.lt_of_lt_of_le (Lexeme.length_lt_of_read? hread) hle
  | case3 run c p ch cs hc hread ih =>
    have hle := length_skipTrivia_le c
    rw [hc] at hle
    have := ih h
    simp only [List.length_cons] at hle this
    omega

theorem length_lt_of_next {c d : Cursor} {r : Reading} (h : c.next = .token r d) :
    d.rest.length < c.rest.length := length_lt_of_nextFrom h

end Cursor

/-- Where a scan stands after a step. The end of the text is never left. -/
def Step.cursor : Step → Cursor
  | .token _ next => next
  | .finish position _ => ⟨position, []⟩

/-- A whole text, scanned: its tokens, the point where it ends, and what was
reported between the last token and that point. -/
structure TokenStream where
  readings : List Reading
  finish : Position
  closing : List Diagnostic
deriving DecidableEq, Repr, Inhabited

namespace TokenStream

/-- Scans on from a cursor; `passed` are the readings so far, the last first. -/
def collect (passed : List Reading) (c : Cursor) : TokenStream :=
  match _h : c.next with
  | .finish position reports => ⟨passed.reverse, position, reports⟩
  | .token reading next => collect (reading :: passed) next
termination_by c.rest.length
decreasing_by exact Cursor.length_lt_of_next _h

def ofText (text : Text) : TokenStream := collect [] { rest := text }

def tokens (s : TokenStream) : List Token := s.readings.map Reading.token

def reports (s : TokenStream) : List Diagnostic := s.readings.flatMap Reading.reports ++ s.closing

def kinds (s : TokenStream) : List TokenKind := s.tokens.map Token.kind ++ [.eof]

end TokenStream

end AssignLang
