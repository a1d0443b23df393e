import AssignLang.Token.Scan
import AssignLang.Tree

/-! The state of a parse: the tokens ahead, of which the first is the current
one, and the reports so far. What the scanner reported on a token is passed on
when the token becomes the current one, so that all reports come in the order of
the text. -/

namespace AssignLang

structure ParseState where
  ahead : List Reading
  finish : Position
  closing : List Diagnostic
  /-- The reports so far, the last first. -/
  log : List Diagnostic
deriving DecidableEq, Repr, Inhabited

/-- The places where a parse can recover. -/
inductive Level where
  | assignment
  | sum
  | product
deriving DecidableEq, Repr, Inhabited

namespace Level

/-- Recovery skips up to a token of such a kind. It never passes the start of
the next statement. -/
def stopsAt : Level → TokenKind → Bool
  | _, .leadingIdent | _, .eof => true
  | .sum, .operator op => op.isAdditive
  | .product, .operator _ => true
  | _, _ => false

def joins : Level → Operator → Bool
  | .assignment, _ => false
  | .sum, op => op.isAdditive
  | .product, op => !op.isAdditive

end Level

namespace ParseState

def kind (s : ParseState) : TokenKind :=
  match s.ahead with
  | [] => .eof
  | r :: _ => r.token.kind

def span (s : ParseState) : Span :=
  match s.ahead with
  | [] => .empty s.finish
  | r :: _ => r.token.span

/-- Passes on what the scanner reported on the current token. -/
def arrive (s : ParseState) : ParseState :=
  match s.ahead with
  | [] => { s with log := s.closing.reverse ++ s.log }
  | r :: _ => { s with log := r.reports.reverse ++ s.log }

def ofStream (s : TokenStream) : ParseState := arrive ⟨s.readings, s.finish, s.closing, []⟩

/-- Consumes the current token. The end of the text is never consumed. -/
def advance (s : ParseState) : ParseState :=
  match s.ahead with
  | [] => s
  | _ :: rest => arrive { s with ahead := rest }

def reject (wanted : TokenKind) (s : ParseState) : ParseState :=
  { s with log := ⟨s.span, .expected wanted s.kind⟩ :: s.log }

def operator? (level : Level) (s : ParseState) : Option Operator :=
  s.kind.operator?.filter level.joins

@[simp] theorem ahead_arrive (s : ParseState) : s.arrive.ahead = s.ahead := by
  unfold arrive; split <;> rfl

@[simp] theorem ahead_advance (s : ParseState) : s.advance.ahead = s.ahead.tail := by
  unfold advance; split <;> simp_all

@[simp] theorem ahead_reject (wanted : TokenKind) (s : ParseState) :
    (s.reject wanted).ahead = s.ahead := rfl

theorem ahead_ne_nil_of_operator? {level : Level} {s : ParseState} {op : Operator}
    (h : s.operator? level = some op) : s.ahead ≠ [] := by
  intro hnil
  simp [operator?, kind, hnil, TokenKind.operator?] at h

/-- Skips tokens up to a stop of the level, and gives the span over `run` and
the skipped tokens. -/
def skipFrom (level : Level) (run : Option Span) (s : ParseState) : Option Span × ParseState :=
  match _h : s.ahead with
  | [] => (run, s)
  | r :: _ =>
    if level.stopsAt r.token.kind then (run, s)
    else skipFrom level (some (Span.join run r.token.span)) s.advance
termination_by s.ahead.length
decreasing_by simp [_h]

def skip (level : Level) (s : ParseState) : Option Span × ParseState := s.skipFrom level none

theorem length_skipFrom_le (level : Level) (run : Option Span) (s : ParseState) :
    (s.skipFrom level run).2.ahead.length ≤ s.ahead.length := by
  fun_induction skipFrom level run s with
  | case1 | case2 => exact Nat.le_refl _
  | case3 run s r rest hs hstop ih =>
    refine Nat.le_trans ih ?_
    simp

theorem length_skip_le (level : Level) (s : ParseState) :
    (s.skip level).2.ahead.length ≤ s.ahead.length := length_skipFrom_le ..

theorem length_skip_lt {level : Level} {s : ParseState} {r : Reading} {rest : List Reading}
    (hs : s.ahead = r :: rest) (hr : level.stopsAt r.token.kind = false) :
    (s.skip level).2.ahead.length < s.ahead.length := by
  unfold skip skipFrom
  split
  · simp_all
  · rename_i r' rest' h
    obtain ⟨rfl, rfl⟩ := List.cons.inj (hs.symm.trans h)
    rw [if_neg (by simp [hr])]
    refine Nat.lt_of_le_of_lt (length_skipFrom_le ..) ?_
    simp [hs]

end ParseState

end AssignLang
