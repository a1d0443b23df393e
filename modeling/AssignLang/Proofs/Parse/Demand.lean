import AssignLang.Proofs.Parse.Context
import AssignLang.Proofs.Token.Tiling

/-! Parsing on demand. Here a parse does not start from the tokens of the whole text: it
holds one answer of the scanner and asks for the next one each time it consumes a token, so
that asking once more at the end of the text is a thing that could happen. It keeps count of
the questions and notes what every token is consumed for. The tree and the reports are those
of a parse over the whole scan, every token is asked for once and consumed once, and the end
of the text is asked for once and never consumed. -/

namespace AssignLang

namespace Step

def reports : Step → List Diagnostic
  | .token r _ => r.reports
  | .finish _ reports => reports

def token? : Step → Option Token
  | .token r _ => some r.token
  | .finish .. => none

def left : Step → Nat
  | .token _ next => next.rest.length + 1
  | .finish .. => 0

/-- The step and all that follow it. -/
def stream : Step → TokenStream
  | .token r next =>
    { TokenStream.collect [] next with readings := r :: (TokenStream.collect [] next).readings }
  | .finish position reports => ⟨[], position, reports⟩

end Step

/-- What a token is consumed for. -/
inductive Role where
  | target
  | sign
  | operator
  | operand
  | skipped
deriving DecidableEq, Repr, Inhabited

structure PullState where
  /-- The last answer of the scanner. -/
  current : Step
  /-- How often the scanner was asked. -/
  asked : Nat
  /-- The tokens consumed so far, the last first. -/
  consumed : List (Token × Role)
  /-- The reports so far, the last first. -/
  log : List Diagnostic
deriving DecidableEq, Repr

namespace PullState

def kind (s : PullState) : TokenKind := (s.current.token?.map Token.kind).getD .eof

def span (s : PullState) : Span :=
  match s.current with
  | .token r _ => r.token.span
  | .finish position _ => .empty position

def ofText (text : Text) : PullState :=
  let answer := Cursor.next { rest := text }
  ⟨answer, 1, [], answer.reports.reverse⟩

/-- Consumes the current token and asks for the next one. Nothing stops it from asking again
at the end of the text. -/
def bump (role : Role) (s : PullState) : PullState :=
  let answer := s.current.cursor.next
  ⟨answer, s.asked + 1, s.current.token?.toList.map (·, role) ++ s.consumed,
    answer.reports.reverse ++ s.log⟩

def reject (wanted : TokenKind) (s : PullState) : PullState :=
  { s with log := ⟨s.span, .expected wanted s.kind⟩ :: s.log }

def operator? (level : Level) (s : PullState) : Option Operator :=
  s.kind.operator?.filter level.joins

variable {s t : PullState}

theorem exists_token (h : s.kind ≠ .eof) : ∃ r next, s.current = .token r next := by
  cases hs : s.current with
  | token r next => exact ⟨r, next, rfl⟩
  | finish position reports => simp [kind, hs, Step.token?] at h

theorem left_bump_lt (h : s.kind ≠ .eof) (role : Role) :
    (s.bump role).current.left < s.current.left := by
  obtain ⟨r, next, hs⟩ := exists_token h
  change s.current.cursor.next.left < _
  rw [hs, Step.cursor, Step.left]
  cases hnext : next.next with
  | token r' next' => exact Nat.succ_lt_succ (Cursor.length_lt_of_next hnext)
  | finish position reports => exact Nat.succ_pos _

theorem kind_ne_eof_of_operator? {level : Level} {op : Operator}
    (h : s.operator? level = some op) : s.kind ≠ .eof := by
  intro heof
  simp [operator?, heof, TokenKind.operator?] at h

theorem kind_ne_eof_of_stopsAt {level : Level} (h : ¬ level.stopsAt s.kind = true) :
    s.kind ≠ .eof := by
  intro heof
  rw [heof] at h
  cases level <;> exact h rfl

def skipFrom (level : Level) (run : Option Span) (s : PullState) : Option Span × PullState :=
  if _h : level.stopsAt s.kind = true then (run, s)
  else skipFrom level (some (Span.join run s.span)) (s.bump .skipped)
termination_by s.current.left
decreasing_by exact left_bump_lt (kind_ne_eof_of_stopsAt _h) _

def skip (level : Level) (s : PullState) : Option Span × PullState := s.skipFrom level none

theorem left_skipFrom_le (level : Level) (run : Option Span) (s : PullState) :
    (s.skipFrom level run).2.current.left ≤ s.current.left := by
  fun_induction skipFrom level run s with
  | case1 => exact Nat.le_refl _
  | case2 run s h ih =>
    exact Nat.le_trans ih (Nat.le_of_lt (left_bump_lt (kind_ne_eof_of_stopsAt h) _))

def operand (s : PullState) : Option Expr × PullState :=
  match s.current.token?.bind Token.operand? with
  | some e => (some e, s.bump .operand)
  | none => (none, s.reject .string)

theorem kind_ne_eof_of_token? {α : Type} {f : Token → Option α} {a : α}
    (h : s.current.token?.bind f = some a) : s.kind ≠ .eof := by
  cases hs : s.current with
  | token r next =>
    rw [kind, hs]
    exact Terminal.kind_ne_eof r.token.terminal
  | finish position reports => simp [hs, Step.token?] at h

theorem left_operand_le (s : PullState) : s.operand.2.current.left ≤ s.current.left := by
  unfold operand
  split
  · rename_i e he
    exact Nat.le_of_lt (left_bump_lt (kind_ne_eof_of_token? he) _)
  · exact Nat.le_refl _

end PullState

/-- A way to read an expression on demand. -/
structure PullReader where
  read : PullState → Option Expr × PullState
  left_read_le : ∀ s, (read s).2.current.left ≤ s.current.left

namespace PullReader

open PullState

variable {level : Level} {operands : PullReader} {s t : PullState} {op : Operator}

/-- An operator is consumed before its right operand is read. -/
theorem left_read_lt {e : Option Expr} (h : s.operator? level = some op)
    (hr : operands.read (s.bump .operator) = (e, t)) : t.current.left < s.current.left := by
  have hle := operands.left_read_le (s.bump .operator)
  rw [hr] at hle
  exact Nat.lt_of_le_of_lt hle (left_bump_lt (kind_ne_eof_of_operator? h) _)

def chainFrom (level : Level) (operands : PullReader) (left : Expr) (s : PullState) :
    Expr × PullState :=
  match _h : s.operator? level with
  | none => (left, s)
  | some op =>
    match _hr : operands.read (s.bump .operator) with
    | (some right, t) => chainFrom level operands (.binary op left right) t
    | (none, t) =>
      let skipped := t.skip level
      chainFrom level operands (.broken (left.span.extend skipped.1) op left) skipped.2
termination_by s.current.left
decreasing_by
  · exact left_read_lt _h _hr
  · exact Nat.lt_of_le_of_lt (left_skipFrom_le level none t) (left_read_lt _h _hr)

theorem left_chainFrom_le (level : Level) (operands : PullReader) (left : Expr)
    (s : PullState) : (chainFrom level operands left s).2.current.left ≤ s.current.left := by
  fun_induction chainFrom level operands left s with
  | case1 => exact Nat.le_refl _
  | case2 left s op hop right t hr ih =>
    exact Nat.le_of_lt (Nat.lt_of_le_of_lt ih (left_read_lt hop hr))
  | case3 left s op hop t hr skipped ih =>
    have hskip : skipped.2.current.left ≤ t.current.left := left_skipFrom_le level none t
    have hread := left_read_lt hop hr
    omega

def readChain (level : Level) (operands : PullReader) (s : PullState) :
    Option Expr × PullState :=
  match operands.read s with
  | (none, t) => (none, t)
  | (some left, t) =>
    let result := chainFrom level operands left t
    (some result.1, result.2)

theorem left_readChain_le (level : Level) (operands : PullReader) (s : PullState) :
    (readChain level operands s).2.current.left ≤ s.current.left := by
  have hle := operands.left_read_le s
  unfold readChain
  split
  · simp_all
  · rename_i left t h
    rw [h] at hle
    exact Nat.le_trans (left_chainFrom_le ..) hle

def chain (level : Level) (operands : PullReader) : PullReader :=
  ⟨readChain level operands, left_readChain_le level operands⟩

def operand : PullReader := ⟨PullState.operand, left_operand_le⟩

def product : PullReader := chain .product operand

def value : PullReader := chain .sum product

end PullReader

namespace PullState

def assigned (s : PullState) : Option Expr × PullState :=
  if s.kind = .assign then PullReader.value.read (s.bump .sign) else (none, s.reject .assign)

def assignment (target : Ident) (s : PullState) : Assignment × PullState :=
  match s.assigned with
  | (some value, t) => (.complete target value, t)
  | (none, t) =>
    let skipped := t.skip .assignment
    (.failed target skipped.1, skipped.2)

/-- One pass of the loop over the statements: an assignment, or a stray token and all that is
skipped behind it. -/
def statement (s : PullState) : Option Assignment × PullState :=
  match s.current.token?.bind Token.target? with
  | some target =>
    let result := (s.bump .target).assignment target
    (some result.1, result.2)
  | none => (none, ((s.reject .ident).skip .assignment).2)

variable {s t : PullState}

theorem left_assigned_le (s : PullState) : s.assigned.2.current.left ≤ s.current.left := by
  unfold assigned
  split
  · rename_i h
    have hlt := left_bump_lt (s := s) (by rw [h]; simp) .sign
    have hle := PullReader.value.left_read_le (s.bump .sign)
    omega
  · exact Nat.le_refl _

theorem left_assignment_le (target : Ident) (s : PullState) :
    (s.assignment target).2.current.left ≤ s.current.left := by
  have hle := left_assigned_le s
  unfold assignment
  split
  · simp_all
  · rename_i t h
    rw [h] at hle
    exact Nat.le_trans (left_skipFrom_le ..) hle

/-- A token that starts no statement is skipped. -/
theorem skip_of_stray (h : s.kind ≠ .eof) (htarget : s.current.token?.bind Token.target? = none) :
    (s.reject .ident).skip .assignment = ((s.reject .ident).bump .skipped).skipFrom .assignment
      (some (Span.join none s.span)) := by
  obtain ⟨r, next, hs⟩ := exists_token h
  have hstop : Level.assignment.stopsAt (s.reject .ident).kind = false := by
    rw [hs] at htarget
    change Level.assignment.stopsAt s.kind = false
    rw [kind, hs]
    exact Token.stopsAt_of_target?_eq_none htarget
  rw [skip, skipFrom, dif_neg (by simp [hstop])]
  rfl

theorem left_statement_lt (h : s.kind ≠ .eof) :
    s.statement.2.current.left < s.current.left := by
  unfold statement
  split
  · exact Nat.lt_of_le_of_lt (left_assignment_le ..) (left_bump_lt h _)
  · rename_i htarget
    change ((s.reject .ident).skip .assignment).2.current.left < (s.reject .ident).current.left
    rw [skip_of_stray h htarget]
    exact Nat.lt_of_le_of_lt (left_skipFrom_le ..) (left_bump_lt h .skipped)

def statements (passed : List Assignment) (s : PullState) : List Assignment × PullState :=
  if _h : s.kind = .eof then (passed.reverse, s)
  else statements (s.statement.1.toList ++ passed) s.statement.2
termination_by s.current.left
decreasing_by exact left_statement_lt _h

def run (text : Text) : List Assignment × PullState := (ofText text).statements []

def parse (text : Text) : Parsed :=
  ⟨⟨⟨{}, (run text).2.span.stop⟩, (run text).1⟩, (run text).2.log.reverse⟩

end PullState

theorem TokenStream.collect_append (passed more : List Reading) (c : Cursor) :
    collect (passed ++ more) c =
      { collect passed c with readings := more.reverse ++ (collect passed c).readings } := by
  fun_induction collect passed c with
  | case1 passed c position reports hnext =>
    rw [collect_finish hnext, List.reverse_append]
  | case2 passed c r next hnext ih =>
    rw [collect_token hnext, ← List.cons_append]
    exact ih

theorem Step.stream_next (c : Cursor) : c.next.stream = TokenStream.collect [] c := by
  cases hnext : c.next with
  | finish position reports =>
    rw [TokenStream.collect_finish hnext]
    rfl
  | token r next =>
    rw [TokenStream.collect_token hnext]
    exact (TokenStream.collect_append [] [r] next).symm

namespace PullState

variable {s t u : PullState} {r : Reading} {next : Cursor}

def state (s : PullState) : ParseState :=
  ⟨s.current.stream.readings, s.current.stream.finish, s.current.stream.closing, s.log⟩

theorem kind_state (s : PullState) : s.state.kind = s.kind := by
  unfold kind state
  cases s.current <;> rfl

theorem span_state (s : PullState) : s.state.span = s.span := by
  unfold span state
  cases s.current <;> rfl

theorem operator?_state (level : Level) (s : PullState) :
    s.state.operator? level = s.operator? level := by
  rw [ParseState.operator?, kind_state, operator?]

theorem head?_state {α : Type} (f : Token → Option α) (s : PullState) :
    s.state.ahead.head?.bind (f ·.token) = s.current.token?.bind f := by
  unfold state
  cases s.current <;> rfl

theorem ahead_state (hs : s.current = .token r next) :
    s.state.ahead = r :: (TokenStream.collect [] next).readings := by
  rw [state, hs]
  rfl

theorem ahead_state_eq_nil_iff : s.state.ahead = [] ↔ s.kind = .eof := by
  constructor
  · intro h
    rw [← kind_state, ParseState.kind, h]
  · intro h
    cases hs : s.current with
    | token r next =>
      rw [kind, hs] at h
      exact absurd h (Terminal.kind_ne_eof r.token.terminal)
    | finish position reports =>
      rw [state, hs]
      rfl

theorem state_reject (wanted : TokenKind) (s : PullState) :
    (s.reject wanted).state = s.state.reject wanted := by
  rw [ParseState.reject, span_state, kind_state]
  rfl

theorem arrive_stream (step : Step) (log : List Diagnostic) :
    ParseState.arrive ⟨step.stream.readings, step.stream.finish, step.stream.closing, log⟩ =
      ⟨step.stream.readings, step.stream.finish, step.stream.closing,
        step.reports.reverse ++ log⟩ := by
  cases step <;> rfl

theorem state_ofText (text : Text) : (ofText text).state = .ofStream (.ofText text) := by
  have harrive := arrive_stream (Cursor.next { rest := text }) []
  rw [List.append_nil] at harrive
  rw [ParseState.ofStream, TokenStream.ofText, ← Step.stream_next, harrive]
  rfl

/-- Asking for the next token brings the scan on as consuming the token does. -/
theorem state_bump (h : s.kind ≠ .eof) (role : Role) :
    (s.bump role).state = s.state.advance := by
  obtain ⟨r, next, hs⟩ := exists_token h
  have hadvance : s.state.advance = ParseState.arrive ⟨next.next.stream.readings,
      next.next.stream.finish, next.next.stream.closing, s.log⟩ := by
    rw [Step.stream_next, ParseState.advance, ahead_state hs, state, hs]
    rfl
  rw [hadvance, arrive_stream, bump, hs]
  rfl

/-- A parse on demand goes on in two ways: it consumes the current token, which is not the
end of the text and is a target if it starts a statement, or it complains about it. -/
inductive Pulls (s : PullState) : PullState → Prop
  | refl : Pulls s s
  | bump {t : PullState} (role : Role) (h : Pulls s t) (hend : t.kind ≠ .eof)
      (hrole : t.kind = .leadingIdent → role = .target) : Pulls s (t.bump role)
  | reject {t : PullState} (wanted : TokenKind) (h : Pulls s t) : Pulls s (t.reject wanted)

theorem Pulls.trans (h : Pulls s t) (h' : Pulls t u) : Pulls s u := by
  induction h' with
  | refl => exact h
  | bump role _ hend hrole ih => exact .bump role ih hend hrole
  | reject wanted _ ih => exact .reject wanted ih

/-- Reading over the whole scan and on demand come to the same, by such moves from `s`. -/
structure Agrees {α : Type} (s : PullState) (whole : α × ParseState) (pulled : α × PullState) :
    Prop where
  eq : whole = (pulled.1, pulled.2.state)
  pulls : Pulls s pulled.2

theorem agrees_skipFrom (level : Level) (run : Option Span) (s : PullState) :
    Agrees s (s.state.skipFrom level run) (s.skipFrom level run) := by
  fun_induction skipFrom level run s with
  | case1 run s h => exact ⟨ParseState.skipFrom_of_stopsAt (by rw [kind_state, h]) run, .refl⟩
  | case2 run s h ih =>
    have hend := kind_ne_eof_of_stopsAt h
    obtain ⟨r, next, hs⟩ := exists_token hend
    have hkind : s.kind = r.token.kind := by rw [kind, hs]; rfl
    have hspan : s.span = r.token.span := by rw [span, hs]
    rw [hkind] at h
    have hlead : s.kind ≠ .leadingIdent := by
      intro hlead
      exact h (Recovered.stopsAt_of_leading (hkind.symm.trans hlead) level)
    rw [ParseState.skipFrom_cons (ahead_state hs) (by simpa using h), ← state_bump hend .skipped,
      ← hspan]
    exact ⟨ih.eq, (Pulls.bump .skipped .refl hend fun h => absurd h hlead).trans ih.pulls⟩

theorem agrees_skip (level : Level) (s : PullState) :
    Agrees s (s.state.skip level) (s.skip level) := agrees_skipFrom level none s

theorem kind_ne_leadingIdent_of_operand? {e : Expr}
    (h : s.current.token?.bind Token.operand? = some e) : s.kind ≠ .leadingIdent := by
  obtain ⟨t, ht, he⟩ := Option.bind_eq_some_iff.1 h
  rw [kind, ht]
  intro hlead
  rw [Recovered.operand?_of_leading hlead] at he
  simp at he

theorem agrees_operand (s : PullState) : Agrees s s.state.operand s.operand := by
  cases h : s.current.token?.bind Token.operand? with
  | some e =>
    have hend := kind_ne_eof_of_token? h
    rw [ParseState.operand_of_some ((head?_state _ s).trans h), operand, h]
    exact ⟨by rw [state_bump hend],
      .bump .operand .refl hend fun hlead => absurd hlead (kind_ne_leadingIdent_of_operand? h)⟩
  | none =>
    rw [ParseState.operand_of_none ((head?_state _ s).trans h), operand, h]
    exact ⟨by rw [state_reject], .reject .string .refl⟩

end PullState

namespace PullReader

open PullState

variable {level : Level} {operands : ExprReader} {pulled : PullReader} {s : PullState}

/-- The reader on demand reads what the other one does. -/
def Serves (operands : ExprReader) (pulled : PullReader) : Prop :=
  ∀ s : PullState, Agrees s (operands.read s.state) (pulled.read s)

/-- An operator is consumed, and what is behind it is read alike. -/
theorem Serves.read_bump (h : Serves operands pulled) {op : Operator}
    (hop : s.operator? level = some op) :
    Agrees s (operands.read s.state.advance) (pulled.read (s.bump .operator)) := by
  have hend := kind_ne_eof_of_operator? hop
  have hlead : s.kind ≠ .leadingIdent := by
    intro hlead
    simp [operator?, hlead, TokenKind.operator?] at hop
  have hread := h (s.bump .operator)
  rw [state_bump hend] at hread
  exact ⟨hread.eq, (Pulls.bump .operator .refl hend fun h => absurd h hlead).trans hread.pulls⟩

theorem Serves.chainFrom (h : Serves operands pulled) (level : Level) (left : Expr)
    (s : PullState) : Agrees s (ExprReader.chainFrom level operands left s.state)
      (chainFrom level pulled left s) := by
  fun_induction PullReader.chainFrom level pulled left s with
  | case1 left s hop =>
    exact ⟨ExprReader.chainFrom_of_none ((operator?_state level s).trans hop) left, .refl⟩
  | case2 left s op hop right t hr ih =>
    have hread := h.read_bump hop
    rw [hr] at hread
    rw [ExprReader.chainFrom_join ((operator?_state level s).trans hop) hread.eq]
    exact ⟨ih.eq, hread.pulls.trans ih.pulls⟩
  | case3 left s op hop t hr skipped ih =>
    have hread := h.read_bump hop
    rw [hr] at hread
    have hskip := agrees_skip level t
    rw [ExprReader.chainFrom_broken ((operator?_state level s).trans hop) hread.eq, hskip.eq]
    exact ⟨ih.eq, hread.pulls.trans (hskip.pulls.trans ih.pulls)⟩

theorem Serves.chain (h : Serves operands pulled) (level : Level) :
    Serves (ExprReader.chain level operands) (chain level pulled) := by
  intro s
  have hread := h s
  change Agrees s (ExprReader.readChain level operands s.state) (readChain level pulled s)
  unfold ExprReader.readChain readChain
  rw [hread.eq]
  rcases hp : pulled.read s with ⟨_ | left, t⟩ <;> rw [hp] at hread
  · exact ⟨rfl, hread.pulls⟩
  · have hchain := h.chainFrom level left t
    exact ⟨by simp only [hchain.eq], hread.pulls.trans hchain.pulls⟩

theorem serves_operand : Serves ExprReader.operand operand := agrees_operand

theorem serves_value : Serves ExprReader.value value :=
  (serves_operand.chain .product).chain .sum

end PullReader

namespace PullState

variable {s t : PullState}

theorem agrees_assigned (s : PullState) : Agrees s s.state.assigned s.assigned := by
  unfold ParseState.assigned assigned
  rw [kind_state]
  split
  · rename_i h
    have hend : s.kind ≠ .eof := by rw [h]; simp
    have hvalue := PullReader.serves_value (s.bump .sign)
    rw [state_bump hend] at hvalue
    exact ⟨hvalue.eq, (Pulls.bump .sign .refl hend (by rw [h]; simp)).trans hvalue.pulls⟩
  · exact ⟨by rw [state_reject], .reject .assign .refl⟩

theorem agrees_assignment (target : Ident) (s : PullState) :
    Agrees s (s.state.assignment target) (s.assignment target) := by
  have hassigned := agrees_assigned s
  unfold ParseState.assignment assignment
  rw [hassigned.eq]
  rcases hs : s.assigned with ⟨_ | value, t⟩ <;> rw [hs] at hassigned
  · have hskip := agrees_skip .assignment t
    exact ⟨by simp only [hskip.eq], hassigned.pulls.trans hskip.pulls⟩
  · exact ⟨rfl, hassigned.pulls⟩

theorem statement_of_target {target : Ident}
    (h : s.current.token?.bind Token.target? = some target) :
    s.statement = (some ((s.bump .target).assignment target).1,
      ((s.bump .target).assignment target).2) := by
  rw [statement, h]

theorem statement_of_stray (h : s.current.token?.bind Token.target? = none) :
    s.statement = (none, ((s.reject .ident).skip .assignment).2) := by
  rw [statement, h]

theorem pulls_statement (h : s.kind ≠ .eof) : Pulls s s.statement.2 := by
  cases htarget : s.current.token?.bind Token.target? with
  | some target =>
    rw [statement_of_target htarget]
    exact (Pulls.bump .target .refl h fun _ => rfl).trans (agrees_assignment target _).pulls
  | none =>
    rw [statement_of_stray htarget]
    exact (Pulls.reject .ident .refl).trans (agrees_skip .assignment _).pulls

theorem statements_state (h : s.kind ≠ .eof) (passed : List Assignment) :
    s.state.statements passed =
      s.statement.2.state.statements (s.statement.1.toList ++ passed) := by
  obtain ⟨r, next, hs⟩ := exists_token h
  have htoken : s.current.token?.bind Token.target? = r.token.target? := by rw [hs]; rfl
  cases htarget : r.token.target? with
  | some target =>
    rw [ParseState.statements_target (ahead_state hs) htarget, ← state_bump h .target,
      (agrees_assignment target _).eq, statement_of_target (htoken.trans htarget)]
    rfl
  | none =>
    rw [ParseState.statements_stray (ahead_state hs) htarget, ← state_reject,
      (agrees_skip .assignment _).eq, statement_of_stray (htoken.trans htarget)]
    rfl

theorem agrees_statements (passed : List Assignment) (s : PullState) :
    Agrees s (s.state.statements passed) (s.statements passed) := by
  fun_induction statements passed s with
  | case1 passed s h =>
    exact ⟨ParseState.statements_nil (ahead_state_eq_nil_iff.2 h) passed, .refl⟩
  | case2 passed s h ih =>
    rw [statements_state h]
    exact ⟨ih.eq, (pulls_statement h).trans ih.pulls⟩

theorem kind_statements (passed : List Assignment) (s : PullState) :
    (s.statements passed).2.kind = .eof := by
  fun_induction statements passed s with
  | case1 passed s h => exact h
  | case2 passed s h ih => exact ih

theorem kind_run (text : Text) : (run text).2.kind = .eof := kind_statements [] (ofText text)

theorem ahead_run (text : Text) : (run text).2.state.ahead = [] :=
  ahead_state_eq_nil_iff.2 (kind_run text)

theorem agrees_run (text : Text) :
    Agrees (ofText text) ((ParseState.ofStream (.ofText text)).statements []) (run text) := by
  rw [← state_ofText]
  exact agrees_statements [] _

theorem parse_eq (text : Text) : parse text = File.parse text := by
  have hspan := span_state (run text).2
  rw [ParseState.span, ahead_run] at hspan
  rw [parse, File.parse, (agrees_run text).eq, ← hspan]
  rfl

theorem consumed_bump {r : Reading} {next : Cursor} (h : s.current = .token r next)
    (role : Role) : (s.bump role).consumed = (r.token, role) :: s.consumed := by
  rw [bump, h]
  rfl

/-- Consuming a token is the only way to go on to the next one. -/
theorem Pulls.progress (h : Pulls s t) : (t.current = s.current ∧ t.consumed = s.consumed) ∨
    s.consumed.length < t.consumed.length := by
  induction h with
  | refl => exact .inl ⟨rfl, rfl⟩
  | @bump t role h hend hrole ih =>
    obtain ⟨r, next, ht⟩ := exists_token hend
    right
    rw [consumed_bump ht, List.length_cons]
    rcases ih with ⟨-, hsame⟩ | hlt
    · rw [hsame]; omega
    · omega
  | reject wanted h ih => exact ih

/-- The tokens consumed and those ahead are the given ones, each was asked for once, and of
those consumed every start of a statement was a target. -/
structure Accounted (tokens : List Token) (s : PullState) : Prop where
  order : s.consumed.reverse.map Prod.fst ++ s.state.tokens = tokens
  asked : s.asked = s.consumed.length + 1
  starts : ∀ x ∈ s.consumed, x.1.kind = .leadingIdent → x.2 = .target

theorem accounted_ofText (text : Text) :
    (ofText text).Accounted (TokenStream.ofText text).tokens := by
  refine ⟨?_, rfl, by simp [ofText]⟩
  rw [state_ofText, ParseState.tokens_ofStream]
  rfl

theorem Pulls.accounted {tokens : List Token} (h : Pulls s t) (hs : s.Accounted tokens) :
    t.Accounted tokens := by
  induction h with
  | refl => exact hs
  | @bump t role h hend hrole ih =>
    obtain ⟨r, next, ht⟩ := exists_token hend
    have hkind : t.kind = r.token.kind := by rw [kind, ht]; rfl
    have hconsumed := consumed_bump ht role
    -- the first token ahead becomes the last consumed
    refine ⟨?_, ?_, ?_⟩
    · rw [← ih.order, hconsumed, state_bump hend, ParseState.tokens_advance, ParseState.tokens,
        ahead_state ht]
      simp
    · rw [hconsumed, List.length_cons, ← ih.asked]
      rfl
    · rw [hconsumed, List.forall_mem_cons]
      exact ⟨fun hlead => hrole (hkind.trans hlead), ih.starts⟩
  | reject wanted h ih =>
    refine ⟨?_, ih.asked, ih.starts⟩
    rw [state_reject]
    exact ih.order

theorem accounted_run (text : Text) :
    (run text).2.Accounted (TokenStream.ofText text).tokens :=
  (agrees_run text).pulls.accounted (accounted_ofText text)

theorem consumed_run (text : Text) :
    (run text).2.consumed.reverse.map Prod.fst = (TokenStream.ofText text).tokens := by
  have horder := (accounted_run text).order
  rwa [ParseState.tokens, ahead_run, List.map_nil, List.append_nil] at horder

end PullState

open PullState in
/-- A parse on demand ends with the tree and the reports of a parse over the whole scan. It
ends at the end of the text, which was then asked for once; every other question is answered
by a token, and each token of the text is consumed, in order. Each pass of the loop over the
statements consumes a token, whatever state it starts from. What the scanner has to report
is reported as it would be by a scan alone. -/
theorem parse_on_demand (text : Text) :
    PullState.parse text = File.parse text ∧
      (run text).2.kind = .eof ∧
      (run text).2.asked = (TokenStream.ofText text).kinds.length ∧
      (run text).2.consumed.reverse.map Prod.fst = (TokenStream.ofText text).tokens ∧
      (∀ s : PullState, s.kind = .eof ∨ s.consumed.length < s.statement.2.consumed.length) ∧
      (PullState.parse text).reports.filter (·.cause.isLexical) =
        (TokenStream.ofText text).reports := by
  refine ⟨parse_eq text, kind_run text, ?_, consumed_run text, fun s => ?_, ?_⟩
  · rw [(accounted_run text).asked, TokenStream.kinds, ← consumed_run]
    simp
  · by_cases hend : s.kind = .eof
    · exact .inl hend
    · rcases (pulls_statement hend).progress with ⟨hsame, -⟩ | hlt
      · -- a pass that consumes nothing would stay where it is
        have hleft := left_statement_lt hend
        rw [hsame] at hleft
        exact absurd hleft (Nat.lt_irrefl _)
      · exact .inr hlt
  · rw [parse_eq]
    exact File.lexical_parse text

-- a value that cannot be read is skipped up to the next statement, and eight answers are all
example : ((PullState.run "a := * 1\nb := 2".toList).2.consumed.reverse.map Prod.snd,
    (PullState.run "a := * 1\nb := 2".toList).2.asked) =
      ([.target, .sign, .skipped, .skipped, .target, .sign, .operand], 8) := by
  decide +kernel

end AssignLang
