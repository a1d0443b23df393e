import AssignLang.Parse.Value

/-! Files. An identifier opens an assignment; anything else is reported and
skipped up to the next statement. Parsing always gives a tree. -/

namespace AssignLang

def Token.target? (t : Token) : Option Ident :=
  match t.terminal with
  | .ident name | .leadingIdent name => some ⟨t.span, name⟩
  | .integer _ | .string _ | .assign | .operator _ => none

theorem Token.stopsAt_of_target?_eq_none {t : Token} (h : t.target? = none) :
    Level.assignment.stopsAt t.kind = false := by
  unfold Token.target? at h
  unfold Token.kind
  split at h <;> simp_all [Terminal.kind, Level.stopsAt]

namespace ParseState

def assigned (s : ParseState) : Option Expr × ParseState :=
  if s.kind = .assign then ExprReader.value.read s.advance else (none, s.reject .assign)

def assignment (target : Ident) (s : ParseState) : Assignment × ParseState :=
  match s.assigned with
  | (some value, t) => (.complete target value, t)
  | (none, t) =>
    let skipped := t.skip .assignment
    (.failed target skipped.1, skipped.2)

theorem length_assigned_le (s : ParseState) :
    s.assigned.2.ahead.length ≤ s.ahead.length := by
  unfold assigned
  split
  · have := ExprReader.value.length_read_le s.advance
    simp only [ahead_advance, List.length_tail] at this
    omega
  · simp

theorem length_assignment_le (target : Ident) (s : ParseState) :
    (s.assignment target).2.ahead.length ≤ s.ahead.length := by
  have := length_assigned_le s
  unfold assignment
  split
  · simp_all
  · rename_i t h
    rw [h] at this
    exact Nat.le_trans (length_skip_le ..) this

/-- Reads statements up to the end; `passed` are those so far, the last first. -/
def statements (passed : List Assignment) (s : ParseState) : List Assignment × ParseState :=
  match _h : s.ahead with
  | [] => (passed.reverse, s)
  | r :: _ =>
    match _ht : r.token.target? with
    | some target =>
      let result := s.advance.assignment target
      statements (result.1 :: passed) result.2
    | none => statements passed ((s.reject .ident).skip .assignment).2
termination_by s.ahead.length
decreasing_by
  · have := length_assignment_le target s.advance
    simp only [ahead_advance, _h, List.tail_cons] at this
    simp only [_h, List.length_cons]
    omega
  · exact length_skip_lt (s := s.reject .ident) _h (Token.stopsAt_of_target?_eq_none _ht)

theorem ahead_statements (passed : List Assignment) (s : ParseState) :
    (s.statements passed).2.ahead = [] := by
  fun_induction statements passed s with
  | case1 passed s h => exact h
  | case2 passed s r rest h target ht result ih => exact ih
  | case3 passed s r rest h ht ih => exact ih

end ParseState

structure Parsed where
  file : File
  reports : List Diagnostic
deriving DecidableEq, Repr, Inhabited

def File.parse (text : Text) : Parsed :=
  let result := (ParseState.ofStream (.ofText text)).statements []
  ⟨⟨⟨{}, result.2.finish⟩, result.1⟩, result.2.log.reverse⟩

end AssignLang
