import AssignLang.Parse.State

/-! Values. A sum is a chain of products and a product a chain of operands, both
read from the left. An operand that cannot be read breaks only the operation it
belongs to: recovery skips to where the chain can go on. -/

namespace AssignLang

def Token.operand? (t : Token) : Option Expr :=
  match t.terminal with
  | .integer digits => some (.integer t.span digits)
  | .ident name => some (.reference ⟨t.span, name⟩)
  | .string value => some (.string t.span value)
  | .leadingIdent _ | .assign | .operator _ => none

def ParseState.operand (s : ParseState) : Option Expr × ParseState :=
  match s.ahead.head?.bind (·.token.operand?) with
  | some e => (some e, s.advance)
  | none => (none, s.reject .string)

theorem ParseState.length_operand_le (s : ParseState) :
    s.operand.2.ahead.length ≤ s.ahead.length := by
  unfold operand; split <;> simp

/-- A way to read an expression that puts no token back. -/
structure ExprReader where
  read : ParseState → Option Expr × ParseState
  length_read_le : ∀ s, (read s).2.ahead.length ≤ s.ahead.length

namespace ExprReader

/-- Goes on with the operators of the level behind `left`. -/
def chainFrom (level : Level) (operands : ExprReader) (left : Expr) (s : ParseState) :
    Expr × ParseState :=
  match _h : s.operator? level with
  | none => (left, s)
  | some op =>
    match _hr : operands.read s.advance with
    | (some right, t) => chainFrom level operands (.binary op left right) t
    | (none, t) =>
      let skipped := t.skip level
      chainFrom level operands (.broken (left.span.extend skipped.1) op left) skipped.2
termination_by s.ahead.length
decreasing_by
  all_goals
    have hne := List.length_pos_iff.2 (ParseState.ahead_ne_nil_of_operator? _h)
    have hle := operands.length_read_le s.advance
    rw [_hr] at hle
    simp only [ParseState.ahead_advance, List.length_tail] at hle
  · omega
  · have := ParseState.length_skip_le level t
    omega

theorem length_chainFrom_le (level : Level) (operands : ExprReader) (left : Expr)
    (s : ParseState) : (chainFrom level operands left s).2.ahead.length ≤ s.ahead.length := by
  fun_induction chainFrom level operands left s with
  | case1 => exact Nat.le_refl _
  | case2 left s op hop right t hr ih =>
    have := operands.length_read_le s.advance
    simp only [hr, ParseState.ahead_advance, List.length_tail] at this
    omega
  | case3 left s op hop t hr skipped ih =>
    have hle := operands.length_read_le s.advance
    have hskip : skipped.2.ahead.length ≤ _ := ParseState.length_skip_le level t
    simp only [hr, ParseState.ahead_advance, List.length_tail] at hle
    omega

def readChain (level : Level) (operands : ExprReader) (s : ParseState) :
    Option Expr × ParseState :=
  match operands.read s with
  | (none, t) => (none, t)
  | (some left, t) =>
    let result := chainFrom level operands left t
    (some result.1, result.2)

theorem length_readChain_le (level : Level) (operands : ExprReader) (s : ParseState) :
    (readChain level operands s).2.ahead.length ≤ s.ahead.length := by
  have hle := operands.length_read_le s
  unfold readChain
  split
  · simp_all
  · rename_i left t h
    rw [h] at hle
    exact Nat.le_trans (length_chainFrom_le ..) hle

/-- Chains of the level over the operands that a reader reads. -/
def chain (level : Level) (operands : ExprReader) : ExprReader :=
  ⟨readChain level operands, length_readChain_le level operands⟩

def operand : ExprReader := ⟨ParseState.operand, ParseState.length_operand_le⟩

def product : ExprReader := chain .product operand

def value : ExprReader := chain .sum product

end ExprReader

end AssignLang
