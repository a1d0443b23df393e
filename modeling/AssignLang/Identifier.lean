import AssignLang.Text.Basic

/-! Identifiers are made of ASCII letters, digits and underscores and do not
start with a digit. -/

namespace AssignLang.Identifier

def isStart (c : Char) : Bool := c.isAlpha || c = '_'

def isPart (c : Char) : Bool := c.isAlphanum || c = '_'

def isValid : Text → Bool
  | [] => false
  | c :: cs => isStart c && cs.all isPart

theorem isPart_of_isStart {c : Char} (h : isStart c = true) : isPart c = true := by
  simp only [isStart, isPart, Char.isAlphanum, Bool.or_eq_true] at h ⊢
  rcases h with h | h
  · exact .inl (.inl h)
  · exact .inr h

end AssignLang.Identifier
