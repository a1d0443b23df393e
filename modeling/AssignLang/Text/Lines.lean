import AssignLang.Text.Basic

/-! Texts of several lines that are set out row by row. -/

namespace AssignLang.Text

/-- The lines of a text, which newlines divide. There is at least one. -/
def lines : Text → List Text
  | [] => [[]]
  | c :: cs =>
    if c = '\n' then [] :: lines cs
    else match lines cs with
      | [] => [[c]]
      | line :: more => (c :: line) :: more

theorem lines_ne_nil (text : Text) : lines text ≠ [] := by
  cases text with
  | nil => simp [lines]
  | cons c cs =>
    unfold lines
    split
    · simp
    · split <;> simp

def trimEnd (text : Text) : Text := (text.reverse.dropWhile (· = ' ')).reverse

end AssignLang.Text
