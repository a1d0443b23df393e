import AssignLang.Text.Basic
import AssignLang.Text.Wide
import AssignLang.Text.ZeroWidth

/-! The columns that characters take on a row of a terminal. A tab reaches to the
next multiple of four columns. A control sequence, from the escape character to the
next `m`, takes no column, whatever stands in it. -/

namespace AssignLang.Text

/-- The columns that a character takes wherever it stands. One sign is a ligature as
long as three. -/
def charWidth (c : Char) : Nat :=
  if isZeroWidth c then 0
  else if isWide c then 2
  else if c = '\u17d8' then 3 else 1

def tabWidth : Nat := 4

structure Caret where
  column : Nat := 0
  inSequence : Bool := false
deriving DecidableEq, Repr, Inhabited

namespace Caret

def advance (k : Caret) (c : Char) : Caret :=
  if k.inSequence then { k with inSequence := c ≠ 'm' }
  else if c = '\x1b' then { k with inSequence := true }
  else if c = '\t' then { k with column := k.column + (tabWidth - k.column % tabWidth) }
  else { k with column := k.column + charWidth c }

end Caret

/-- Walks over the text, with blanks in the place of tabs; `passed` is the text so
far, the last character first. -/
def expandFrom (passed : Text) (k : Caret) : Text → Text
  | [] => passed.reverse
  | c :: cs =>
    let next := k.advance c
    let shown := if c = '\t' then List.replicate (next.column - k.column) ' ' else [c]
    expandFrom (shown ++ passed) next cs

def expandTabs (text : Text) : Text := expandFrom [] {} text

end AssignLang.Text
