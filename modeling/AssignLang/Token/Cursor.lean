import AssignLang.Position
import AssignLang.Text.Whitespace

/-! A cursor is the part of a text that is still to be read, with the point
where it starts. Blanks and `//` comments stand between tokens and say nothing;
a comment ends before its newline. -/

namespace AssignLang

structure Cursor where
  position : Position := {}
  rest : Text
deriving DecidableEq, Repr, Inhabited

namespace Cursor

/-- Walks over blanks and comments; `comment` says whether it is inside one. -/
def walkTrivia (comment : Bool) (p : Position) : Text → Cursor
  | [] => ⟨p, []⟩
  | c :: cs =>
    if comment then walkTrivia (c ≠ '\n') (p.advance c) cs
    else if Text.isWhitespace c then walkTrivia false (p.advance c) cs
    else if c = '/' ∧ cs.head? = some '/' then walkTrivia true (p.advance c) cs
    else ⟨p, c :: cs⟩

def skipTrivia (c : Cursor) : Cursor := walkTrivia false c.position c.rest

theorem length_walkTrivia_le (comment : Bool) (p : Position) (text : Text) :
    (walkTrivia comment p text).rest.length ≤ text.length := by
  induction text generalizing comment p with
  | nil => simp [walkTrivia]
  | cons c cs ih =>
    simp only [walkTrivia]
    split
    · exact Nat.le_succ_of_le (ih _ _)
    · split
      · exact Nat.le_succ_of_le (ih _ _)
      · split
        · exact Nat.le_succ_of_le (ih _ _)
        · exact Nat.le_refl _

theorem length_skipTrivia_le (c : Cursor) : c.skipTrivia.rest.length ≤ c.rest.length :=
  length_walkTrivia_le _ _ _

end Cursor

def Text.startsAssign (text : Text) : Bool :=
  [':', '='].isPrefixOf (Cursor.walkTrivia false {} text).rest

end AssignLang
