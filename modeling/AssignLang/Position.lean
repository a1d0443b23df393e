import AssignLang.Text.Basic

/-! Points of a source text. A point knows its byte offset, its line and its
character within the line, all counted from zero. Two points are compared by
offset alone; line and character only travel along. -/

namespace AssignLang

structure Position where
  offset : Nat := 0
  line : Nat := 0
  character : Nat := 0
deriving DecidableEq, Repr, Inhabited

namespace Position

/-- The point right behind `c`, when `c` stands at `p`. -/
def advance (p : Position) (c : Char) : Position :=
  if c = '\n' then ⟨p.offset + c.utf8Size, p.line + 1, 0⟩
  else ⟨p.offset + c.utf8Size, p.line, p.character + 1⟩

def after (p : Position) (text : Text) : Position := text.foldl advance p

/-- The point that comes first; of two points at one offset it is `p`. -/
def earlier (p q : Position) : Position := if q.offset < p.offset then q else p

/-- The point that comes last; of two points at one offset it is `q`. -/
def later (p q : Position) : Position := if q.offset < p.offset then p else q

@[simp] theorem offset_advance (p : Position) (c : Char) :
    (p.advance c).offset = p.offset + c.utf8Size := by
  unfold advance; split <;> rfl

@[simp] theorem after_nil (p : Position) : p.after [] = p := rfl

@[simp] theorem after_cons (p : Position) (c : Char) (cs : Text) :
    p.after (c :: cs) = (p.advance c).after cs := rfl

@[simp] theorem after_append (p : Position) (s t : Text) :
    p.after (s ++ t) = (p.after s).after t := List.foldl_append

@[simp] theorem offset_after (p : Position) (text : Text) :
    (p.after text).offset = p.offset + Text.size text := by
  induction text generalizing p with
  | nil => simp
  | cons c cs ih => simp [ih, Nat.add_assoc]

@[simp] theorem offset_earlier (p q : Position) :
    (p.earlier q).offset = min p.offset q.offset := by
  unfold earlier; split <;> omega

@[simp] theorem offset_later (p q : Position) : (p.later q).offset = max p.offset q.offset := by
  unfold later; split <;> omega

end Position

end AssignLang
