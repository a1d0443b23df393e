import AssignLang.Position

/-! From byte offsets to points and from lines and characters to byte offsets.
Both clamp: whatever is asked for, the answer is a character boundary. -/

namespace AssignLang.Text

def walkTo (offset : Nat) (p : Position) : Text → Position
  | [] => p
  | c :: cs => if offset < p.offset + c.utf8Size then p else walkTo offset (p.advance c) cs

/-- The point at a byte offset. An offset inside a character goes back to its
start, one past the end goes to the end. -/
def positionAt (text : Text) (offset : Nat) : Position := walkTo offset {} text

def walkColumns (offset : Nat) : Nat → Text → Nat
  | 0, _ => offset
  | _ + 1, [] => offset
  | n + 1, c :: cs => if c = '\n' then offset else walkColumns (offset + c.utf8Size) n cs

def walkLines (character offset : Nat) : Nat → Text → Nat
  | _, [] => offset
  | 0, c :: cs => walkColumns offset character (c :: cs)
  | line + 1, c :: cs =>
    if c = '\n' then walkLines character (offset + c.utf8Size) line cs
    else walkLines character (offset + c.utf8Size) (line + 1) cs

/-- The byte offset of a line and a character. A character past the end of its
line goes to the line's end, a line past the last one to the text's end. -/
def offsetAt (text : Text) (line character : Nat) : Nat := walkLines character 0 line text

def finish (text : Text) : Position := Position.after {} text

end AssignLang.Text
