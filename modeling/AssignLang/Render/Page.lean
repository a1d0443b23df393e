import AssignLang.Text.Basic

/-! A text laid out in lines. A line ends in a newline, in a carriage return, or in
both. The lines are in arrays, so that a place far down is found quickly. -/

namespace AssignLang

/-- The offsets of the first and the last byte of a line's end. -/
structure LineBreak where
  first : Nat
  last : Nat
deriving DecidableEq, Repr, Inhabited

structure Page where
  breaks : Array LineBreak := #[]
  /-- The lines with their ends, in order. The last one has no end. -/
  lines : Array Text := #[]
  size : Nat := 0
deriving DecidableEq, Repr, Inhabited

namespace Page

/-- Closes a line, given with the last character first, by an end of so many bytes. -/
def addLine (p : Page) (line : Text) (bytes : Nat) : Page where
  breaks := p.breaks.push ⟨p.size, p.size + bytes - 1⟩
  lines := p.lines.push line.reverse
  size := p.size + bytes

def layFrom (p : Page) (line : Text) : Text → Page
  | [] => { p with lines := p.lines.push line.reverse }
  | '\r' :: '\n' :: rest => layFrom (p.addLine ('\n' :: '\r' :: line) 2) [] rest
  | c :: rest =>
    if c = '\n' ∨ c = '\r' then layFrom (p.addLine (c :: line) 1) [] rest
    else layFrom { p with size := p.size + c.utf8Size } (c :: line) rest

def ofText (text : Text) : Page := layFrom {} [] text

/-- How many line ends from `low` on, and below `high`, satisfy a condition which those
in front satisfy and those behind do not. -/
def countFrom (p : Page) (condition : LineBreak → Bool) (low high : Nat) : Nat :=
  if low < high then
    let middle := (low + high) / 2
    if p.breaks[middle]?.any condition then p.countFrom condition (middle + 1) high
    else p.countFrom condition low middle
  else low
termination_by high - low

def count (p : Page) (condition : LineBreak → Bool) : Nat :=
  p.countFrom condition 0 p.breaks.size

def lineStart (p : Page) : Nat → Nat
  | 0 => 0
  | line + 1 => (p.breaks[line]?.map (·.last + 1)).getD 0

def lineStop (p : Page) (line : Nat) : Nat := (p.breaks[line]?.map (·.first)).getD p.size

def text (p : Page) (first behind : Nat) : Text := (p.lines.extract first behind).toList.flatten

end Page

end AssignLang
