import AssignLang.Render.Window
import AssignLang.Text.Width

/-! The lines inside a window, and how a region lies to each of them. A carriage
return by itself does not end a line here: it is shown. -/

namespace AssignLang

structure SourceLine where
  number : Nat
  start : Nat
  size : Nat
  content : Text
deriving DecidableEq, Repr, Inhabited

namespace SourceLine

/-- Splits a text into lines; `line` is the one being read, its content with the
last character first, and `passed` are those before, the last first. A line that no
newline ends has the next number, but the same one if a carriage return ends it. -/
def splitFrom (passed : List SourceLine) (line : SourceLine) : Text → List SourceLine
  | [] =>
    if line.size = 0 then passed.reverse
    else
      let number := if line.content.head? = some '\r' then line.number else line.number + 1
      ({ line with number, content := line.content.reverse } :: passed).reverse
  | '\r' :: '\n' :: rest =>
    splitFrom (⟨line.number + 1, line.start, line.size + 2, line.content.reverse⟩ :: passed)
      ⟨line.number + 1, line.start + line.size + 2, 0, []⟩ rest
  | c :: rest =>
    if c = '\n' then
      splitFrom (⟨line.number + 1, line.start, line.size + 1, line.content.reverse⟩ :: passed)
        ⟨line.number + 1, line.start + line.size + 1, 0, []⟩ rest
    else
      splitFrom passed
        { line with size := line.size + c.utf8Size, content := c :: line.content } rest

def ofWindow (w : Window) : List SourceLine :=
  splitFrom [] ⟨w.linesBefore, w.start, 0, []⟩ w.text

def stop (l : SourceLine) : Nat := l.start + l.size

def holds (l : SourceLine) (r : Region) : Bool := l.start ≤ r.start && r.stop ≤ l.stop

def holdsStart (l : SourceLine) (r : Region) : Bool := l.start ≤ r.start && r.start < l.stop

/-- The region, taken as at least a byte, ends in this line. -/
def holdsStop (l : SourceLine) (r : Region) : Bool :=
  let stop := r.start + max r.length 1
  l.start < stop && stop ≤ l.stop

def isCovered (l : SourceLine) (r : Region) : Bool :=
  r.start < l.start && l.stop < r.start + max r.length 1

def meets (l : SourceLine) (r : Region) : Bool :=
  l.holdsStart r || l.isCovered r || l.holdsStop r

def needsGutter (l : SourceLine) (r : Region) : Bool :=
  l.meets r && !(l.holdsStart r && l.holdsStop r)

/-- Walks over so many bytes of a text and gives the column behind them; `up` says
whether a character that is cut counts. Behind the end there is one more column. -/
def columnFrom (up : Bool) (k : Text.Caret) : Nat → Text → Nat
  | bytes, [] => if bytes = 0 then k.column else k.column + 1
  | bytes, c :: rest =>
    if bytes < (if up then 1 else c.utf8Size) then k.column
    else columnFrom up (k.advance c) (bytes - c.utf8Size) rest

def columns (l : SourceLine) (r : Region) : Nat × Nat :=
  let first := columnFrom false {} (r.start - l.start) l.content
  let behind :=
    if r.length = 0 then first + 1
    else max (columnFrom true {} (r.stop - l.start) l.content) (first + 1)
  (first, behind)

end SourceLine

end AssignLang
