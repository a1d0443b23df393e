import AssignLang.Render.Page

/-! The part of a text that is shown around a region: its lines, with one more on
either side. -/

namespace AssignLang

structure Region where
  start : Nat
  length : Nat
deriving DecidableEq, Repr, Inhabited

namespace Region

def stop (r : Region) : Nat := r.start + r.length

/-- The offset of the region's last byte; an empty region has the one before it. -/
def last (r : Region) : Nat := r.stop - 1

end Region

structure Window where
  start : Nat
  text : Text
  linesBefore : Nat
  line : Nat
  /-- The bytes in front of the region on that line. -/
  column : Nat
deriving DecidableEq, Repr, Inhabited

/-- The window around a region. There is none for a region that ends more than a
byte behind the text. -/
def Window.around? (page : Page) (r : Region) : Option Window :=
  if page.size < r.last then none
  else
    let line := page.count (·.last < r.start)
    let lastLine := page.count (·.first ≤ r.last)
    some {
      start := page.lineStart (line - 1)
      text := page.text (line - 1) (lastLine + 2)
      linesBefore := line - 1
      line := line
      column := min r.start (page.lineStop line) - page.lineStart line }

end AssignLang
