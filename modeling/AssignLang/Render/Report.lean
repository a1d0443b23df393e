import AssignLang.Diagnostic
import AssignLang.Render.Glyphs
import AssignLang.Render.Line
import AssignLang.Text.Lines

/-! Notices as they are shown on a terminal: the message, and the lines that the
notice is about in a frame, with the region underlined and labelled. -/

namespace AssignLang

def repeated (n : Nat) (s : String) : String := String.join (List.replicate n s)

def blanks (n : Nat) : String := repeated n " "

/-- A region with its label, drawn on lines whose numbers take `digits` columns. -/
structure Drawing where
  glyphs : Glyphs
  region : Region
  label : String
  digits : Nat
  /-- Some line draws the region in the gutter, so that all lines leave room. -/
  hasGutter : Bool

namespace Drawing

def lineGutter (d : Drawing) (l : SourceLine) : String :=
  if !d.hasGutter then ""
  else if !l.needsGutter d.region then blanks 4
  else if l.start ≤ d.region.start then
    d.glyphs.topLeft ++ d.glyphs.horizontal ++ d.glyphs.rightArrow ++ " "
  else if l.start ≤ d.region.stop && d.region.stop ≤ l.stop then
    d.glyphs.leftCross ++ d.glyphs.horizontal ++ d.glyphs.rightArrow ++ " "
  else if l.stop < d.region.stop then d.glyphs.vertical ++ blanks 3
  else blanks 4

def rowGutter (d : Drawing) (l : SourceLine) : String :=
  if !d.hasGutter then ""
  else if l.needsGutter d.region then d.glyphs.vertical ++ blanks 3
  else blanks 4

def rowMargin (d : Drawing) : String :=
  " " ++ blanks d.digits ++ " " ++ d.glyphs.verticalBreak ++ " "

def source (d : Drawing) (l : SourceLine) : String :=
  let number := toString l.number
  " " ++ blanks (d.digits - number.length) ++ number ++ " " ++ d.glyphs.vertical ++ " " ++
    d.lineGutter l ++ String.ofList (Text.expandTabs l.content) ++ "\n"

/-- The rows of the label. One line stands at the end of an arm. The first of several
stands behind a bar that a shorter arm leads to, and the bar goes down along the
others. -/
def labelRows (d : Drawing) (arm shortArm : Nat) : List String :=
  match (Text.lines d.label.toList).map String.ofList with
  | [] => []
  | [line] => [d.glyphs.bottomLeft ++ repeated arm d.glyphs.horizontal ++ " " ++ line]
  | line :: more =>
    (d.glyphs.bottomLeft ++ repeated shortArm d.glyphs.horizontal ++ d.glyphs.rightCross ++ " " ++
      line) :: more.map fun l => blanks (shortArm + 1) ++ d.glyphs.vertical ++ " " ++ l

def underlined (d : Drawing) (l : SourceLine) : String :=
  let (first, behind) := l.columns d.region
  let middle := (first + behind) / 2
  let fork := if d.region.length = 0 then d.glyphs.upArrow else d.glyphs.underlineFork
  d.rowMargin ++ d.rowGutter l ++ blanks first ++ repeated (middle - first) d.glyphs.underline ++
    fork ++ repeated (behind - middle - 1) d.glyphs.underline ++ "\n" ++
  String.join ((d.labelRows 2 1).map fun row =>
    d.rowMargin ++ d.rowGutter l ++ blanks middle ++ row ++ "\n")

def closed (d : Drawing) : String :=
  String.join ((d.labelRows 4 2).map fun row => d.rowMargin ++ row ++ "\n")

def line (d : Drawing) (l : SourceLine) : String :=
  d.source l ++
    if !l.meets d.region then ""
    else if l.holds d.region then d.underlined l
    else if d.region.start < l.start && l.start ≤ d.region.stop && d.region.stop ≤ l.stop then
      d.closed
    else ""

def frame (d : Drawing) (place : String) (lines : List SourceLine) : String :=
  blanks (d.digits + 2) ++ d.glyphs.topLeft ++ d.glyphs.horizontal ++ "[" ++ place ++ "]\n" ++
    String.join (lines.map d.line) ++
    blanks (d.digits + 2) ++ d.glyphs.bottomLeft ++ repeated 4 d.glyphs.horizontal ++ "\n"

end Drawing

def snippet (glyphs : Glyphs) (name : String) (page : Page) (region : Region)
    (label : String) : String :=
  match Window.around? page region with
  | none =>
    "  [Failed to read contents for label `" ++ label ++ "` (offset: " ++
      toString region.start ++ ", length: " ++ toString region.length ++ "): OutOfBounds]\n"
  | some window =>
    let lines := SourceLine.ofWindow window
    let digits := (toString ((lines.getLast?.map (·.number)).getD 0)).length
    let hasGutter := lines.any fun l => !l.holds region && l.needsGutter region
    let place := name ++ ":" ++ toString (window.line + 1) ++ ":" ++ toString (window.column + 1)
    Drawing.frame ⟨glyphs, region, label, digits, hasGutter⟩ place lines

namespace Notice

def region (n : Notice) : Region := ⟨n.span.start.offset, n.span.length⟩

def help (n : Notice) : String :=
  if n.code? = some Cause.unusedDefinitionCode then
    "  help: remove the assignment or read the variable\n"
  else ""

def mark (glyphs : Glyphs) (n : Notice) : String :=
  match n.severity with
  | .error => glyphs.errorMark
  | .hint => glyphs.hintMark

/-- The message, line by line without the blanks at their ends. The first line stands
behind the mark, the others behind a bar. -/
def heading (glyphs : Glyphs) (n : Notice) : String :=
  let row (lead : String) (line : Text) := "  " ++ lead ++ " " ++ String.ofList line.trimEnd ++ "\n"
  match Text.lines n.message.toList with
  | [] => ""
  | line :: more => row (n.mark glyphs) line ++ String.join (more.map (row glyphs.vertical))

def render (glyphs : Glyphs) (name : String) (page : Page) (n : Notice) : String :=
  n.heading glyphs ++
    snippet glyphs name page n.region (n.code?.getD "here") ++ n.help

end Notice

def renderAll (glyphs : Glyphs) (name : String) (text : Text) (notices : List Notice) : String :=
  let page := Page.ofText text
  String.join (notices.map (·.render glyphs name page))

end AssignLang
