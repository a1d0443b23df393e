/-! The characters that frames, gutters and underlines are drawn with. -/

namespace AssignLang

structure Glyphs where
  horizontal : String
  vertical : String
  verticalBreak : String
  upArrow : String
  rightArrow : String
  topLeft : String
  bottomLeft : String
  leftCross : String
  rightCross : String
  underline : String
  /-- The spot of the underline that the label hangs from. -/
  underlineFork : String
  errorMark : String
  hintMark : String
deriving DecidableEq, Repr, Inhabited

namespace Glyphs

def box : Glyphs where
  horizontal := "─"
  vertical := "│"
  verticalBreak := "·"
  upArrow := "▲"
  rightArrow := "▶"
  topLeft := "╭"
  bottomLeft := "╰"
  leftCross := "├"
  rightCross := "┤"
  underline := "─"
  underlineFork := "┬"
  errorMark := "×"
  hintMark := "☞"

def ascii : Glyphs where
  horizontal := "-"
  vertical := "|"
  verticalBreak := ":"
  upArrow := "^"
  rightArrow := ">"
  topLeft := ","
  bottomLeft := "`"
  leftCross := "|"
  rightCross := "|"
  underline := "^"
  underlineFork := "|"
  errorMark := "x"
  hintMark := ">"

end Glyphs

end AssignLang
