import AssignLang.Text.Basic
import AssignLang.Text.Hidden

/-! Text in double quotes, such that everything in it can be seen. -/

namespace AssignLang.Text

def shortEscape? : Char → Option Char
  | '\x00' => some '0'
  | '\t' => some 't'
  | '\n' => some 'n'
  | '\r' => some 'r'
  | '\\' => some '\\'
  | '"' => some '"'
  | _ => none

/-- The visible form of a character; a hidden one is written as its code point. -/
def escape (c : Char) : Text :=
  match shortEscape? c with
  | some letter => ['\\', letter]
  | none =>
    if isHidden c then ['\\', 'u', '\x7b'] ++ Nat.toDigits 16 c.toNat ++ ['\x7d'] else [c]

def quote (text : Text) : Text := '"' :: (text.flatMap escape ++ ['"'])

end AssignLang.Text
