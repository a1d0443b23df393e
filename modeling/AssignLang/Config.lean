import AssignLang.Identifier

/-! What a user can set. -/

namespace AssignLang

structure Config where
  /-- The variable that holds the program's output. It must be assigned, and need
  not be read. -/
  outputVariable : String := "message"
  /-- Whether definitions that nothing reads are pointed out. -/
  reportUnused : Bool := true
deriving DecidableEq, Repr, Inhabited

def Config.isValid (c : Config) : Bool := Identifier.isValid c.outputVariable.toList

end AssignLang
