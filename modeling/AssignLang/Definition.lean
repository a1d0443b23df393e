import Std.Data.TreeMap
import AssignLang.Kind
import AssignLang.Span

/-! What is known about the names assigned so far. The table is ordered by name,
and an assignment replaces what an earlier one said about its name. -/

namespace AssignLang

structure Definition where
  span : Span
  kind : Kind
  /-- Some value behind the assignment reads the name. -/
  used : Bool := false
deriving DecidableEq, Repr, Inhabited

abbrev Definitions := Std.TreeMap String Definition

end AssignLang
