import AssignLang.Analysis
import AssignLang.Text.Edit
import AssignLang.Text.Locate

/-! Edits that settle a hint. -/

namespace AssignLang

structure QuickFix where
  title : String
  span : Span
  replacement : Text
deriving DecidableEq, Repr, Inhabited

def Diagnostic.fix? (d : Diagnostic) : Option QuickFix :=
  match d.cause with
  | .unusedDefinition => some ⟨"Remove unused definition", d.span, []⟩
  | _ => none

/-- The fixes for the hints that overlap a selection. -/
def Analysis.quickFixes (a : Analysis) (selection : Span) : List QuickFix :=
  (a.hints.filter (·.span.overlaps selection)).filterMap Diagnostic.fix?

def quickFixes (text : Text) (selection : Span) : List QuickFix :=
  (analyze {} text).quickFixes selection

namespace QuickFix

/-- The text after the edit; a span that cannot be replaced changes nothing. -/
def apply (fix : QuickFix) (text : Text) : Text :=
  (text.replace? fix.span.start.offset fix.span.stop.offset fix.replacement).getD text

end QuickFix

def Text.wholeSpan (text : Text) : Span := ⟨{}, text.finish⟩

def applyFirstFix (text : Text) : Text :=
  match quickFixes text text.wholeSpan with
  | [] => text
  | fix :: _ => fix.apply text

end AssignLang
