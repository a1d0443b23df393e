import AssignLang.Check.Inference
import AssignLang.Config

/-! Checking a file: one pass over its assignments infers every value, then a
missing output variable is reported, and then, in the order of the text, the
definitions that nothing reads. -/

namespace AssignLang

structure Checked where
  definitions : Definitions
  reports : List Diagnostic

/-- Defines one more assignment; the reports are kept with the last first. -/
def Checked.define (c : Checked) (a : Assignment) : Checked :=
  let result := c.definitions.define a
  ⟨result.definitions, result.reports.reverse ++ c.reports⟩

def Definitions.ofAssignments (assignments : List Assignment) : Checked :=
  let result := assignments.foldl Checked.define ⟨∅, []⟩
  { result with reports := result.reports.reverse }

/-- The spans of the entries that nothing reads, in the order of the text. The
output variable is not among them. -/
def unusedSpans (output : String) (entries : List (String × Definition)) : List Span :=
  let unused := entries.filter fun (name, d) => !d.used && name != output
  (unused.map (·.2.span)).mergeSort fun s t => s.start.offset ≤ t.start.offset

namespace File

def missingSpan (file : File) : Span := (file.assignments.getLast?.map (·.span)).getD file.span

def missingReports (config : Config) (file : File) (definitions : Definitions) :
    List Diagnostic :=
  if definitions.contains config.outputVariable then []
  else [⟨file.missingSpan, .missingOutput config.outputVariable⟩]

def unusedReports (config : Config) (definitions : Definitions) : List Diagnostic :=
  if config.reportUnused then
    (unusedSpans config.outputVariable definitions.toList).map (⟨·, .unusedDefinition⟩)
  else []

def check (config : Config) (file : File) : Checked :=
  let inferred := Definitions.ofAssignments file.assignments
  { inferred with
    reports := inferred.reports ++ file.missingReports config inferred.definitions ++
      unusedReports config inferred.definitions }

end File

end AssignLang
