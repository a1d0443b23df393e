import AssignLang.Check
import AssignLang.Parse.File

/-! The whole analysis of a text. -/

namespace AssignLang

structure Analysis where
  file : File
  definitions : Definitions
  /-- Errors and hints, in the order in which they were reported. -/
  diagnostics : List Diagnostic

namespace Analysis

def errors (a : Analysis) : List Diagnostic := a.diagnostics.filter Diagnostic.isError

def hints (a : Analysis) : List Diagnostic := a.diagnostics.filter Diagnostic.isHint

def hasErrors (a : Analysis) : Bool := a.diagnostics.any Diagnostic.isError

end Analysis

def analyze (config : Config) (text : Text) : Analysis :=
  let parsed := File.parse text
  let checked := parsed.file.check config
  ⟨parsed.file, checked.definitions, parsed.reports ++ checked.reports⟩

end AssignLang
