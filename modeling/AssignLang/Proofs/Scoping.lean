import Mathlib.Data.List.Pairwise
import AssignLang.Proofs.Completion

/-! What a check says about names, by the assignments alone. A name is bound by the last
assignment to it so far, whether that has a value or not, and used if a value behind it
reads the name. Assignments start at different places, so the hints have only one order:
in which order the table of definitions is gone through does not matter. -/

namespace AssignLang

namespace Cause

def isUnknownVariable : Cause → Bool
  | .unknownVariable _ => true
  | _ => false

def isMissingOutput : Cause → Bool
  | .missingOutput _ => true
  | _ => false

def isSemantic : Cause → Bool
  | .unknownVariable _ | .stringOperand _ => true
  | _ => false

end Cause

def Ident.unknownReport (i : Ident) : Diagnostic := ⟨i.span, .unknownVariable i.name⟩

/-- The reference is read, and no assignment before the one that reads it assigns its name. -/
def Unbound (as : List Assignment) (i : Ident) : Prop :=
  ∃ front a behind, as = front ++ a :: behind ∧ i ∈ a.references ∧
    ∀ b ∈ front, b.target.name ≠ i.name

def Definition.isIdle (output : String) (entry : String × Definition) : Bool :=
  !entry.2.used && entry.1 != output

/-- Checks a file, going through its definitions in the order that `iterate` gives. -/
def File.checkIn (iterate : Definitions → List (String × Definition)) (config : Config)
    (file : File) : Checked :=
  let inferred := Definitions.ofAssignments file.assignments
  let unused :=
    if config.reportUnused then
      (unusedSpans config.outputVariable (iterate inferred.definitions)).map
        (⟨·, .unusedDefinition⟩)
    else []
  { inferred with
    reports := inferred.reports ++ file.missingReports config inferred.definitions ++ unused }

theorem File.check_eq_checkIn (config : Config) (file : File) :
    file.check config = file.checkIn Std.TreeMap.toList config := rfl

/-- The entries and reports are what the assignments of the file say. -/
structure Scoped (config : Config) (file : File) (entries : List (String × Definition))
    (reports : List Diagnostic) : Prop where
  nodup : (entries.map Prod.fst).Nodup
  names : ∀ name, name ∈ entries.map Prod.fst ↔ ∃ a ∈ file.assignments, a.target.name = name
  /-- An entry tells of the last assignment to its name, and whether a value behind that one
  reads it. -/
  entry : ∀ name d, (name, d) ∈ entries → ∃ front a behind,
    LastOf name file.assignments front a behind ∧ d.span = a.span ∧
      (d.used = true ↔ ∃ b ∈ behind, ∃ i ∈ b.references, i.name = name)
  /-- The references that are not bound are reported, in the order of the text. -/
  unknown : ∃ idents : List Ident,
    reports.filter (·.cause.isUnknownVariable) = idents.map Ident.unknownReport ∧
      idents.Pairwise (fun i j => i.span.start.offset < j.span.start.offset) ∧
      ∀ i, i ∈ idents ↔ Unbound file.assignments i
  /-- A missing output is reported once, at the last assignment or else at the file. -/
  missing : reports.filter (·.cause.isMissingOutput) =
    if file.assignments.any (·.target.name = config.outputVariable) then []
    else [⟨(file.assignments.getLast?.map Assignment.span).getD file.span,
      .missingOutput config.outputVariable⟩]
  /-- There is a hint for every entry that nothing reads, the output apart, if hints are
  wanted, in the order of the text. -/
  hints : ∃ spans : List Span,
    reports.filter Diagnostic.isHint = spans.map (⟨·, .unusedDefinition⟩) ∧
      spans.Pairwise (fun s t => s.start.offset < t.start.offset) ∧
      spans.Perm (if config.reportUnused then
        (entries.filter (Definition.isIdle config.outputVariable)).map (·.2.span) else [])

namespace Definitions

theorem kind?_table_isNone_iff {as : List Assignment} {name : String} :
    ((table as).kind? name).isNone = true ↔ ∀ a ∈ as, a.target.name ≠ name := by
  rw [kind?, Option.isNone_map, Option.isNone_iff_eq_none, getElem?_table_eq_none_iff]

theorem isSemantic_of_mem_complaints {defs : Definitions} {e : Expr} :
    ∀ d ∈ defs.complaints e, d.cause.isSemantic = true := by
  induction e with
  | integer | string => simp [complaints]
  | broken span op left ih => exact ih
  | reference i =>
    rw [complaints, complaintsOf]
    split <;> simp [Cause.isSemantic]
  | operation span op left right ihl ihr =>
    intro d hd
    rw [complaints, List.mem_append, List.mem_append] at hd
    rcases hd with (hd | hd) | hd
    · exact ihl d hd
    · exact ihr d hd
    · rw [complaintsOf] at hd
      split at hd
      · simp at hd
      · rw [List.mem_singleton.1 hd]; rfl

theorem isSemantic_of_mem_tableComplaints {as : List Assignment} :
    ∀ d ∈ tableComplaints as, d.cause.isSemantic = true := by
  intro d hd
  obtain ⟨front, a, behind, -, hd⟩ := exists_of_mem_tableComplaints hd
  rw [valueComplaints] at hd
  cases hvalue : a.value? with
  | none => simp [hvalue] at hd
  | some value =>
    rw [hvalue] at hd
    exact isSemantic_of_mem_complaints d hd

theorem filter_complaints (defs : Definitions) (e : Expr) :
    (defs.complaints e).filter (·.cause.isUnknownVariable) =
      (e.references.filter fun i => (defs.kind? i.name).isNone).map Ident.unknownReport := by
  induction e with
  | integer | string => rfl
  | broken span op left ih => exact ih
  | reference i =>
    rw [complaints, complaintsOf, Expr.references]
    cases hkind : defs.kind? i.name <;>
      simp [hkind, Ident.unknownReport, Cause.isUnknownVariable]
  | operation span op left right ihl ihr =>
    have hown : (defs.complaintsOf (.operation span op left right)).filter
        (·.cause.isUnknownVariable) = [] := by
      rw [complaintsOf]
      split <;> rfl
    rw [complaints, List.filter_append, List.filter_append, ihl, ihr, hown, Expr.references,
      List.filter_append, List.map_append, List.append_nil]

theorem filter_valueComplaints (defs : Definitions) (a : Assignment) :
    (defs.valueComplaints a).filter (·.cause.isUnknownVariable) =
      (a.references.filter fun i => (defs.kind? i.name).isNone).map Ident.unknownReport := by
  rw [valueComplaints, Assignment.references]
  cases a.value? with
  | none => rfl
  | some value => exact filter_complaints defs value

end Definitions

open Definitions

theorem exists_split_concat_iff {P : List Assignment → Assignment → Prop} {as : List Assignment}
    {a : Assignment} :
    (∃ front b behind, as ++ [a] = front ++ b :: behind ∧ P front b) ↔
      (∃ front b behind, as = front ++ b :: behind ∧ P front b) ∨ P as a := by
  constructor
  · rintro ⟨front, b, behind, hsplit, hb⟩
    rcases List.eq_nil_or_concat' behind with rfl | ⟨more, c, rfl⟩
    · obtain ⟨rfl, hlast⟩ := List.append_inj' hsplit rfl
      obtain rfl := List.singleton_injective hlast
      exact .inr hb
    · rw [← List.cons_append, ← List.append_assoc] at hsplit
      obtain ⟨rfl, -⟩ := List.append_inj' hsplit rfl
      exact .inl ⟨front, b, more, rfl, hb⟩
  · rintro (⟨front, b, behind, rfl, hb⟩ | ha)
    · exact ⟨front, b, behind ++ [a], by simp, hb⟩
    · exact ⟨as, a, [], rfl, ha⟩

theorem unbound_concat_iff {as : List Assignment} {a : Assignment} {i : Ident} :
    Unbound (as ++ [a]) i ↔
      Unbound as i ∨ (i ∈ a.references ∧ ∀ b ∈ as, b.target.name ≠ i.name) :=
  exists_split_concat_iff
    (P := fun front b => i ∈ b.references ∧ ∀ c ∈ front, c.target.name ≠ i.name)

/-- The unknown variables are the unbound references, in the order of the values. -/
theorem exists_unknown (as : List Assignment) : ∃ idents : List Ident,
    (tableComplaints as).filter (·.cause.isUnknownVariable) = idents.map Ident.unknownReport ∧
      idents.Sublist (as.flatMap Assignment.references) ∧ ∀ i, i ∈ idents ↔ Unbound as i := by
  induction as using List.reverseRecOn with
  | nil =>
    refine ⟨[], rfl, List.Sublist.refl _, fun i => ⟨by simp, ?_⟩⟩
    rintro ⟨front, a, behind, hsplit, -⟩
    simp at hsplit
  | append_singleton as a ih =>
    obtain ⟨idents, hfilter, hsublist, hmem⟩ := ih
    refine ⟨idents ++ a.references.filter fun i => ((table as).kind? i.name).isNone, ?_, ?_, ?_⟩
    · rw [tableComplaints_concat, List.filter_append, hfilter, filter_valueComplaints,
        List.map_append]
    · rw [List.flatMap_append, List.flatMap_singleton]
      exact hsublist.append List.filter_sublist
    · intro i
      rw [List.mem_append, hmem, List.mem_filter, kind?_table_isNone_iff, unbound_concat_iff]

theorem sublist_idents (as : List Assignment) :
    (as.flatMap Assignment.references).Sublist (as.flatMap Assignment.idents) := by
  induction as with
  | nil => exact List.Sublist.refl _
  | cons a as ih =>
    rw [List.flatMap_cons, List.flatMap_cons]
    exact (List.sublist_cons_self _ _).append ih

theorem File.pairwise_references (text : Text) :
    ((File.parse text).file.assignments.flatMap Assignment.references).Pairwise
      fun i j => i.span.start.offset < j.span.start.offset := by
  have hidents : ((File.parse text).file.assignments.flatMap Assignment.idents).Pairwise
      fun i j => i.span.start.offset < j.span.start.offset := by
    refine (File.pairwise_apart text).imp_of_mem fun {i j} hi _ hapart => ?_
    exact Nat.lt_trans (File.start_lt_stop text hi) hapart
  exact hidents.sublist (sublist_idents _)

theorem File.nonempty_assignment (text : Text) :
    ∀ a ∈ (File.parse text).file.assignments, a.span.start.offset < a.span.stop.offset := by
  have hstatements := Recovered.readStatements_eq_iff.1 (File.read_parse text).1.symm
  obtain ⟨-, hall⟩ := hstatements.placed (TokenStream.row text)
  exact fun a ha => (hall a ha).2.2.1

theorem File.pairwise_start (text : Text) : (File.parse text).file.assignments.Pairwise
    fun a b => a.span.start.offset < b.span.start.offset := by
  refine (File.nested_parse text).1.order.imp_of_mem fun {a b} ha _ hle => ?_
  exact Nat.lt_of_lt_of_le (File.nonempty_assignment text a ha) hle

section Hints

variable {as : List Assignment} {output : String} {entries : List (String × Definition)}

/-- Entries of different names come from assignments that start at different places. -/
theorem start_ne_of_mem_table
    (has : as.Pairwise fun a b => a.span.start.offset < b.span.start.offset)
    {name name' : String} {d d' : Definition} (hd : (table as)[name]? = some d)
    (hd' : (table as)[name']? = some d') (hne : name ≠ name') :
    d.span.start.offset ≠ d'.span.start.offset := by
  obtain ⟨front, a, behind, ⟨hsplit, hname, -⟩, rfl⟩ := getElem?_table_eq_some_iff.1 hd
  obtain ⟨front', a', behind', ⟨hsplit', hname', -⟩, rfl⟩ := getElem?_table_eq_some_iff.1 hd'
  have hsymm : Std.Symm fun a b : Assignment => a.span.start.offset ≠ b.span.start.offset :=
    ⟨fun _ _ h => h.symm⟩
  refine (has.imp Nat.ne_of_lt).forall (a := a) ?_ (b := a') ?_ ?_
  · rw [hsplit]; simp
  · rw [hsplit']; simp
  · rintro rfl
    exact hne (hname.symm.trans hname')

theorem pairwise_entries
    (has : as.Pairwise fun a b => a.span.start.offset < b.span.start.offset)
    (h : entries.Perm (table as).toList) :
    entries.Pairwise fun e f => e.2.span.start.offset ≠ f.2.span.start.offset := by
  have htable : (table as).toList.Pairwise
      fun e f => e.2.span.start.offset ≠ f.2.span.start.offset := by
    refine (Std.TreeMap.distinct_keys_toList (t := table as)).imp_of_mem
      fun {e f} he hf hne => ?_
    rw [Std.TreeMap.mem_toList_iff_getElem?_eq_some] at he hf
    exact start_ne_of_mem_table has he hf fun heq => hne (Std.compare_eq_iff_eq.2 heq)
  exact h.symm.pairwise htable fun h => h.symm

theorem perm_unusedSpans (output : String) (entries : List (String × Definition)) :
    (unusedSpans output entries).Perm
      ((entries.filter (Definition.isIdle output)).map (·.2.span)) :=
  List.mergeSort_perm _ _

theorem pairwise_unusedSpans
    (has : as.Pairwise fun a b => a.span.start.offset < b.span.start.offset)
    (h : entries.Perm (table as).toList) (output : String) :
    (unusedSpans output entries).Pairwise fun s t => s.start.offset < t.start.offset := by
  have hsorted : (unusedSpans output entries).Pairwise
      fun s t => s.start.offset ≤ t.start.offset := by
    refine (List.pairwise_mergeSort ?_ ?_ _).imp of_decide_eq_true
    · intro s t u hst htu
      rw [decide_eq_true_eq] at hst htu ⊢
      exact Nat.le_trans hst htu
    · intro s t
      rw [Bool.or_eq_true, decide_eq_true_eq, decide_eq_true_eq]
      exact Nat.le_total _ _
  have hdistinct : (unusedSpans output entries).Pairwise
      fun s t => s.start.offset ≠ t.start.offset := by
    refine (perm_unusedSpans output entries).symm.pairwise ?_ fun h => h.symm
    rw [List.pairwise_map]
    exact (pairwise_entries has h).sublist List.filter_sublist
  exact hsorted.imp₂ (fun _ _ hle hne => Nat.lt_of_le_of_ne hle hne) hdistinct

theorem unusedSpans_eq
    (has : as.Pairwise fun a b => a.span.start.offset < b.span.start.offset)
    (h : entries.Perm (table as).toList) (output : String) :
    unusedSpans output entries = unusedSpans output (table as).toList := by
  have hperm : (unusedSpans output entries).Perm (unusedSpans output (table as).toList) :=
    (perm_unusedSpans output entries).trans
      (((h.filter _).map _).trans (perm_unusedSpans output _).symm)
  refine hperm.eq_of_pairwise (fun s t _ _ hlt hgt => ?_) (pairwise_unusedSpans has h output)
    (pairwise_unusedSpans has (List.Perm.refl _) output)
  exact absurd hlt (Nat.lt_asymm hgt)

end Hints

section Reports

variable {config : Config} {file : File} {iterate : Definitions → List (String × Definition)}

theorem File.reports_checkIn : (file.checkIn iterate config).reports =
    tableComplaints file.assignments ++ file.missingReports config (table file.assignments) ++
      if config.reportUnused then
        (unusedSpans config.outputVariable (iterate (table file.assignments))).map
          (⟨·, .unusedDefinition⟩)
      else [] := rfl

theorem filter_tableComplaints {p : Cause → Bool}
    (hp : ∀ cause, cause.isSemantic = true → p cause = false) (as : List Assignment) :
    (tableComplaints as).filter (p ·.cause) = [] := by
  rw [List.filter_eq_nil_iff]
  intro d hd
  rw [hp d.cause (isSemantic_of_mem_tableComplaints d hd)]
  simp

theorem File.filter_reports {p : Cause → Bool}
    (hp : ∀ cause, p cause = true → cause.isLexical = false ∧ cause.isExpectation = false)
    (text : Text) : (File.parse text).reports.filter (p ·.cause) = [] := by
  rw [List.filter_eq_nil_iff]
  intro d hd hcause
  obtain ⟨hlexical, hexpectation⟩ := hp d.cause hcause
  rcases cause_of_mem_reports hd with h | h
  · simp [h] at hlexical
  · simp [h] at hexpectation

theorem File.missingReports_eq : file.missingReports config (table file.assignments) =
    if file.assignments.any (·.target.name = config.outputVariable) then []
    else [⟨(file.assignments.getLast?.map Assignment.span).getD file.span,
      .missingOutput config.outputVariable⟩] := by
  have hcontains : (table file.assignments).contains config.outputVariable =
      file.assignments.any (·.target.name = config.outputVariable) := by
    rw [Bool.eq_iff_iff, contains_table_iff]
    simp
  rw [missingReports, hcontains]
  rfl

theorem filter_missingReports (p : Diagnostic → Bool)
    (hp : ∀ span name, p ⟨span, .missingOutput name⟩ = false) (defs : Definitions) :
    (file.missingReports config defs).filter p = [] := by
  rw [File.missingReports]
  split
  · rfl
  · rw [List.filter_singleton, hp]
    rfl

theorem filter_hints (p : Diagnostic → Bool) (hp : ∀ span, p ⟨span, .unusedDefinition⟩ = false)
    (wanted : Bool) (spans : List Span) :
    (if wanted then spans.map (⟨·, .unusedDefinition⟩ : Span → Diagnostic) else []).filter p =
      [] := by
  cases wanted with
  | false => rfl
  | true => simp [hp]

theorem File.filter_isUnknownVariable_checkIn :
    (file.checkIn iterate config).reports.filter (·.cause.isUnknownVariable) =
      (tableComplaints file.assignments).filter (·.cause.isUnknownVariable) := by
  rw [reports_checkIn, List.filter_append, List.filter_append,
    filter_missingReports _ fun _ _ => rfl, filter_hints _ fun _ => rfl, List.append_nil,
    List.append_nil]

theorem File.filter_isMissingOutput_checkIn :
    (file.checkIn iterate config).reports.filter (·.cause.isMissingOutput) =
      file.missingReports config (table file.assignments) := by
  have hcomplaints : (tableComplaints file.assignments).filter (·.cause.isMissingOutput) = [] := by
    refine filter_tableComplaints (fun cause hcause => ?_) file.assignments
    cases cause <;> simp_all [Cause.isSemantic, Cause.isMissingOutput]
  rw [reports_checkIn, List.filter_append, List.filter_append, filter_hints _ fun _ => rfl,
    hcomplaints, missingReports, List.append_nil, List.nil_append]
  split <;> rfl

theorem File.filter_isHint_checkIn :
    (file.checkIn iterate config).reports.filter Diagnostic.isHint =
      (if config.reportUnused then
        unusedSpans config.outputVariable (iterate (table file.assignments))
      else []).map (⟨·, .unusedDefinition⟩) := by
  rw [reports_checkIn, List.filter_append, List.filter_append,
    filter_isHint_eq_nil isError_of_mem_tableComplaints, filter_missingReports _ fun _ _ => rfl,
    List.nil_append, List.nil_append]
  cases config.reportUnused with
  | false => rfl
  | true =>
    refine List.filter_eq_self.2 ?_
    simp [Diagnostic.isHint, Diagnostic.severity, Cause.severity]

end Reports

/-- Whatever order the table is gone through in, a check says the same, and it says what the
assignments do. -/
theorem check_scoped (iterate : Definitions → List (String × Definition))
    (hiterate : ∀ defs : Definitions, (iterate defs).Perm defs.toList) (config : Config)
    (text : Text) :
    ((File.parse text).file.checkIn iterate config).reports =
        ((File.parse text).file.check config).reports ∧
      Scoped config (File.parse text).file
        (iterate ((File.parse text).file.checkIn iterate config).definitions)
        ((File.parse text).file.checkIn iterate config).reports := by
  have has := File.pairwise_start text
  have hreferences := File.pairwise_references text
  generalize (File.parse text).file = file at has hreferences ⊢
  have hperm := hiterate (table file.assignments)
  have hmem : ∀ name d, (name, d) ∈ iterate (table file.assignments) ↔
      (table file.assignments)[name]? = some d := by
    intro name d
    rw [hperm.mem_iff, Std.TreeMap.mem_toList_iff_getElem?_eq_some]
  refine ⟨?_, ?_, ?_, ?_, ?_, ?_, ?_⟩
  · rw [File.check_eq_checkIn, File.reports_checkIn, File.reports_checkIn, unusedSpans_eq has hperm]
  · exact (hperm.map Prod.fst).nodup_iff.2 (by
      rw [Std.TreeMap.map_fst_toList_eq_keys]
      exact Std.TreeMap.nodup_keys)
  · intro name
    change name ∈ (iterate (table file.assignments)).map Prod.fst ↔ _
    rw [← contains_table_iff, Std.TreeMap.contains_eq_isSome_getElem?, Option.isSome_iff_exists]
    simp [← hmem]
  · intro name d hd
    obtain ⟨front, a, behind, hlast, rfl⟩ := getElem?_table_eq_some_iff.1 ((hmem name d).1 hd)
    refine ⟨front, a, behind, hlast, rfl, ?_⟩
    simp [Assignment.reads]
  · obtain ⟨idents, hfilter, hsublist, hunbound⟩ := exists_unknown file.assignments
    exact ⟨idents, File.filter_isUnknownVariable_checkIn.trans hfilter,
      hreferences.sublist hsublist, hunbound⟩
  · rw [File.filter_isMissingOutput_checkIn, File.missingReports_eq]
  · refine ⟨_, File.filter_isHint_checkIn, ?_, ?_⟩
    · cases config.reportUnused with
      | false => exact List.Pairwise.nil
      | true => exact pairwise_unusedSpans has hperm config.outputVariable
    · cases config.reportUnused with
      | false => exact List.Perm.nil
      | true => exact perm_unusedSpans config.outputVariable _

/-- A name assigned twice, read in its own value and by a broken operation, and two entries
that nothing reads, gone through from the back. -/
theorem check_scoped_backwards :
    (∀ defs : Definitions, defs.toList.reverse.Perm defs.toList) ∧
      Scoped {} (File.parse "a := a\nb := 1\na := b + *\nb := 2".toList).file
        (((File.parse "a := a\nb := 1\na := b + *\nb := 2".toList).file.checkIn
          (·.toList.reverse) {}).definitions.toList.reverse)
        ((File.parse "a := a\nb := 1\na := b + *\nb := 2".toList).file.checkIn
          (·.toList.reverse) {}).reports :=
  ⟨fun _ => List.reverse_perm _,
    (check_scoped (·.toList.reverse) (fun _ => List.reverse_perm _) {} _).2⟩

end AssignLang
