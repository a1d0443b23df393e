import AssignLang.Proofs.Typing

/-! Definitions that nothing reads. The hints of an analysis are about the assignments
whose names are neither read nor assigned again behind them. Without such an assignment
all other names keep their kinds, and no complaint is added. -/

namespace AssignLang

/-- Nothing behind `a` reads its name or assigns it again, and it is not the output. -/
structure Unused (output : String) (as front : List Assignment) (a : Assignment)
    (behind : List Assignment) : Prop where
  split : as = front ++ a :: behind
  last : ∀ b ∈ behind, b.target.name ≠ a.target.name
  unread : ∀ b ∈ behind, b.reads a.target.name = false
  inner : a.target.name ≠ output

open Definitions

theorem mem_unusedSpans_iff {output : String} {as : List Assignment} {span : Span} :
    span ∈ unusedSpans output (table as).toList ↔
      ∃ front a behind, Unused output as front a behind ∧ span = a.span := by
  simp only [unusedSpans, List.mem_mergeSort, List.mem_map, List.mem_filter, Prod.exists,
    Std.TreeMap.mem_toList_iff_getElem?_eq_some, Bool.and_eq_true, Bool.not_eq_true', bne_iff_ne]
  constructor
  · rintro ⟨name, d, ⟨hd, hused, hname⟩, rfl⟩
    obtain ⟨front, a, behind, hlast, rfl⟩ := getElem?_table_eq_some_iff.1 hd
    obtain ⟨hsplit, rfl, hlast⟩ := hlast
    refine ⟨front, a, behind, ⟨hsplit, hlast, fun b hb => ?_, hname⟩, rfl⟩
    exact Bool.eq_false_iff.2 (List.any_eq_false.1 hused b hb)
  · rintro ⟨front, a, behind, ⟨hsplit, hlast, hunread, hname⟩, rfl⟩
    have hd := getElem?_table_of_lastOf ⟨hsplit, rfl, hlast⟩
    refine ⟨a.target.name, _, ⟨hd, ?_, hname⟩, rfl⟩
    rw [List.any_eq_false]
    exact fun b hb => Bool.eq_false_iff.1 (hunread b hb)

theorem filter_isHint_eq_nil {ds : List Diagnostic} (h : ∀ d ∈ ds, d.isError = true) :
    ds.filter Diagnostic.isHint = [] := by
  rw [List.filter_eq_nil_iff]
  intro d hd hhint
  have herror := h d hd
  simp only [Diagnostic.isError, Diagnostic.isHint, decide_eq_true_eq] at herror hhint
  rw [herror] at hhint
  simp at hhint

theorem hints_analyze (config : Config) (text : Text) : (analyze config text).hints =
    File.unusedReports config (table (File.parse text).file.assignments) := by
  have hmissing : ∀ d ∈ (File.parse text).file.missingReports config
      (table (File.parse text).file.assignments), d.isError = true := by
    intro d hd
    rw [File.missingReports] at hd
    split at hd
    · simp at hd
    · rw [List.mem_singleton.1 hd]; rfl
  have hunused : ∀ d ∈ File.unusedReports config (table (File.parse text).file.assignments),
      d.isHint = true := by
    intro d hd
    rw [File.unusedReports] at hd
    split at hd
    · obtain ⟨span, -, rfl⟩ := List.mem_map.1 hd
      rfl
    · simp at hd
  change ((File.parse text).reports ++ (tableComplaints (File.parse text).file.assignments ++
    (File.parse text).file.missingReports config (table (File.parse text).file.assignments) ++
    File.unusedReports config (table (File.parse text).file.assignments))).filter _ = _
  rw [List.filter_append, List.filter_append, List.filter_append,
    filter_isHint_eq_nil File.isError_of_mem_reports,
    filter_isHint_eq_nil isError_of_mem_tableComplaints, filter_isHint_eq_nil hmissing,
    List.filter_eq_self.2 hunused]
  rfl

theorem mem_hints_iff {config : Config} {text : Text} {d : Diagnostic} :
    d ∈ (analyze config text).hints ↔ config.reportUnused = true ∧ ∃ front a behind,
      Unused config.outputVariable (File.parse text).file.assignments front a behind ∧
      d = ⟨a.span, .unusedDefinition⟩ := by
  rw [hints_analyze, File.unusedReports]
  by_cases hreport : config.reportUnused = true
  · rw [if_pos hreport, List.mem_map]
    constructor
    · rintro ⟨span, hspan, rfl⟩
      obtain ⟨front, a, behind, hunused, rfl⟩ := mem_unusedSpans_iff.1 hspan
      exact ⟨hreport, front, a, behind, hunused, rfl⟩
    · rintro ⟨-, front, a, behind, hunused, rfl⟩
      exact ⟨a.span, mem_unusedSpans_iff.2 ⟨front, a, behind, hunused, rfl⟩, rfl⟩
  · simp [hreport]

theorem diagnostics_eq_nil {a : Analysis} (herrors : a.hasErrors = false) (hhints : a.hints = []) :
    a.diagnostics = [] := by
  rw [List.eq_nil_iff_forall_not_mem]
  intro d hd
  have herror := List.any_eq_false.1 herrors d hd
  have hhint := List.filter_eq_nil_iff.1 hhints d hd
  revert herror hhint
  cases hseverity : d.severity <;> simp [Diagnostic.isError, Diagnostic.isHint, hseverity]

section Removal

variable {front behind : List Assignment} {a : Assignment}

theorem kind?_of_reads {defs defs' : Definitions} {name : String} {b : Assignment} {value : Expr}
    (hagree : ∀ other, other ≠ name → defs.kind? other = defs'.kind? other)
    (hvalue : b.value? = some value) (hunread : b.reads name = false) :
    ∀ ident ∈ value.references, defs.kind? ident.name = defs'.kind? ident.name := by
  intro ident hident
  apply hagree
  intro heq
  rw [Assignment.reads, Assignment.references, hvalue, List.any_eq_false] at hunread
  exact hunread ident hident (by simpa using heq)

/-- A name that is not read behind its assignment decides no other kind. -/
theorem kind?_table_remove (hunread : ∀ b ∈ behind, b.reads a.target.name = false)
    {name : String} (hname : name ≠ a.target.name) :
    (table (front ++ behind)).kind? name = (table (front ++ a :: behind)).kind? name := by
  induction behind using List.reverseRecOn generalizing name with
  | nil => rw [List.append_nil, kind?_table_concat, if_neg hname.symm]
  | append_singleton behind b ih =>
    have hbehind : ∀ c ∈ behind, c.reads a.target.name = false :=
      fun c hc => hunread c (List.mem_append_left _ hc)
    have hkind : (table (front ++ behind)).valueKind b =
        (table (front ++ a :: behind)).valueKind b := by
      rw [valueKind, valueKind]
      cases hvalue : b.value? with
      | none => rfl
      | some value =>
        have hb := hunread b (List.mem_append_right _ (List.mem_singleton_self b))
        exact kindOf_congr (kind?_of_reads (fun other hother => ih hbehind hother) hvalue hb)
    rw [← List.append_assoc, ← List.cons_append, ← List.append_assoc, kind?_table_concat,
      kind?_table_concat, hkind, ih hbehind hname]

theorem tableComplaints_remove (hunread : ∀ b ∈ behind, b.reads a.target.name = false) :
    (tableComplaints (front ++ behind)).Sublist (tableComplaints (front ++ a :: behind)) := by
  induction behind using List.reverseRecOn with
  | nil =>
    rw [List.append_nil, tableComplaints_concat]
    exact List.sublist_append_left _ _
  | append_singleton behind b ih =>
    have hbehind : ∀ c ∈ behind, c.reads a.target.name = false :=
      fun c hc => hunread c (List.mem_append_left _ hc)
    have hcomplaints : (table (front ++ behind)).valueComplaints b =
        (table (front ++ a :: behind)).valueComplaints b := by
      rw [valueComplaints, valueComplaints]
      cases hvalue : b.value? with
      | none => rfl
      | some value =>
        have hb := hunread b (List.mem_append_right _ (List.mem_singleton_self b))
        exact complaints_congr (kind?_of_reads
          (fun other hother => kind?_table_remove hbehind hother) hvalue hb)
    rw [← List.append_assoc, ← List.cons_append, ← List.append_assoc, tableComplaints_concat,
      tableComplaints_concat, hcomplaints]
    exact (ih hbehind).append (List.Sublist.refl _)

end Removal

section Forget

variable {as bs : List Assignment}

theorem kind?_table_of_forget
    (h : as.map (Assignment.relocate .forget) = bs.map (Assignment.relocate .forget)) :
    (table as).kind? = (table bs).kind? := by
  rw [← kind?_table_relocate .forget as, h, kind?_table_relocate]

theorem tableComplaints_of_forget
    (h : as.map (Assignment.relocate .forget) = bs.map (Assignment.relocate .forget)) :
    tableComplaints as = [] ↔ tableComplaints bs = [] := by
  rw [← List.map_eq_nil_iff (f := Diagnostic.relocate .forget), ← tableComplaints_relocate, h,
    tableComplaints_relocate, List.map_eq_nil_iff]

theorem Assignment.name_of_forget {a b : Assignment}
    (h : a.relocate .forget = b.relocate .forget) : a.target.name = b.target.name := by
  have hname : (a.relocate .forget).target.name = (b.relocate .forget).target.name := by rw [h]
  exact hname

theorem Assignment.reads_of_forget {a b : Assignment}
    (h : a.relocate .forget = b.relocate .forget) (name : String) :
    a.reads name = b.reads name := by
  rw [← reads_relocate .forget a, h, reads_relocate]

/-- Fewer assignments behind, or the same elsewhere, leave a definition unused. -/
theorem Unused.of_forget {output : String} {front front' behind behind' : List Assignment}
    {a a' : Assignment} (h : Unused output as front a behind)
    (ha : a'.relocate .forget = a.relocate .forget)
    (hbehind : ∀ c ∈ behind', ∃ b ∈ behind, c.relocate .forget = b.relocate .forget) :
    Unused output (front' ++ a' :: behind') front' a' behind' := by
  have hname := Assignment.name_of_forget ha
  refine ⟨rfl, fun c hc => ?_, fun c hc => ?_, ?_⟩
  · obtain ⟨b, hb, hcb⟩ := hbehind c hc
    rw [Assignment.name_of_forget hcb, hname]
    exact h.last b hb
  · obtain ⟨b, hb, hcb⟩ := hbehind c hc
    rw [Assignment.reads_of_forget hcb, hname]
    exact h.unread b hb
  · rw [hname]
    exact h.inner

end Forget

end AssignLang
