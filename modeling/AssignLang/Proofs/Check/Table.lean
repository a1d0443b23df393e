import Mathlib.Data.List.Induction
import AssignLang.Check
import AssignLang.Proofs.Check.Inference
import AssignLang.Proofs.Relocation

/-! The table of definitions after some assignments. A name is in it exactly if it is
assigned; its entry tells of the last assignment to it, and is used exactly if a value
behind that one reads the name. Moving the assignments elsewhere moves the table. -/

namespace AssignLang

namespace Assignment

def references (a : Assignment) : List Ident := (a.value?.map Expr.references).getD []

def reads (a : Assignment) (name : String) : Bool := a.references.any (·.name = name)

end Assignment

namespace Definitions

/-- The kind that an assignment gives its name. -/
def valueKind (defs : Definitions) (a : Assignment) : Kind :=
  (a.value?.map defs.kindOf).getD .unknown

def valueComplaints (defs : Definitions) (a : Assignment) : List Diagnostic :=
  (a.value?.map defs.complaints).getD []

theorem define_eq (defs : Definitions) (a : Assignment) :
    defs.define a = ⟨defs.valueKind a,
      (defs.markAll a.references).insert a.target.name ⟨a.span, defs.valueKind a, false⟩,
      defs.valueComplaints a⟩ := by
  rw [define, valueKind, valueComplaints, Assignment.references]
  cases a.value? with
  | none => rfl
  | some value => simp [infer_eq]

/-- The definitions after some assignments. -/
def table (as : List Assignment) : Definitions := (ofAssignments as).definitions

def tableComplaints (as : List Assignment) : List Diagnostic := (ofAssignments as).reports

@[simp] theorem tableComplaints_nil : tableComplaints [] = [] := rfl

theorem table_concat (as : List Assignment) (a : Assignment) :
    table (as ++ [a]) = ((table as).markAll a.references).insert a.target.name
      ⟨a.span, (table as).valueKind a, false⟩ := by
  rw [table, ofAssignments, List.foldl_append, List.foldl_cons, List.foldl_nil, Checked.define,
    define_eq]
  rfl

theorem tableComplaints_concat (as : List Assignment) (a : Assignment) :
    tableComplaints (as ++ [a]) = tableComplaints as ++ (table as).valueComplaints a := by
  rw [tableComplaints, ofAssignments, List.foldl_append, List.foldl_cons, List.foldl_nil,
    Checked.define, define_eq]
  exact List.reverse_append.trans (by rw [List.reverse_reverse]; rfl)

theorem getElem?_table_concat (as : List Assignment) (a : Assignment) (name : String) :
    (table (as ++ [a]))[name]? =
      if a.target.name = name then some ⟨a.span, (table as).valueKind a, false⟩
      else (table as)[name]?.map fun d => { d with used := d.used || a.reads name } := by
  rw [table_concat, getElem?_insert, getElem?_markAll]
  rfl

theorem kind?_table_concat (as : List Assignment) (a : Assignment) (name : String) :
    (table (as ++ [a])).kind? name =
      if a.target.name = name then some ((table as).valueKind a) else (table as).kind? name := by
  rw [kind?, getElem?_table_concat, kind?]
  split
  · rfl
  · rw [Option.map_map]; rfl

end Definitions

/-- The assignment `a`, between `front` and `behind`, is the last to `name`. -/
structure LastOf (name : String) (as front : List Assignment) (a : Assignment)
    (behind : List Assignment) : Prop where
  split : as = front ++ a :: behind
  target : a.target.name = name
  last : ∀ b ∈ behind, b.target.name ≠ name

theorem exists_lastOf {name : String} {as : List Assignment} (h : ∃ a ∈ as, a.target.name = name) :
    ∃ front a behind, LastOf name as front a behind := by
  induction as with
  | nil => obtain ⟨a, ha, -⟩ := h; simp at ha
  | cons b as ih =>
    by_cases hmore : ∃ a ∈ as, a.target.name = name
    · obtain ⟨front, a, behind, hsplit, hname, hlast⟩ := ih hmore
      exact ⟨b :: front, a, behind, by rw [hsplit]; rfl, hname, hlast⟩
    · refine ⟨[], b, as, rfl, ?_, fun a ha hname => hmore ⟨a, ha, hname⟩⟩
      obtain ⟨a, ha, hname⟩ := h
      rcases List.mem_cons.1 ha with rfl | ha
      · exact hname
      · exact absurd ⟨a, ha, hname⟩ hmore

namespace Definitions

theorem getElem?_table_of_lastOf {name : String} {as front behind : List Assignment}
    {a : Assignment} (h : LastOf name as front a behind) :
    (table as)[name]? =
      some ⟨a.span, (table front).valueKind a, behind.any (·.reads name)⟩ := by
  obtain ⟨rfl, rfl, hlast⟩ := h
  induction behind using List.reverseRecOn with
  | nil => rw [getElem?_table_concat, if_pos rfl]; rfl
  | append_singleton behind b ih =>
    have hne := hlast b (List.mem_append_right _ (List.mem_singleton_self b))
    have hlast' : ∀ c ∈ behind, c.target.name ≠ a.target.name :=
      fun c hc => hlast c (List.mem_append_left _ hc)
    rw [← List.cons_append, ← List.append_assoc, getElem?_table_concat, if_neg hne, ih hlast']
    simp

theorem getElem?_table_eq_none_iff {name : String} {as : List Assignment} :
    (table as)[name]? = none ↔ ∀ a ∈ as, a.target.name ≠ name := by
  constructor
  · intro h a ha hname
    obtain ⟨front, b, behind, hlast⟩ := exists_lastOf ⟨a, ha, hname⟩
    rw [getElem?_table_of_lastOf hlast] at h
    simp at h
  · intro h
    induction as using List.reverseRecOn with
    | nil => rfl
    | append_singleton as a ih =>
      rw [getElem?_table_concat, if_neg (h a (by simp)),
        ih fun b hb => h b (List.mem_append_left _ hb)]
      rfl

/-- The entries of the table tell of the last assignments. -/
theorem getElem?_table_eq_some_iff {name : String} {as : List Assignment} {d : Definition} :
    (table as)[name]? = some d ↔ ∃ front a behind, LastOf name as front a behind ∧
      d = ⟨a.span, (table front).valueKind a, behind.any (·.reads name)⟩ := by
  constructor
  · intro h
    have hassigned : ∃ a ∈ as, a.target.name = name := by
      by_contra hnone
      have hnone' : ∀ a ∈ as, a.target.name ≠ name := fun a ha hname => hnone ⟨a, ha, hname⟩
      rw [getElem?_table_eq_none_iff.2 hnone'] at h
      simp at h
    obtain ⟨front, a, behind, hlast⟩ := exists_lastOf hassigned
    rw [getElem?_table_of_lastOf hlast] at h
    exact ⟨front, a, behind, hlast, (Option.some.inj h).symm⟩
  · rintro ⟨front, a, behind, hlast, rfl⟩
    exact getElem?_table_of_lastOf hlast

end Definitions

section Relocation

variable (f : Relocation)

def Definition.relocate (d : Definition) : Definition := { d with span := d.span.relocate f }

def Diagnostic.relocate (d : Diagnostic) : Diagnostic := { d with span := d.span.relocate f }

theorem Expr.references_relocate (e : Expr) :
    (e.relocate f).references = e.references.map (Ident.relocate f) := by
  induction e with
  | integer | string | reference => rfl
  | operation span op left right ihl ihr =>
    rw [relocate, references, references, ihl, ihr, List.map_append]
  | broken span op left ih => exact ih

theorem Assignment.reads_relocate (a : Assignment) (name : String) :
    (a.relocate f).reads name = a.reads name := by
  obtain ⟨target, span, value⟩ := a
  cases value with
  | none => rfl
  | some value =>
    change (value.relocate f).references.any _ = value.references.any _
    rw [Expr.references_relocate, List.any_map]
    rfl

namespace Definitions

theorem kindOf_relocate (defs : Definitions) (e : Expr) :
    defs.kindOf (e.relocate f) = defs.kindOf e := by
  induction e with
  | integer | string | reference | broken => rfl
  | operation span op left right ihl ihr => rw [Expr.relocate, kindOf, kindOf, ihl, ihr]

theorem complaints_relocate (defs : Definitions) (e : Expr) :
    defs.complaints (e.relocate f) = (defs.complaints e).map (Diagnostic.relocate f) := by
  induction e with
  | integer | string => rfl
  | broken span op left ih => exact ih
  | reference ident =>
    rw [Expr.relocate, complaints, complaints, complaintsOf, complaintsOf, Ident.relocate]
    split <;> rfl
  | operation span op left right ihl ihr =>
    rw [Expr.relocate, complaints, complaints, ihl, ihr, complaintsOf, complaintsOf,
      kindOf_relocate, kindOf_relocate, List.map_append, List.map_append]
    split <;> rfl

theorem valueKind_relocate {defs defs' : Definitions} (h : defs.kind? = defs'.kind?)
    (a : Assignment) : defs.valueKind (a.relocate f) = defs'.valueKind a := by
  obtain ⟨target, span, value⟩ := a
  cases value with
  | none => rfl
  | some value =>
    exact (kindOf_relocate f defs value).trans (kindOf_congr fun ident _ => by rw [h])

theorem valueComplaints_relocate {defs defs' : Definitions} (h : defs.kind? = defs'.kind?)
    (a : Assignment) :
    defs.valueComplaints (a.relocate f) =
      (defs'.valueComplaints a).map (Diagnostic.relocate f) := by
  obtain ⟨target, span, value⟩ := a
  cases value with
  | none => rfl
  | some value =>
    have hvalue : defs.complaints value = defs'.complaints value :=
      complaints_congr fun ident _ => by rw [h]
    exact (complaints_relocate f defs value).trans (by rw [hvalue]; rfl)

theorem getElem?_table_relocate (as : List Assignment) (name : String) :
    (table (as.map (Assignment.relocate f)))[name]? =
      (table as)[name]?.map (Definition.relocate f) := by
  induction as using List.reverseRecOn generalizing name with
  | nil => rfl
  | append_singleton as a ih =>
    have hkinds : (table (as.map (Assignment.relocate f))).kind? = (table as).kind? := by
      funext other
      rw [kind?, ih, Option.map_map]
      rfl
    have htarget : (a.relocate f).target.name = a.target.name := rfl
    rw [List.map_append, List.map_singleton, getElem?_table_concat, getElem?_table_concat, ih,
      Assignment.reads_relocate, valueKind_relocate f hkinds, htarget]
    by_cases hname : a.target.name = name
    · rw [if_pos hname, if_pos hname]; rfl
    · rw [if_neg hname, if_neg hname, Option.map_map, Option.map_map]; rfl

theorem kind?_table_relocate (as : List Assignment) :
    (table (as.map (Assignment.relocate f))).kind? = (table as).kind? := by
  funext name
  rw [kind?, getElem?_table_relocate, Option.map_map]
  rfl

theorem tableComplaints_relocate (as : List Assignment) :
    tableComplaints (as.map (Assignment.relocate f)) =
      (tableComplaints as).map (Diagnostic.relocate f) := by
  induction as using List.reverseRecOn with
  | nil => rfl
  | append_singleton as a ih =>
    rw [List.map_append, List.map_singleton, tableComplaints_concat, tableComplaints_concat, ih,
      valueComplaints_relocate f (kind?_table_relocate f as), List.map_append]

end Definitions

end Relocation

end AssignLang
