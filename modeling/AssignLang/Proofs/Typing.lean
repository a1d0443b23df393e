import AssignLang.Analysis
import AssignLang.Proofs.Check.Table
import AssignLang.Proofs.Grammar

/-! The typing of values by rules, and what it means that an analysis finds no error. The
kinds are those of the rules wherever the rules give one, and unknown elsewhere; on a tree
without gaps an unknown kind always goes back to a complaint. -/

namespace AssignLang

/-- The value has the kind, with the assignments `before` in front of it. -/
inductive HasKind : List Assignment → Expr → Kind → Prop
  | integer (before : List Assignment) (span : Span) (digits : String) :
      HasKind before (.integer span digits) .integer
  | string (before : List Assignment) (span : Span) (value : String) :
      HasKind before (.string span value) .string
  | reference {before front behind : List Assignment} {a : Assignment} {ident : Ident}
      {value : Expr} {kind : Kind} (hlast : LastOf ident.name before front a behind)
      (hvalue : a.value? = some value) (h : HasKind front value kind) :
      HasKind before (.reference ident) kind
  | sum {before : List Assignment} {left right : Expr} {k l : Kind} (span : Span)
      (hleft : HasKind before left k) (hright : HasKind before right l) :
      HasKind before (.operation span .add left right)
        (if k = .string ∨ l = .string then .string else .integer)
  | arithmetic {before : List Assignment} {left right : Expr} {op : Operator} (span : Span)
      (hop : op ≠ .add) (hleft : HasKind before left .integer)
      (hright : HasKind before right .integer) :
      HasKind before (.operation span op left right) .integer

/-- Every assignment has a value, which has a kind under the assignments before it. -/
def WellKinded (as : List Assignment) : Prop :=
  ∀ front a behind, as = front ++ a :: behind →
    ∃ value kind, a.value? = some value ∧ HasKind front value kind

namespace Operator

theorem resultKind?_known_iff {op : Operator} {k l : Kind} :
    (op.resultKind? k l).getD .unknown ≠ .unknown ↔
      k ≠ .unknown ∧ l ≠ .unknown ∧ (op.resultKind? k l).isSome = true := by
  cases op <;> cases k <;> cases l <;> decide

theorem resultKind?_arithmetic_iff {op : Operator} {k l : Kind} (hop : op ≠ .add)
    (hk : k ≠ .unknown) (hl : l ≠ .unknown) :
    (op.resultKind? k l).isSome = true ↔ k = .integer ∧ l = .integer := by
  revert hop hk hl
  cases op <;> cases k <;> cases l <;> decide

theorem resultKind?_add {k l : Kind} (hk : k ≠ .unknown) (hl : l ≠ .unknown) :
    resultKind? .add k l = some (if k = .string ∨ l = .string then .string else .integer) := by
  rw [resultKind?, if_neg (not_or.2 ⟨hk, hl⟩)]

theorem resultKind?_integer {op : Operator} (hop : op ≠ .add) :
    op.resultKind? .integer .integer = some .integer := by
  revert hop
  cases op <;> decide

end Operator

namespace Definitions

theorem kind?_of_lastOf {name : String} {as front behind : List Assignment} {a : Assignment}
    (h : LastOf name as front a behind) :
    (table as).kind? name = some ((table front).valueKind a) := by
  rw [kind?, getElem?_table_of_lastOf h]
  rfl

theorem valueKind_of_some {defs : Definitions} {a : Assignment} {value : Expr}
    (h : a.value? = some value) : defs.valueKind a = defs.kindOf value := by
  rw [valueKind, h]
  rfl

theorem kindOf_of_hasKind {as : List Assignment} {e : Expr} {kind : Kind}
    (h : HasKind as e kind) : (table as).kindOf e = kind ∧ kind ≠ .unknown := by
  induction h with
  | integer | string => exact ⟨rfl, by decide⟩
  | reference hlast hvalue _ ih =>
    refine ⟨?_, ih.2⟩
    rw [kindOf, kind?_of_lastOf hlast, valueKind_of_some hvalue, ih.1]
    rfl
  | @sum _ _ _ k l _ _ _ ihl ihr =>
    refine ⟨?_, by split <;> decide⟩
    rw [kindOf, ihl.1, ihr.1, Operator.resultKind?_add ihl.2 ihr.2]
    rfl
  | arithmetic _ hop _ _ ihl ihr =>
    refine ⟨?_, by decide⟩
    rw [kindOf, ihl.1, ihr.1, Operator.resultKind?_integer hop]
    rfl

theorem hasKind_of_kindOf {as : List Assignment} {e : Expr}
    (h : (table as).kindOf e ≠ .unknown) : HasKind as e ((table as).kindOf e) := by
  -- a reference leads to fewer assignments, an operation to smaller operands
  induction hn : as.length using Nat.strongRecOn generalizing as e with
  | ind n ihn =>
    subst hn
    induction e with
    | integer span digits => exact .integer as span digits
    | string span value => exact .string as span value
    | broken => exact absurd rfl h
    | reference ident =>
      cases hentry : (table as)[ident.name]? with
      | none => exact absurd (by rw [kindOf, kind?, hentry]; rfl) h
      | some d =>
        obtain ⟨front, a, behind, hlast, -⟩ := getElem?_table_eq_some_iff.1 hentry
        rw [kindOf, kind?_of_lastOf hlast, Option.getD_some] at h ⊢
        cases hvalue : a.value? with
        | none => rw [valueKind, hvalue] at h; exact absurd rfl h
        | some value =>
          rw [valueKind_of_some hvalue] at h ⊢
          have hlength : front.length < as.length := by
            rw [hlast.split, List.length_append, List.length_cons]
            omega
          exact .reference hlast hvalue (ihn front.length hlength h rfl)
    | operation span op left right ihl ihr =>
      obtain ⟨hl, hr, hsome⟩ := Operator.resultKind?_known_iff.1 h
      have hleft := ihl hl
      have hright := ihr hr
      by_cases hop : op = .add
      · subst hop
        rw [kindOf, Operator.resultKind?_add hl hr]
        exact .sum span hleft hright
      · obtain ⟨hkl, hkr⟩ := (Operator.resultKind?_arithmetic_iff hop hl hr).1 hsome
        rw [kindOf, hkl, hkr, Operator.resultKind?_integer hop]
        rw [hkl] at hleft
        rw [hkr] at hright
        exact .arithmetic span hop hleft hright

theorem isError_of_mem_complaints {defs : Definitions} {e : Expr} :
    ∀ d ∈ defs.complaints e, d.isError = true := by
  induction e with
  | integer | string => simp [complaints]
  | broken span op left ih => exact ih
  | reference ident =>
    intro d hd
    rw [complaints, complaintsOf] at hd
    split at hd
    · simp at hd
    · rw [List.mem_singleton.1 hd]; rfl
  | operation span op left right ihl ihr =>
    intro d hd
    rw [complaints, complaintsOf] at hd
    rcases List.mem_append.1 hd with hd | hd
    · rcases List.mem_append.1 hd with hd | hd
      · exact ihl d hd
      · exact ihr d hd
    · split at hd
      · simp at hd
      · rw [List.mem_singleton.1 hd]; rfl

theorem isError_of_mem_tableComplaints {as : List Assignment} :
    ∀ d ∈ tableComplaints as, d.isError = true := by
  induction as using List.reverseRecOn with
  | nil => simp
  | append_singleton as a ih =>
    intro d hd
    rw [tableComplaints_concat] at hd
    rcases List.mem_append.1 hd with hd | hd
    · exact ih d hd
    · rw [valueComplaints] at hd
      cases hvalue : a.value? with
      | none => rw [hvalue] at hd; simp at hd
      | some value => rw [hvalue] at hd; exact isError_of_mem_complaints d hd

/-- Where the table and the tree have no gaps, an unknown kind has been complained about. -/
theorem complaints_eq_nil_iff {defs : Definitions} (hdefs : ∀ name, defs.kind? name ≠ some .unknown)
    {e : Expr} (he : ∀ node ∈ e.postorder, node.isBroken = false) :
    defs.complaints e = [] ↔ defs.kindOf e ≠ .unknown := by
  induction e with
  | integer | string => exact ⟨fun _ => by simp [kindOf], fun _ => rfl⟩
  | broken span op left => exact absurd (he (.broken span op) (by simp)) (by simp [Node.isBroken])
  | reference ident =>
    have hname := hdefs ident.name
    rw [complaints, complaintsOf, kindOf]
    cases hkind : defs.kind? ident.name with
    | none => simp
    | some kind =>
      rw [hkind] at hname
      simpa using hname
  | operation span op left right ihl ihr =>
    rw [Expr.postorder_operation] at he
    have hl := ihl fun node hn => he node (List.mem_append_left _ (List.mem_append_left _ hn))
    have hr := ihr fun node hn => he node (List.mem_append_left _ (List.mem_append_right _ hn))
    have hown : defs.complaintsOf (.operation span op left right) = [] ↔
        (op.resultKind? (defs.kindOf left) (defs.kindOf right)).isSome = true := by
      rw [complaintsOf]
      split <;> simp_all
    rw [complaints, List.append_eq_nil_iff, List.append_eq_nil_iff, hl, hr, hown, kindOf,
      Operator.resultKind?_known_iff, and_assoc]

end Definitions

theorem wellKinded_concat {as : List Assignment} {a : Assignment} :
    WellKinded (as ++ [a]) ↔
      WellKinded as ∧ ∃ value kind, a.value? = some value ∧ HasKind as value kind := by
  constructor
  · intro h
    refine ⟨fun front b behind hsplit => ?_, h as a [] rfl⟩
    exact h front b (behind ++ [a]) (by rw [hsplit]; simp)
  · rintro ⟨has, ha⟩ front b behind hsplit
    rcases List.eq_nil_or_concat behind with rfl | ⟨init, c, rfl⟩
    · obtain ⟨rfl, hba⟩ := List.append_inj' hsplit rfl
      obtain rfl : a = b := by simpa using hba
      exact ha
    · rw [List.concat_eq_append, ← List.cons_append, ← List.append_assoc] at hsplit
      exact has front b init (List.append_inj' hsplit rfl).1

open Definitions

theorem WellKinded.hasKind {as : List Assignment} (h : WellKinded as) {name : String}
    {d : Definition} (hd : (table as)[name]? = some d) :
    d.kind ≠ .unknown ∧ ∃ front a behind value, LastOf name as front a behind ∧
      a.value? = some value ∧ HasKind front value d.kind := by
  obtain ⟨front, a, behind, hlast, rfl⟩ := getElem?_table_eq_some_iff.1 hd
  obtain ⟨value, kind, hvalue, hkind⟩ := h front a behind hlast.split
  obtain ⟨hinferred, hknown⟩ := kindOf_of_hasKind hkind
  have heq : (table front).valueKind a = kind := (valueKind_of_some hvalue).trans hinferred
  refine ⟨heq ▸ hknown, front, a, behind, value, hlast, hvalue, ?_⟩
  exact heq ▸ hkind

theorem WellKinded.kind?_ne_unknown {as : List Assignment} (h : WellKinded as) (name : String) :
    (table as).kind? name ≠ some .unknown := by
  intro hkind
  obtain ⟨d, hd, hunknown⟩ := Option.map_eq_some_iff.1 hkind
  exact (h.hasKind hd).1 hunknown

/-- Without gaps in the tree, inference complains exactly if the rules fail somewhere. -/
theorem tableComplaints_eq_nil_iff {as : List Assignment}
    (h : ∀ a ∈ as, ∃ value, a.value? = some value ∧
      ∀ node ∈ value.postorder, node.isBroken = false) :
    tableComplaints as = [] ↔ WellKinded as := by
  induction as using List.reverseRecOn with
  | nil =>
    refine ⟨fun _ front a behind hsplit => ?_, fun _ => rfl⟩
    simp at hsplit
  | append_singleton as a ih =>
    obtain ⟨value, hvalue, hbroken⟩ := h a (List.mem_append_right _ (List.mem_singleton_self a))
    rw [tableComplaints_concat, List.append_eq_nil_iff, wellKinded_concat,
      ih fun b hb => h b (List.mem_append_left _ hb), valueComplaints, hvalue]
    refine and_congr_right fun has => ?_
    rw [Option.map_some, Option.getD_some,
      complaints_eq_nil_iff (fun name => has.kind?_ne_unknown name) hbroken]
    constructor
    · intro hknown
      exact ⟨value, _, rfl, hasKind_of_kindOf hknown⟩
    · rintro ⟨value', kind, hsome, hkind⟩
      obtain rfl := Option.some.inj hsome
      obtain ⟨hinferred, hknown⟩ := kindOf_of_hasKind hkind
      rwa [hinferred]

theorem contains_table_iff {as : List Assignment} {name : String} :
    (table as).contains name = true ↔ ∃ a ∈ as, a.target.name = name := by
  rw [Std.TreeMap.contains_eq_isSome_getElem?, Option.isSome_iff_ne_none, ne_eq,
    getElem?_table_eq_none_iff]
  simp

theorem any_isError_eq_false_iff {ds : List Diagnostic} (h : ∀ d ∈ ds, d.isError = true) :
    ds.any Diagnostic.isError = false ↔ ds = [] := by
  constructor
  · intro hany
    rw [List.eq_nil_iff_forall_not_mem]
    intro d hd
    exact List.any_eq_false.1 hany d hd (h d hd)
  · rintro rfl
    rfl

theorem Diagnostic.isError_of_cause {d : Diagnostic} (h : d.cause ≠ .unusedDefinition) :
    d.isError = true := by
  obtain ⟨span, cause⟩ := d
  cases cause with
  | unusedDefinition => exact absurd rfl h
  | _ => rfl

theorem File.isError_of_mem_reports {text : Text} :
    ∀ d ∈ (parse text).reports, d.isError = true := by
  intro d hd
  apply Diagnostic.isError_of_cause
  intro hunused
  have hcause := cause_of_mem_reports hd
  rw [hunused] at hcause
  exact absurd hcause (by decide)

theorem hasErrors_iff_reports (config : Config) (text : Text) :
    (analyze config text).hasErrors = false ↔ (File.parse text).reports = [] ∧
      tableComplaints (File.parse text).file.assignments = [] ∧
      ∃ a ∈ (File.parse text).file.assignments, a.target.name = config.outputVariable := by
  have hmissing : ((File.parse text).file.missingReports config
      (table (File.parse text).file.assignments)).any Diagnostic.isError = false ↔
      ∃ a ∈ (File.parse text).file.assignments, a.target.name = config.outputVariable := by
    rw [← contains_table_iff, File.missingReports]
    split <;> simp_all [Diagnostic.isError, Diagnostic.severity, Cause.severity]
  have hunused : (File.unusedReports config
      (table (File.parse text).file.assignments)).any Diagnostic.isError = false := by
    rw [File.unusedReports]
    split
    · rw [List.any_map, List.any_eq_false]
      intro span _
      exact Bool.false_ne_true
    · rfl
  have hsplit : (analyze config text).hasErrors =
      ((File.parse text).reports.any Diagnostic.isError ||
        ((tableComplaints (File.parse text).file.assignments).any Diagnostic.isError ||
          ((File.parse text).file.missingReports config
            (table (File.parse text).file.assignments)).any Diagnostic.isError ||
        (File.unusedReports config
          (table (File.parse text).file.assignments)).any Diagnostic.isError)) := by
    rw [← List.any_append, ← List.any_append, ← List.any_append]
    rfl
  rw [hsplit, hunused, Bool.or_false, Bool.or_eq_false_iff, Bool.or_eq_false_iff, hmissing,
    any_isError_eq_false_iff File.isError_of_mem_reports,
    any_isError_eq_false_iff isError_of_mem_tableComplaints]

/-- The programs without errors are the well kinded words of the grammar with an output. -/
theorem hasErrors_iff_wellKinded (config : Config) (text : Text) :
    (analyze config text).hasErrors = false ↔
      (TokenStream.ofText text).reports = [] ∧ (TokenStream.ofText text).kinds ∈ Grammar.file ∧
        WellKinded (File.parse text).file.assignments ∧
        ∃ a ∈ (File.parse text).file.assignments, a.target.name = config.outputVariable := by
  rw [hasErrors_iff_reports, File.reports_parse_eq_nil_iff, TokenStream.kinds,
    Grammar.mem_file_iff, Derived.faults_eq_zero_iff, and_assoc]
  refine and_congr_right fun _ => and_congr_right fun hderived => ?_
  obtain ⟨as, has⟩ := hderived
  have hintact : ∀ a ∈ (File.parse text).file.assignments, ∃ value, a.value? = some value ∧
      ∀ node ∈ value.postorder, node.isBroken = false := by
    intro a ha
    rw [(File.read_parse text).1, has.read.1] at ha
    obtain ⟨value, hvalue, hsum⟩ := has.inShape.1 a ha
    exact ⟨value, hvalue, hsum.no_broken⟩
  rw [tableComplaints_eq_nil_iff hintact]

/-- No error means a well-formed program, and then the table has the kinds of the rules. -/
theorem hasErrors_eq_false_iff (config : Config) (text : Text) :
    ((analyze config text).hasErrors = false ↔
        (TokenStream.ofText text).reports = [] ∧
        (TokenStream.ofText text).kinds ∈ Grammar.file ∧
        WellKinded (File.parse text).file.assignments ∧
        ∃ a ∈ (File.parse text).file.assignments, a.target.name = config.outputVariable) ∧
      ((analyze config text).hasErrors = false →
        ∀ name d, (analyze config text).definitions[name]? = some d →
          d.kind ≠ .unknown ∧ ∃ front a behind value,
            LastOf name (File.parse text).file.assignments front a behind ∧
            a.value? = some value ∧ HasKind front value d.kind) := by
  refine ⟨hasErrors_iff_wellKinded config text, ?_⟩
  intro hclean name d hd
  obtain ⟨-, -, hkinded, -⟩ := (hasErrors_iff_wellKinded config text).1 hclean
  exact hkinded.hasKind hd

end AssignLang
