import AssignLang.Proofs.Scoping

/-! Inference complains about root causes only. A node is at fault if nothing binds its name,
or if its operands have kinds that its operator does not take; what has no kind because of
such a node is not at fault itself. So the nodes at fault lie apart from each other, and the
complaints about them come in the order of the text. -/

namespace AssignLang

namespace Expr

def nodes : Expr → List Expr
  | .integer span digits => [.integer span digits]
  | .string span value => [.string span value]
  | .reference ident => [.reference ident]
  | .operation span op left right =>
    left.nodes ++ right.nodes ++ [.operation span op left right]
  | .broken span op left => left.nodes ++ [.broken span op left]

/-- What there is to complain about a node, if it is at fault. -/
def complaint? : Expr → Option Diagnostic
  | .reference ident => some ident.unknownReport
  | .operation span op .. => some ⟨span, .stringOperand op⟩
  | .integer .. | .string .. | .broken .. => none

/-- The expression ends before the other starts, with something between them. -/
def Apart (e e' : Expr) : Prop := e.span.stop.offset < e'.span.start.offset

end Expr

def Assignment.nodes (a : Assignment) : List Expr := (a.value?.map Expr.nodes).getD []

/-- The node is at fault by itself, with the assignments `before` in front of it. -/
inductive Faulty (before : List Assignment) : Expr → Prop
  | unbound {ident : Ident} (h : ∀ b ∈ before, b.target.name ≠ ident.name) :
      Faulty before (.reference ident)
  | clash {span : Span} {op : Operator} {left right : Expr} {k l : Kind} (hop : op ≠ .add)
      (hleft : HasKind before left k) (hright : HasKind before right l)
      (hkinds : ¬ (k = .integer ∧ l = .integer)) : Faulty before (.operation span op left right)

/-- A node of some value, at fault there. -/
def Culprit (as : List Assignment) (e : Expr) : Prop :=
  ∃ front a behind, as = front ++ a :: behind ∧ e ∈ a.nodes ∧ Faulty front e

theorem Operator.resultKind?_eq_none_iff {op : Operator} {k l : Kind} :
    op.resultKind? k l = none ↔
      op ≠ .add ∧ k ≠ .unknown ∧ l ≠ .unknown ∧ ¬ (k = .integer ∧ l = .integer) := by
  cases op <;> cases k <;> cases l <;> decide

namespace Definitions

def isFaulty (defs : Definitions) (e : Expr) : Bool := !(defs.complaintsOf e).isEmpty

variable {defs : Definitions} {e : Expr}

/-- The rules tell which nodes are at fault. -/
theorem isFaulty_table_iff {as : List Assignment} :
    (table as).isFaulty e = true ↔ Faulty as e := by
  rw [isFaulty, Bool.not_eq_true', List.isEmpty_eq_false_iff]
  cases e with
  | integer | string | broken => exact ⟨fun h => absurd rfl h, fun h => by cases h⟩
  | reference ident =>
    have hnone : (table as).complaintsOf (.reference ident) ≠ [] ↔
        ((table as).kind? ident.name).isNone = true := by
      rw [complaintsOf]
      cases (table as).kind? ident.name <;> simp
    rw [hnone, kind?_table_isNone_iff]
    refine ⟨.unbound, fun h => ?_⟩
    cases h with
    | unbound h => exact h
  | operation span op left right =>
    have hnone : (table as).complaintsOf (.operation span op left right) ≠ [] ↔
        op.resultKind? ((table as).kindOf left) ((table as).kindOf right) = none := by
      rw [complaintsOf]
      cases op.resultKind? ((table as).kindOf left) ((table as).kindOf right) <;> simp
    rw [hnone, Operator.resultKind?_eq_none_iff]
    constructor
    · rintro ⟨hop, hl, hr, hkinds⟩
      exact .clash hop (hasKind_of_kindOf hl) (hasKind_of_kindOf hr) hkinds
    · intro h
      cases h with
      | clash hop hleft hright hkinds =>
        obtain ⟨hl, hl'⟩ := kindOf_of_hasKind hleft
        obtain ⟨hr, hr'⟩ := kindOf_of_hasKind hright
        rw [hl, hr]
        exact ⟨hop, hl', hr', hkinds⟩

theorem map_complaintsOf (defs : Definitions) (e : Expr) :
    (defs.complaintsOf e).map some = ([e].filter defs.isFaulty).map Expr.complaint? := by
  rw [List.filter_singleton, isFaulty]
  cases e with
  | integer | string | broken => rfl
  | reference ident => rw [complaintsOf]; split <;> rfl
  | operation span op left right => rw [complaintsOf]; split <;> rfl

theorem map_complaints (defs : Definitions) (e : Expr) :
    (defs.complaints e).map some = (e.nodes.filter defs.isFaulty).map Expr.complaint? := by
  induction e with
  | integer | string => rfl
  | reference ident => exact map_complaintsOf defs (.reference ident)
  | operation span op left right ihl ihr =>
    rw [complaints, List.map_append, List.map_append, ihl, ihr, map_complaintsOf, Expr.nodes,
      List.filter_append, List.filter_append, List.map_append, List.map_append]
  | broken span op left ih =>
    rw [complaints, ih, Expr.nodes, List.filter_append]
    exact congrArg _ (List.append_nil _).symm

/-- What has a kind contains no fault. -/
theorem filter_isFaulty_of_known (h : defs.kindOf e ≠ .unknown) :
    e.nodes.filter defs.isFaulty = [] := by
  induction e with
  | integer | string => rfl
  | broken => exact absurd rfl h
  | reference ident =>
    rw [kindOf] at h
    have hsome : (defs.kind? ident.name).isSome = true := by
      rw [Option.isSome_iff_ne_none]
      intro hnone
      exact h (by rw [hnone]; rfl)
    rw [Expr.nodes, List.filter_singleton, isFaulty, complaintsOf, if_pos hsome]
    rfl
  | operation span op left right ihl ihr =>
    obtain ⟨hl, hr, hsome⟩ := Operator.resultKind?_known_iff.1 h
    rw [Expr.nodes, List.filter_append, List.filter_append, ihl hl, ihr hr, List.filter_singleton,
      isFaulty, complaintsOf, if_pos hsome]
    rfl

theorem filter_isFaulty_of_operation {span : Span} {op : Operator} {left right : Expr}
    (h : defs.isFaulty (.operation span op left right) = true) :
    left.nodes.filter defs.isFaulty = [] ∧ right.nodes.filter defs.isFaulty = [] := by
  have hnone : op.resultKind? (defs.kindOf left) (defs.kindOf right) = none := by
    rw [isFaulty, complaintsOf] at h
    cases hkind : op.resultKind? (defs.kindOf left) (defs.kindOf right) with
    | none => rfl
    | some kind => simp [hkind] at h
  obtain ⟨-, hl, hr, -⟩ := Operator.resultKind?_eq_none_iff.1 hnone
  exact ⟨filter_isFaulty_of_known hl, filter_isFaulty_of_known hr⟩

end Definitions

namespace Expr

variable {e e' : Expr}

theorem span_of_mem_nodes (h : e' ∈ e.nodes) : e'.span ∈ e.spans := by
  induction e with
  | integer | string | reference => rw [List.mem_singleton.1 h]; exact List.mem_singleton_self _
  | operation span op left right ihl ihr =>
    rw [nodes, List.mem_append, List.mem_append] at h
    rcases h with (h | h) | h
    · exact List.mem_cons_of_mem _ (List.mem_append_left _ (ihl h))
    · exact List.mem_cons_of_mem _ (List.mem_append_right _ (ihr h))
    · rw [List.mem_singleton.1 h]
      exact List.mem_cons_self
  | broken span op left ih =>
    rcases List.mem_append.1 h with h | h
    · exact List.mem_cons_of_mem _ (ih h)
    · rw [List.mem_singleton.1 h]
      exact List.mem_cons_self

theorem Nested.of_mem_nodes (h : e.Nested) (he : e' ∈ e.nodes) : e'.Nested := by
  induction e with
  | integer | string | reference => rw [List.mem_singleton.1 he]; exact h
  | operation span op left right ihl ihr =>
    rw [nodes, List.mem_append, List.mem_append] at he
    rcases he with (he | he) | he
    · exact ihl h.2.2.2.1 he
    · exact ihr h.2.2.2.2 he
    · rw [List.mem_singleton.1 he]
      exact h
  | broken span op left ih =>
    rcases List.mem_append.1 he with he | he
    · exact ih h.2 he
    · rw [List.mem_singleton.1 he]
      exact h

theorem Nested.pairwise_apart (h : e.Nested) (hforwards : e.span.start.offset ≤ e.span.stop.offset)
    (defs : Definitions) : (e.nodes.filter defs.isFaulty).Pairwise Apart := by
  induction e with
  | integer | string => exact List.Pairwise.nil
  | reference ident => exact (List.pairwise_singleton Apart _).sublist List.filter_sublist
  | broken span op left ih =>
    obtain ⟨hl, hleft⟩ := h
    rw [nodes, List.filter_append, show [broken span op left].filter defs.isFaulty = [] from rfl,
      List.append_nil]
    exact ih hleft hl.forwards
  | operation span op left right ihl ihr =>
    obtain ⟨hl, hr, hlt, hleft, hright⟩ := h
    rw [nodes, List.filter_append, List.filter_append, List.filter_singleton]
    cases hfaulty : defs.isFaulty (.operation span op left right) with
    | true =>
      -- then it is the only fault
      obtain ⟨hnone, hnone'⟩ := Definitions.filter_isFaulty_of_operation hfaulty
      rw [hnone, hnone']
      exact List.pairwise_singleton _ _
    | false =>
      rw [cond_false, List.append_nil]
      refine List.pairwise_append.2 ⟨ihl hleft hl.forwards, ihr hright hr.forwards,
        fun x hx y hy => ?_⟩
      have hx' := hleft.inside hl.forwards x.span (span_of_mem_nodes (List.mem_filter.1 hx).1)
      have hy' := hright.inside hr.forwards y.span (span_of_mem_nodes (List.mem_filter.1 hy).1)
      exact Nat.lt_of_le_of_lt hx'.stop (Nat.lt_of_lt_of_le hlt hy'.start)

end Expr

namespace Assignment

variable {a : Assignment}

theorem Nested.inside_of_mem_nodes (h : a.Nested) {e : Expr} (he : e ∈ a.nodes) :
    e.span.Inside a.span ∧ a.target.span.stop.offset < e.span.start.offset ∧ e.Nested := by
  rw [nodes] at he
  cases hvalue : a.value? with
  | none => simp [hvalue] at he
  | some value =>
    rw [hvalue] at he
    obtain ⟨hinside, hlt, hnested⟩ := h.value value hvalue
    have he' := hnested.inside hinside.forwards e.span (Expr.span_of_mem_nodes he)
    exact ⟨he'.trans hinside, Nat.lt_of_lt_of_le hlt he'.start, hnested.of_mem_nodes he⟩

theorem Nested.pairwise_apart (h : a.Nested) (defs : Definitions) :
    (a.nodes.filter defs.isFaulty).Pairwise Expr.Apart := by
  rw [nodes]
  cases hvalue : a.value? with
  | none => exact List.Pairwise.nil
  | some value =>
    obtain ⟨hinside, -, hnested⟩ := h.value value hvalue
    exact hnested.pairwise_apart hinside.forwards defs

end Assignment

theorem Definitions.map_valueComplaints (defs : Definitions) (a : Assignment) :
    (defs.valueComplaints a).map some = (a.nodes.filter defs.isFaulty).map Expr.complaint? := by
  rw [valueComplaints, Assignment.nodes]
  cases a.value? with
  | none => rfl
  | some value => exact map_complaints defs value

open Definitions

theorem culprit_concat_iff {as : List Assignment} {a : Assignment} {e : Expr} :
    Culprit (as ++ [a]) e ↔ Culprit as e ∨ (e ∈ a.nodes ∧ Faulty as e) :=
  exists_split_concat_iff (P := fun front b => e ∈ b.nodes ∧ Faulty front e)

/-- The complaints are about the culprits, one by one, and the culprits lie apart. -/
theorem exists_culprits {as : List Assignment} (hnested : ∀ a ∈ as, a.Nested)
    (horder : as.Pairwise fun a b => a.span.stop.offset ≤ b.span.start.offset) :
    ∃ culprits : List Expr, (tableComplaints as).map some = culprits.map Expr.complaint? ∧
      (∀ e, e ∈ culprits ↔ Culprit as e) ∧ culprits.Pairwise Expr.Apart := by
  induction as using List.reverseRecOn with
  | nil =>
    refine ⟨[], rfl, fun e => ⟨by simp, ?_⟩, List.Pairwise.nil⟩
    rintro ⟨front, a, behind, hsplit, -⟩
    simp at hsplit
  | append_singleton as a ih =>
    obtain ⟨has, -, hlast⟩ := List.pairwise_append.1 horder
    obtain ⟨culprits, hmap, hmem, hapart⟩ :=
      ih (fun b hb => hnested b (List.mem_append_left _ hb)) has
    have ha := hnested a (List.mem_append_right _ (List.mem_singleton_self a))
    refine ⟨culprits ++ a.nodes.filter (table as).isFaulty, ?_, fun e => ?_,
      List.pairwise_append.2 ⟨hapart, ha.pairwise_apart _, fun x hx y hy => ?_⟩⟩
    · rw [tableComplaints_concat, List.map_append, hmap, map_valueComplaints, List.map_append]
    · rw [List.mem_append, hmem, List.mem_filter, isFaulty_table_iff, culprit_concat_iff]
    · -- the target of `a` stands between
      obtain ⟨front, b, behind, rfl, hxb, -⟩ := (hmem x).1 hx
      have hb := (hnested b (by simp)).inside_of_mem_nodes hxb
      have hy' := ha.inside_of_mem_nodes (List.mem_filter.1 hy).1
      have hle := hlast b (by simp) a (List.mem_singleton_self a)
      have hx' := hb.1.stop
      have htarget := ha.target
      have hstart := htarget.start
      have hstop := htarget.forwards
      change x.span.stop.offset < y.span.start.offset
      omega

theorem File.filter_isSemantic_check (config : Config) (file : File) :
    (file.check config).reports.filter (·.cause.isSemantic) = tableComplaints file.assignments := by
  rw [File.check_eq_checkIn, File.reports_checkIn, List.filter_append, List.filter_append,
    filter_missingReports _ fun _ _ => rfl, filter_hints _ fun _ => rfl, List.append_nil,
    List.append_nil]
  exact List.filter_eq_self.2 isSemantic_of_mem_tableComplaints

theorem filter_isSemantic_analyze (config : Config) (text : Text) :
    (analyze config text).diagnostics.filter (·.cause.isSemantic) =
      tableComplaints (File.parse text).file.assignments := by
  have hparse : (File.parse text).reports.filter (·.cause.isSemantic) = [] := by
    refine File.filter_reports (fun cause hcause => ?_) text
    cases cause <;> simp_all [Cause.isSemantic, Cause.isLexical, Cause.isExpectation]
  change ((File.parse text).reports ++ ((File.parse text).file.check config).reports).filter _ = _
  rw [List.filter_append, hparse, List.nil_append, File.filter_isSemantic_check]

theorem Expr.span_of_complaint? {e : Expr} {d : Diagnostic} (h : e.complaint? = some d) :
    d.span = e.span := by
  cases e <;> simp only [complaint?, Option.some.injEq, reduceCtorEq] at h <;> subst h <;> rfl

theorem pairwise_stop_of_apart {reports : List Diagnostic} {culprits : List Expr}
    (hmap : reports.map some = culprits.map Expr.complaint?)
    (hforwards : ∀ e ∈ culprits, e.span.start.offset ≤ e.span.stop.offset)
    (hapart : culprits.Pairwise Expr.Apart) :
    reports.Pairwise fun d d' => d.span.stop.offset < d'.span.stop.offset := by
  have hculprits : (culprits.map Expr.complaint?).Pairwise
      fun x y => ∀ d ∈ x, ∀ d' ∈ y, d.span.stop.offset < d'.span.stop.offset := by
    rw [List.pairwise_map]
    refine hapart.imp_of_mem fun {e e'} _ he' hlt d hd d' hd' => ?_
    rw [Expr.span_of_complaint? hd, Expr.span_of_complaint? hd']
    exact Nat.lt_of_lt_of_le hlt (hforwards e' he')
  rw [← hmap, List.pairwise_map] at hculprits
  exact hculprits.imp fun h => h _ rfl _ rfl

/-- Complaints are about root causes, and about each of them once. Those about operations are
about the ones whose operands have kinds, but not the kinds that the operator takes; in such
an operation nothing else is complained about. -/
theorem complaints_at_root_causes (config : Config) (text : Text) :
    ∃ culprits : List Expr,
      ((analyze config text).diagnostics.filter (·.cause.isSemantic)).map some =
        culprits.map Expr.complaint? ∧
      (∀ e, e ∈ culprits ↔ Culprit (File.parse text).file.assignments e) ∧
      (∀ e ∈ culprits, ∀ e' ∈ culprits, e' ≠ e → e' ∉ e.nodes ∧ ¬ e'.span.Inside e.span) ∧
      ((analyze config text).diagnostics.filter (·.cause.isSemantic)).Pairwise
        fun d d' => d.span.stop.offset < d'.span.stop.offset := by
  have hnested := (File.nested_parse text).1
  obtain ⟨culprits, hmap, hmem, hapart⟩ :=
    exists_culprits (fun a ha => (hnested.inside a ha).2) hnested.order
  have hplaced : ∀ e ∈ culprits, e.Nested ∧ e.span.start.offset ≤ e.span.stop.offset := by
    intro e he
    obtain ⟨front, a, behind, hsplit, hnode, -⟩ := (hmem e).1 he
    have ha := hnested.inside a (by rw [hsplit]; simp)
    obtain ⟨hinside, -, hnode'⟩ := ha.2.inside_of_mem_nodes hnode
    exact ⟨hnode', hinside.forwards⟩
  have houtside : ∀ e ∈ culprits, ∀ e' ∈ culprits, e' ≠ e → ¬ e'.span.Inside e.span := by
    intro e he e' he' hne hinside
    have hapart' : culprits.Pairwise fun x y => x.Apart y ∨ y.Apart x := hapart.imp .inl
    have hsymm : Std.Symm fun x y : Expr => x.Apart y ∨ y.Apart x := ⟨fun _ _ h => h.symm⟩
    have hstart := hinside.start
    have hforwards := hinside.forwards
    have hstop := hinside.stop
    rcases hapart'.forall (a := e) he (b := e') he' hne.symm with h | h
    · change e.span.stop.offset < e'.span.start.offset at h
      omega
    · change e'.span.stop.offset < e.span.start.offset at h
      omega
  rw [filter_isSemantic_analyze]
  refine ⟨culprits, hmap, hmem, fun e he e' he' hne => ⟨fun hnode => ?_, houtside e he e' he' hne⟩,
    pairwise_stop_of_apart hmap (fun e he => (hplaced e he).2) hapart⟩
  obtain ⟨hnested', hforwards⟩ := hplaced e he
  exact houtside e he e' he' hne (hnested'.inside hforwards _ (Expr.span_of_mem_nodes hnode))

-- the difference around the faulty product is not at fault, but its other operand is
example : ((analyze {} "a := \"s\" * 2 - b".toList).diagnostics.filter
    (·.cause.isSemantic)).map (·.cause) = [.stringOperand .multiply, .unknownVariable "b"] := by
  decide +kernel

end AssignLang
