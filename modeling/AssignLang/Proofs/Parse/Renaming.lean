import AssignLang.Proofs.Check.Table
import AssignLang.Proofs.Parse.Nesting

/-! Identifiers under another name. What is read depends on the sorts of tokens and not on
the names among them: reading commutes with giving the identifier at some place another
name. The identifiers of a tree are tokens of the text, each of them once and in order. -/

namespace AssignLang

/-- The identifier that stands at `span` gets another name. -/
def Ident.rename (span : Span) (name : String) (i : Ident) : Ident :=
  if i.span = span then ⟨span, name⟩ else i

/-- The name token that stands at `span` gets another name. -/
def Token.rename (span : Span) (name : String) (t : Token) : Token :=
  if t.span = span then
    match t.terminal with
    | .ident _ => ⟨.ident name, span⟩
    | .leadingIdent _ => ⟨.leadingIdent name, span⟩
    | _ => t
  else t

def Expr.rename (span : Span) (name : String) : Expr → Expr
  | .integer s digits => .integer s digits
  | .string s value => .string s value
  | .reference ident => .reference (ident.rename span name)
  | .operation s op left right => .operation s op (left.rename span name) (right.rename span name)
  | .broken s op left => .broken s op (left.rename span name)

def Assignment.rename (span : Span) (name : String) (a : Assignment) : Assignment :=
  ⟨a.target.rename span name, a.span, a.value?.map (Expr.rename span name)⟩

/-- The identifiers of an assignment, its target first. -/
def Assignment.idents (a : Assignment) : List Ident := a.target :: a.references

/-- A token that is an identifier and does not start a statement. -/
def Token.ident? (t : Token) : Option Ident :=
  match t.terminal with
  | .ident name => some ⟨t.span, name⟩
  | _ => none

section Rename

variable (span : Span) (name : String)

@[simp] theorem Ident.span_rename (i : Ident) : (i.rename span name).span = i.span := by
  unfold rename
  split
  · rename_i h
    exact h.symm
  · rfl

@[simp] theorem Token.span_rename (t : Token) : (t.rename span name).span = t.span := by
  unfold rename
  split
  · rename_i h
    split
    · exact h.symm
    · exact h.symm
    · rfl
  · rfl

@[simp] theorem Token.kind_rename (t : Token) : (t.rename span name).kind = t.kind := by
  obtain ⟨terminal, s⟩ := t
  unfold rename Token.kind
  split
  · cases terminal <;> rfl
  · rfl

@[simp] theorem Expr.span_rename (e : Expr) : (e.rename span name).span = e.span := by
  cases e <;> simp [rename, Expr.span]

theorem Expr.rename_binary (op : Operator) (left right : Expr) :
    (Expr.binary op left right).rename span name =
      .binary op (left.rename span name) (right.rename span name) := by
  simp [binary, rename]

theorem Token.operand?_rename (t : Token) :
    (t.rename span name).operand? = t.operand?.map (Expr.rename span name) := by
  obtain ⟨terminal, s⟩ := t
  by_cases hs : s = span
  · cases terminal <;> simp [rename, operand?, hs, Expr.rename, Ident.rename]
  · cases terminal <;> simp [rename, operand?, hs, Expr.rename, Ident.rename]

theorem Token.target?_rename (t : Token) :
    (t.rename span name).target? = t.target?.map (Ident.rename span name) := by
  obtain ⟨terminal, s⟩ := t
  by_cases hs : s = span
  · cases terminal <;> simp [rename, target?, hs, Ident.rename]
  · cases terminal <;> simp [rename, target?, hs, Ident.rename]

theorem Token.terminal_rename_operator {t : Token} {op : Operator} :
    (t.rename span name).terminal = .operator op ↔ t.terminal = .operator op := by
  obtain ⟨terminal, s⟩ := t
  by_cases hs : s = span
  · cases terminal <;> simp [rename, hs]
  · cases terminal <;> simp [rename, hs]

theorem Token.terminal_rename_assign {t : Token} :
    (t.rename span name).terminal = .assign ↔ t.terminal = .assign := by
  obtain ⟨terminal, s⟩ := t
  by_cases hs : s = span
  · cases terminal <;> simp [rename, hs]
  · cases terminal <;> simp [rename, hs]

theorem Expr.references_rename (e : Expr) :
    (e.rename span name).references = e.references.map (Ident.rename span name) := by
  induction e with
  | integer | string | reference => rfl
  | operation s op left right ihl ihr =>
    rw [rename, references, references, ihl, ihr, List.map_append]
  | broken s op left ih => exact ih

theorem Assignment.references_rename (a : Assignment) :
    (a.rename span name).references = a.references.map (Ident.rename span name) := by
  obtain ⟨target, s, value⟩ := a
  cases value with
  | none => rfl
  | some value => exact value.references_rename span name

variable {span name}

theorem Ident.rename_of_ne {i : Ident} (h : i.span ≠ span) : i.rename span name = i := if_neg h

theorem Expr.rename_of_ne {e : Expr} (h : ∀ i ∈ e.references, i.span ≠ span) :
    e.rename span name = e := by
  induction e with
  | integer | string => rfl
  | reference i => rw [rename, Ident.rename_of_ne (h i (List.mem_singleton_self i))]
  | operation s op left right ihl ihr =>
    rw [rename, ihl fun i hi => h i (List.mem_append_left _ hi),
      ihr fun i hi => h i (List.mem_append_right _ hi)]
  | broken s op left ih => rw [rename, ih h]

/-- Assignments elsewhere stay as they are. -/
theorem Assignment.rename_of_ne {a : Assignment} (h : ∀ i ∈ a.idents, i.span ≠ span) :
    a.rename span name = a := by
  obtain ⟨htarget, hrefs⟩ := List.forall_mem_cons.1 h
  obtain ⟨target, s, value⟩ := a
  cases value with
  | none => rw [rename, Ident.rename_of_ne htarget]; rfl
  | some value =>
    rw [rename, Ident.rename_of_ne htarget, Option.map_some, Expr.rename_of_ne hrefs]

end Rename

namespace Recovered

variable (span : Span) (name : String)

theorem head?_rename {ts : List Token} {P : Token → Prop} (hP : ∀ t, P t → P (t.rename span name))
    (h : ∀ t ∈ ts.head?, P t) : ∀ t ∈ (ts.map (Token.rename span name)).head?, P t := by
  intro t ht
  rw [List.head?_map] at ht
  obtain ⟨t', ht', rfl⟩ := Option.map_eq_some_iff.1 ht
  exact hP t' (h t' ht')

theorem NoOperand.rename {ts : List Token} (h : NoOperand ts) :
    NoOperand (ts.map (Token.rename span name)) :=
  head?_rename span name (fun t ht => by rw [Token.operand?_rename, ht]; rfl) h

theorem NoAssign.rename {ts : List Token} (h : NoAssign ts) :
    NoAssign (ts.map (Token.rename span name)) :=
  head?_rename span name (fun t ht => by rwa [ne_eq, Token.terminal_rename_assign]) h

theorem endsBefore_rename {level : Level} {ts : List Token} (h : level.EndsBefore ts) :
    level.EndsBefore (ts.map (Token.rename span name)) := by
  refine head?_rename span name (fun t ht op hop => ht op ?_) h
  rwa [Token.terminal_rename_operator] at hop

theorem Skipped.rename {level : Level} {us rest : List Token} (h : Skipped level us rest) :
    Skipped level (us.map (Token.rename span name)) (rest.map (Token.rename span name)) := by
  refine ⟨fun t ht => ?_, head?_rename span name (fun t ht => by rwa [Token.kind_rename]) h.stop⟩
  obtain ⟨t', ht', rfl⟩ := List.mem_map.1 ht
  rw [Token.kind_rename]
  exact h.passed t' ht'

theorem covered_rename (us : List Token) :
    covered (us.map (Token.rename span name)) = covered us := by
  simp [covered, Function.comp_def]

/-- Renaming the tokens renames what is derived from them. -/
def Renames (D : Expr → List Token → List Token → Prop) : Prop :=
  ∀ {e : Expr} {ts rest : List Token}, D e ts rest → D (e.rename span name)
    (ts.map (Token.rename span name)) (rest.map (Token.rename span name))

theorem renames_operand : Renames span name Operand := by
  rintro e ts rest ⟨t, rfl, he⟩
  exact ⟨t.rename span name, rfl, by rw [Token.operand?_rename, he]; rfl⟩

variable {span name} {level : Level} {D : Expr → List Token → List Token → Prop}

theorem Renames.joined (hD : Renames span name D) {left e : Expr} {ts rest : List Token}
    (h : Joined level D rest left e ts) :
    Joined level D (rest.map (Token.rename span name)) (left.rename span name)
      (e.rename span name) (ts.map (Token.rename span name)) := by
  induction h with
  | done left hend => exact .done _ (endsBefore_rename span name hend)
  | @join left right e t op us vs ht hop hr _ ih =>
    rw [Expr.rename_binary] at ih
    rw [List.map_cons, List.map_append]
    refine .join ((Token.terminal_rename_operator span name).2 ht) hop ?_ ih
    rw [← List.map_append]
    exact hD hr
  | @broken left e t op us vs ht hop hno hskip _ ih =>
    rw [List.map_cons, List.map_append]
    refine .broken ((Token.terminal_rename_operator span name).2 ht) hop ?_ ?_ ?_
    · rw [← List.map_append, ← List.map_append]
      exact hno.rename span name
    · rw [← List.map_append]
      exact hskip.rename span name
    · rw [covered_rename, Expr.span_rename]
      exact ih

theorem Renames.chain (hD : Renames span name D) : Renames span name (Chain level D) := by
  rintro e ts rest ⟨left, us, vs, rfl, hleft, hj⟩
  refine ⟨left.rename span name, _, _, List.map_append, ?_, hD.joined hj⟩
  rw [← List.map_append]
  exact hD hleft

theorem renames_value : Renames span name Value := Renames.chain (Renames.chain
  (renames_operand span name))

variable (span name)

theorem Statement.rename {a : Option Assignment} {ts rest : List Token} (h : Statement rest a ts) :
    Statement (rest.map (Token.rename span name)) (a.map (Assignment.rename span name))
      (ts.map (Token.rename span name)) := by
  have htarget : ∀ {t : Token} {target : Ident}, t.target? = some target →
      (t.rename span name).target? = some (target.rename span name) := by
    intro t target ht
    rw [Token.target?_rename, ht]
    rfl
  have hfailed : ∀ (target : Ident) (us : List Token),
      (Assignment.failed target (covered us)).rename span name =
        .failed (target.rename span name) (covered (us.map (Token.rename span name))) := by
    intro target us
    simp [Assignment.failed, Assignment.rename, covered_rename]
  cases h with
  | @complete t u target value us ht hu hvalue =>
    have hcomplete : (Assignment.complete target value).rename span name =
        .complete (target.rename span name) (value.rename span name) := by
      simp [Assignment.complete, Assignment.rename]
    rw [Option.map_some, hcomplete]
    exact .complete (htarget ht) ((Token.terminal_rename_assign span name).2 hu)
      (renames_value hvalue)
  | @unassigned t target us ht hno hskip =>
    rw [Option.map_some, hfailed]
    refine .unassigned (htarget ht) ?_ (hskip.rename span name)
    rw [← List.map_append]
    exact hno.rename span name
  | @valueless t u target us ht hu hno hskip =>
    rw [Option.map_some, hfailed]
    refine .valueless (htarget ht) ((Token.terminal_rename_assign span name).2 hu) ?_
      (hskip.rename span name)
    rw [← List.map_append]
    exact hno.rename span name
  | @stray t us ht hskip =>
    exact .stray (by rw [Token.target?_rename, ht]; rfl) (hskip.rename span name)

theorem Statements.rename {as : List Assignment} {ts rest : List Token}
    (h : Statements rest as ts) :
    Statements (rest.map (Token.rename span name)) (as.map (Assignment.rename span name))
      (ts.map (Token.rename span name)) := by
  induction h with
  | nil => exact .nil
  | @cons a as us vs h _ ih =>
    have hone := h.rename span name
    rw [List.map_append] at hone
    rw [List.map_append, List.map_append]
    have hlist : a.toList.map (Assignment.rename span name) =
        (a.map (Assignment.rename span name)).toList := by cases a <;> rfl
    rw [hlist]
    exact .cons hone ih

end Recovered

/-- Reading renamed tokens gives the renamed assignments. -/
theorem readStatements_rename (span : Span) (name : String) (ts : List Token) :
    readStatements (ts.map (Token.rename span name)) =
      (readStatements ts).map (Assignment.rename span name) :=
  Recovered.readStatements_eq_iff.2 ((Recovered.readStatements_eq_iff.1 rfl).rename span name)

namespace Recovered

variable {level : Level} {D : Expr → List Token → List Token → Prop}

/-- The references of what is derived are identifiers among its tokens, in order. -/
def Refers (D : Expr → List Token → List Token → Prop) : Prop :=
  ∀ {e : Expr} {ts rest : List Token}, D e ts rest →
    e.references.Sublist (ts.filterMap Token.ident?)

theorem refers_operand : Refers Operand := by
  rintro e ts rest ⟨t, rfl, he⟩
  obtain ⟨terminal, span⟩ := t
  cases terminal <;> simp only [Token.operand?, Option.some.injEq, reduceCtorEq] at he <;>
    subst he <;> simp [Expr.references, Token.ident?]

theorem Refers.joined (hD : Refers D) {left e : Expr} {ts rest : List Token}
    (h : Joined level D rest left e ts) :
    e.references.Sublist (left.references ++ ts.filterMap Token.ident?) := by
  induction h with
  | done left => simp
  | @join left right e t op us vs ht hop hr _ ih =>
    have hsign : t.ident? = none := by simp [Token.ident?, ht]
    refine ih.trans ?_
    rw [Expr.binary, Expr.references, List.filterMap_cons_none hsign, List.filterMap_append,
      List.append_assoc]
    exact ((hD hr).append (List.Sublist.refl _)).append_left _
  | @broken left e t op us vs ht hop hno hskip _ ih =>
    have hsign : t.ident? = none := by simp [Token.ident?, ht]
    refine ih.trans ?_
    rw [Expr.references, List.filterMap_cons_none hsign, List.filterMap_append]
    exact (List.sublist_append_right _ _).append_left _

theorem Refers.chain (hD : Refers D) : Refers (Chain level D) := by
  rintro e ts rest ⟨left, us, vs, rfl, hleft, hj⟩
  rw [List.filterMap_append]
  exact (hD.joined hj).trans ((hD hleft).append (List.Sublist.refl _))

theorem refers_value : Refers Value := Refers.chain (Refers.chain refers_operand)

theorem Statement.references_sublist {a : Assignment} {ts rest : List Token}
    (h : Statement rest (some a) ts) :
    ∃ t us, ts = t :: us ∧ t.target? = some a.target ∧
      a.references.Sublist (us.filterMap Token.ident?) := by
  cases h with
  | @complete t u target value us ht hu hvalue =>
    refine ⟨t, u :: us, rfl, ht, (refers_value hvalue).trans ?_⟩
    exact (List.sublist_cons_self u us).filterMap _
  | @unassigned t target us ht => exact ⟨t, us, rfl, ht, List.nil_sublist _⟩
  | @valueless t u target us ht => exact ⟨t, u :: us, rfl, ht, List.nil_sublist _⟩

theorem filterMap_ident?_sublist (ts : List Token) :
    (ts.filterMap Token.ident?).Sublist (ts.filterMap Token.target?) := by
  induction ts with
  | nil => exact List.Sublist.refl _
  | cons t ts ih =>
    cases hident : t.ident? with
    | none =>
      rw [List.filterMap_cons_none hident]
      exact ih.trans ((List.sublist_cons_self t ts).filterMap _)
    | some i =>
      have htarget : t.target? = some i := by
        obtain ⟨terminal, span⟩ := t
        cases terminal <;> simp_all [Token.ident?, Token.target?]
      rw [List.filterMap_cons_some hident, List.filterMap_cons_some htarget]
      exact ih.cons_cons i

/-- The identifiers of a tree are name tokens of the text, each once and in order. -/
theorem Statements.idents_sublist {as : List Assignment} {ts rest : List Token}
    (h : Statements rest as ts) :
    (as.flatMap Assignment.idents).Sublist (ts.filterMap Token.target?) := by
  induction h with
  | nil => exact List.Sublist.refl _
  | @cons a as us vs h _ ih =>
    rw [List.flatMap_append, List.filterMap_append]
    refine List.Sublist.append ?_ ih
    cases a with
    | none => exact List.nil_sublist _
    | some a =>
      obtain ⟨t, us, rfl, ht, hrefs⟩ := h.references_sublist
      rw [List.filterMap_cons_some ht]
      simpa [Assignment.idents] using hrefs.trans (filterMap_ident?_sublist us)

/-- A reference of a tree is a token of the text that starts no statement. -/
theorem Statements.mem_of_reference {as : List Assignment} {ts rest : List Token}
    (h : Statements rest as ts) {a : Assignment} (ha : a ∈ as) {i : Ident}
    (hi : i ∈ a.references) : ⟨.ident i.name, i.span⟩ ∈ ts := by
  induction h with
  | nil => simp at ha
  | @cons b as us vs h _ ih =>
    rcases List.mem_append.1 ha with ha | ha
    · obtain rfl := Option.mem_toList.1 ha
      obtain ⟨t, us, rfl, -, hrefs⟩ := h.references_sublist
      obtain ⟨u, hu, hident⟩ := List.mem_filterMap.1 (hrefs.subset hi)
      obtain ⟨terminal, span⟩ := u
      cases terminal <;> simp only [Token.ident?, Option.some.injEq, reduceCtorEq] at hident
      subst hident
      exact List.mem_append_left _ (List.mem_cons_of_mem t hu)
    · exact List.mem_append_right _ (ih ha)

end Recovered

end AssignLang
