import AssignLang.Check.Inference

/-! What inference computes, by recursion on the value: its kind, the references it marks
and its complaints. Marking changes no kind, so all three are functions of the table in
front of the value, and the order in which the nodes are visited drops out. -/

namespace AssignLang

def Expr.references : Expr → List Ident
  | .integer .. | .string .. => []
  | .reference ident => [ident]
  | .operation _ _ left right => left.references ++ right.references
  | .broken _ _ left => left.references

namespace Definitions

theorem getElem?_insert (defs : Definitions) (name other : String) (d : Definition) :
    (defs.insert name d)[other]? = if name = other then some d else defs[other]? := by
  rw [Std.TreeMap.getElem?_insert]
  simp

def mark (defs : Definitions) (name : String) : Definitions :=
  match defs[name]? with
  | some d => defs.insert name { d with used := true }
  | none => defs

def markAll (defs : Definitions) (idents : List Ident) : Definitions :=
  idents.foldl (fun defs ident => defs.mark ident.name) defs

def kind? (defs : Definitions) (name : String) : Option Kind := defs[name]?.map (·.kind)

/-- The kind of an expression, unknown if something is wrong with it. -/
def kindOf (defs : Definitions) : Expr → Kind
  | .integer .. => .integer
  | .string .. => .string
  | .reference ident => (defs.kind? ident.name).getD .unknown
  | .operation _ op left right =>
    (op.resultKind? (defs.kindOf left) (defs.kindOf right)).getD .unknown
  | .broken .. => .unknown

/-- What is wrong with an expression by itself, its operands set apart. -/
def complaintsOf (defs : Definitions) : Expr → List Diagnostic
  | .integer .. | .string .. | .broken .. => []
  | .reference ident =>
    if (defs.kind? ident.name).isSome then [] else [⟨ident.span, .unknownVariable ident.name⟩]
  | .operation span op left right =>
    if (op.resultKind? (defs.kindOf left) (defs.kindOf right)).isSome then []
    else [⟨span, .stringOperand op⟩]

/-- What is wrong with an expression, operands first. -/
def complaints (defs : Definitions) : Expr → List Diagnostic
  | .integer .. | .string .. => []
  | .reference ident => defs.complaintsOf (.reference ident)
  | .operation span op left right =>
    defs.complaints left ++ defs.complaints right ++
      defs.complaintsOf (.operation span op left right)
  | .broken _ _ left => defs.complaints left

theorem reverse_complaintsOf (defs : Definitions) (e : Expr) :
    (defs.complaintsOf e).reverse = defs.complaintsOf e := by
  cases e with
  | integer | string | broken => rfl
  | reference ident => rw [complaintsOf]; split <;> rfl
  | operation span op left right => rw [complaintsOf]; split <;> rfl

theorem getElem?_mark (defs : Definitions) (name other : String) :
    (defs.mark name)[other]? =
      defs[other]?.map fun d => if name = other then { d with used := true } else d := by
  unfold mark
  split
  · rename_i d hd
    rw [getElem?_insert]
    by_cases h : name = other
    · subst h
      simp [hd]
    · simp [h]
  · rename_i hd
    by_cases h : name = other
    · subst h
      simp [hd]
    · simp [h]

theorem getElem?_markAll (defs : Definitions) (idents : List Ident) (name : String) :
    (defs.markAll idents)[name]? = defs[name]?.map fun d =>
      { d with used := d.used || idents.any (·.name = name) } := by
  induction idents generalizing defs with
  | nil => simp [markAll]
  | cons ident idents ih =>
    rw [markAll, List.foldl_cons, ← markAll, ih, getElem?_mark, Option.map_map]
    congr 1
    funext d
    by_cases h : ident.name = name <;> simp [h]

theorem markAll_append (defs : Definitions) (idents more : List Ident) :
    defs.markAll (idents ++ more) = (defs.markAll idents).markAll more := List.foldl_append

@[simp] theorem kind?_markAll (defs : Definitions) (idents : List Ident) :
    (defs.markAll idents).kind? = defs.kind? := by
  funext name
  rw [kind?, getElem?_markAll, Option.map_map]
  rfl

variable {defs defs' : Definitions} {e : Expr}

/-- Of the table only the kinds of the names that are read matter. -/
theorem kindOf_congr (h : ∀ ident ∈ e.references, defs.kind? ident.name = defs'.kind? ident.name) :
    defs.kindOf e = defs'.kindOf e := by
  induction e with
  | integer | string | broken => rfl
  | reference ident => rw [kindOf, kindOf, h ident (List.mem_singleton_self ident)]
  | operation span op left right ihl ihr =>
    rw [kindOf, kindOf, ihl fun ident hi => h ident (List.mem_append_left _ hi),
      ihr fun ident hi => h ident (List.mem_append_right _ hi)]

theorem complaints_congr
    (h : ∀ ident ∈ e.references, defs.kind? ident.name = defs'.kind? ident.name) :
    defs.complaints e = defs'.complaints e := by
  induction e with
  | integer | string => rfl
  | broken span op left ih => exact ih h
  | reference ident =>
    rw [complaints, complaints, complaintsOf, complaintsOf, h ident (List.mem_singleton_self ident)]
  | operation span op left right ihl ihr =>
    have hl : ∀ ident ∈ left.references, defs.kind? ident.name = defs'.kind? ident.name :=
      fun ident hi => h ident (List.mem_append_left _ hi)
    have hr : ∀ ident ∈ right.references, defs.kind? ident.name = defs'.kind? ident.name :=
      fun ident hi => h ident (List.mem_append_right _ hi)
    rw [complaints, complaints, complaintsOf, complaintsOf, ihl hl, ihr hr, kindOf_congr hl,
      kindOf_congr hr]

theorem kindOf_markAll (defs : Definitions) (idents : List Ident) (e : Expr) :
    (defs.markAll idents).kindOf e = defs.kindOf e :=
  kindOf_congr fun _ _ => by rw [kind?_markAll]

theorem complaints_markAll (defs : Definitions) (idents : List Ident) (e : Expr) :
    (defs.markAll idents).complaints e = defs.complaints e :=
  complaints_congr fun _ _ => by rw [kind?_markAll]

end Definitions

namespace Inference

theorem lookup_eq (s : Inference) (ident : Ident) :
    s.lookup ident = (s.definitions.kindOf (.reference ident),
      { s with
        definitions := s.definitions.mark ident.name
        log := s.definitions.complaintsOf (.reference ident) ++ s.log }) := by
  rw [lookup, Definitions.kindOf, Definitions.complaintsOf, Definitions.kind?, Definitions.mark]
  cases s.definitions[ident.name]? <;> rfl

theorem combine_eq (s : Inference) (defs : Definitions) (span : Span) (op : Operator)
    (left right : Expr) : s.combine span op (defs.kindOf left) (defs.kindOf right) =
      (defs.kindOf (.operation span op left right),
        { s with log := defs.complaintsOf (.operation span op left right) ++ s.log }) := by
  rw [combine, Definitions.kindOf, Definitions.complaintsOf]
  cases op.resultKind? (defs.kindOf left) (defs.kindOf right) <;> rfl

/-- Visiting the nodes of an expression puts its kind on the stack. -/
theorem foldl_visit (e : Expr) (s : Inference) :
    e.postorder.foldl visit s = ⟨s.definitions.markAll e.references,
      s.definitions.kindOf e :: s.operands, (s.definitions.complaints e).reverse ++ s.log⟩ := by
  induction e generalizing s with
  | integer | string => rfl
  | reference ident =>
    change push s.operands (s.lookup ident) = _
    rw [lookup_eq, Definitions.complaints, Definitions.reverse_complaintsOf]
    rfl
  | broken span op left ih =>
    rw [Expr.postorder_broken, List.foldl_append, ih]
    rfl
  | operation span op left right ihl ihr =>
    rw [Expr.postorder_operation, List.foldl_append, List.foldl_append, ihl, ihr]
    simp only [List.foldl_cons, List.foldl_nil, visit, Definitions.kindOf_markAll,
      Definitions.complaints_markAll, ← Definitions.markAll_append]
    rw [combine_eq, push, Definitions.complaints, List.reverse_append, List.reverse_append,
      Definitions.reverse_complaintsOf]
    simp only [Expr.references, List.append_assoc]

end Inference

namespace Definitions

theorem infer_eq (defs : Definitions) (e : Expr) :
    defs.infer e = ⟨defs.kindOf e, defs.markAll e.references, defs.complaints e⟩ := by
  rw [infer, Inference.foldl_visit]
  simp

end Definitions

end AssignLang
