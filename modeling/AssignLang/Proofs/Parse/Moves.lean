import AssignLang.Parse.File

/-! A parse goes on in two ways only: it consumes the current token or complains about
it. Every reader is a run of such moves, so what a move keeps a whole parse keeps: the
reports of the scanner are passed on once and in order, and no complaint is withdrawn. -/

namespace AssignLang

namespace ParseState

variable {s t : ParseState} {r : Reading} {rest : List Reading}

theorem skipFrom_of_stopsAt {level : Level} (h : level.stopsAt s.kind = true)
    (run : Option Span) : s.skipFrom level run = (run, s) := by
  unfold skipFrom
  split
  · rfl
  · rename_i r rest hs
    rw [kind, hs] at h
    rw [if_pos h]

theorem skipFrom_cons {level : Level} (hs : s.ahead = r :: rest)
    (h : level.stopsAt r.token.kind = false) (run : Option Span) :
    s.skipFrom level run = s.advance.skipFrom level (some (Span.join run r.token.span)) := by
  rw [skipFrom]
  split
  · simp_all
  · rename_i r' rest' hs'
    obtain ⟨rfl, rfl⟩ := List.cons.inj (hs.symm.trans hs')
    rw [if_neg (by simp [h])]

theorem operand_of_some {e : Expr} (h : s.ahead.head?.bind (·.token.operand?) = some e) :
    s.operand = (some e, s.advance) := by
  rw [operand, h]

theorem operand_of_none (h : s.ahead.head?.bind (·.token.operand?) = none) :
    s.operand = (none, s.reject .string) := by
  rw [operand, h]

theorem statements_nil (hs : s.ahead = []) (passed : List Assignment) :
    s.statements passed = (passed.reverse, s) := by
  rw [statements]
  split
  · rfl
  · simp_all

theorem statements_target {target : Ident} (hs : s.ahead = r :: rest)
    (h : r.token.target? = some target) (passed : List Assignment) :
    s.statements passed = (s.advance.assignment target).2.statements
      ((s.advance.assignment target).1 :: passed) := by
  rw [statements]
  split
  · simp_all
  · rename_i r' rest' hs'
    obtain ⟨rfl, rfl⟩ := List.cons.inj (hs.symm.trans hs')
    split
    · rename_i target' ht
      obtain rfl := Option.some.inj (h.symm.trans ht)
      rfl
    · simp_all

theorem statements_stray (hs : s.ahead = r :: rest) (h : r.token.target? = none)
    (passed : List Assignment) :
    s.statements passed = ((s.reject .ident).skip .assignment).2.statements passed := by
  rw [statements]
  split
  · simp_all
  · rename_i r' rest' hs'
    obtain ⟨rfl, rfl⟩ := List.cons.inj (hs.symm.trans hs')
    split
    · simp_all
    · rfl

end ParseState

namespace ExprReader

variable {level : Level} {operands : ExprReader} {s t : ParseState} {op : Operator}

theorem chainFrom_of_none (h : s.operator? level = none) (left : Expr) :
    chainFrom level operands left s = (left, s) := by
  rw [chainFrom]
  split
  · rfl
  · simp_all

theorem chainFrom_join {right : Expr} (h : s.operator? level = some op)
    (hr : operands.read s.advance = (some right, t)) (left : Expr) :
    chainFrom level operands left s = chainFrom level operands (.binary op left right) t := by
  rw [chainFrom]
  split
  · simp_all
  · rename_i op' h'
    obtain rfl := Option.some.inj (h.symm.trans h')
    split
    · rename_i right' t' hr'
      obtain ⟨hright, rfl⟩ := Prod.mk.inj (hr.symm.trans hr')
      obtain rfl := Option.some.inj hright
      rfl
    · simp_all

theorem chainFrom_broken (h : s.operator? level = some op)
    (hr : operands.read s.advance = (none, t)) (left : Expr) :
    chainFrom level operands left s = chainFrom level operands
      (.broken (left.span.extend (t.skip level).1) op left) (t.skip level).2 := by
  rw [chainFrom]
  split
  · simp_all
  · rename_i op' h'
    obtain rfl := Option.some.inj (h.symm.trans h')
    split
    · simp_all
    · rename_i t' hr'
      obtain ⟨-, rfl⟩ := Prod.mk.inj (hr.symm.trans hr')
      rfl

end ExprReader

namespace ParseState

inductive Moves (s : ParseState) : ParseState → Prop
  | refl : Moves s s
  | advance {t : ParseState} (h : Moves s t) : Moves s t.advance
  | reject {t : ParseState} (wanted : TokenKind) (h : Moves s t) : Moves s (t.reject wanted)

theorem Moves.trans {s t u : ParseState} (h : Moves s t) (h' : Moves t u) : Moves s u := by
  induction h' with
  | refl => exact h
  | advance _ ih => exact .advance ih
  | reject wanted _ ih => exact .reject wanted ih

theorem moves_skipFrom (level : Level) (run : Option Span) (s : ParseState) :
    Moves s (s.skipFrom level run).2 := by
  fun_induction skipFrom level run s with
  | case1 | case2 => exact .refl
  | case3 run s r rest hs hstop ih => exact (Moves.advance .refl).trans ih

theorem moves_skip (level : Level) (s : ParseState) : Moves s (s.skip level).2 :=
  moves_skipFrom level none s

theorem moves_operand (s : ParseState) : Moves s s.operand.2 := by
  unfold operand
  split
  · exact .advance .refl
  · exact .reject _ .refl

end ParseState

namespace ExprReader

open ParseState

theorem moves_chainFrom (level : Level) {operands : ExprReader}
    (h : ∀ s, Moves s (operands.read s).2) (left : Expr) (s : ParseState) :
    Moves s (chainFrom level operands left s).2 := by
  fun_induction chainFrom level operands left s with
  | case1 => exact .refl
  | case2 left s op hop right t hr ih =>
    have hread := h s.advance
    rw [hr] at hread
    exact (Moves.advance .refl).trans (hread.trans ih)
  | case3 left s op hop t hr skipped ih =>
    have hread := h s.advance
    rw [hr] at hread
    exact (Moves.advance .refl).trans (hread.trans ((moves_skip level t).trans ih))

theorem moves_chain (level : Level) {operands : ExprReader}
    (h : ∀ s, Moves s (operands.read s).2) (s : ParseState) :
    Moves s ((chain level operands).read s).2 := by
  have hread := h s
  simp only [chain, readChain]
  split
  · simp_all
  · rename_i left t ht
    rw [ht] at hread
    exact hread.trans (moves_chainFrom level h left t)

theorem moves_product (s : ParseState) : Moves s (product.read s).2 :=
  moves_chain .product moves_operand s

theorem moves_value (s : ParseState) : Moves s (value.read s).2 :=
  moves_chain .sum moves_product s

end ExprReader

namespace ParseState

theorem moves_assigned (s : ParseState) : Moves s s.assigned.2 := by
  unfold assigned
  split
  · exact (Moves.advance .refl).trans (ExprReader.moves_value _)
  · exact .reject _ .refl

theorem moves_assignment (target : Ident) (s : ParseState) :
    Moves s (s.assignment target).2 := by
  have h := moves_assigned s
  unfold assignment
  split
  · simp_all
  · rename_i t ht
    rw [ht] at h
    exact h.trans (moves_skip .assignment t)

theorem moves_statements (passed : List Assignment) (s : ParseState) :
    Moves s (s.statements passed).2 := by
  fun_induction statements passed s with
  | case1 => exact .refl
  | case2 passed s r rest h target ht result ih =>
    exact (Moves.advance .refl).trans ((moves_assignment target s.advance).trans ih)
  | case3 passed s r rest h ht ih =>
    exact (Moves.reject .ident .refl).trans ((moves_skip .assignment _).trans ih)

/-- What the scanner reported and the parse has not passed on yet. -/
def pending (s : ParseState) : List Diagnostic :=
  match s.ahead with
  | [] => []
  | _ :: rest => rest.flatMap Reading.reports ++ s.closing

/-- The complaints of the scanner, those to come included. -/
def lexical (s : ParseState) : List Diagnostic :=
  (s.log.reverse ++ s.pending).filter (·.cause.isLexical)

theorem lexical_advance (s : ParseState) : s.advance.lexical = s.lexical := by
  obtain ⟨ahead, finish, closing, log⟩ := s
  match ahead with
  | [] => rfl
  | [r] => simp [lexical, pending, advance, arrive]
  | r :: r' :: rest => simp [lexical, pending, advance, arrive]

theorem lexical_reject (wanted : TokenKind) (s : ParseState) :
    (s.reject wanted).lexical = s.lexical := by
  simp [lexical, pending, reject, Cause.isLexical]

theorem Moves.lexical_eq {s t : ParseState} (h : Moves s t) : t.lexical = s.lexical := by
  induction h with
  | refl => rfl
  | advance _ ih => rw [lexical_advance, ih]
  | reject wanted _ ih => rw [lexical_reject, ih]

variable {r : Reading} {rest : List Reading}

/-- The complaints of the parse itself, the last first. -/
def rejections (s : ParseState) : List Diagnostic := s.log.filter (·.cause.isExpectation)

/-- All that the scanner reported on the tokens ahead is lexical. -/
structure Scanned (s : ParseState) : Prop where
  ahead : ∀ r ∈ s.ahead, ∀ d ∈ r.reports, d.cause.isLexical = true
  closing : ∀ d ∈ s.closing, d.cause.isLexical = true

theorem filter_isExpectation_eq_nil {ds : List Diagnostic}
    (h : ∀ d ∈ ds, d.cause.isLexical = true) : ds.filter (·.cause.isExpectation) = [] := by
  rw [List.filter_eq_nil_iff]
  intro d hd
  have hlex := h d hd
  cases hc : d.cause <;> simp_all [Cause.isLexical, Cause.isExpectation]

theorem Scanned.arrive {s : ParseState} (h : s.Scanned) : s.arrive.Scanned := by
  unfold ParseState.arrive
  split <;> exact ⟨h.ahead, h.closing⟩

theorem rejections_arrive {s : ParseState} (h : s.Scanned) :
    s.arrive.rejections = s.rejections := by
  have hclosing := filter_isExpectation_eq_nil h.closing
  unfold ParseState.arrive rejections
  split
  · simp [List.filter_reverse, hclosing]
  · rename_i r rest hs
    have hr := filter_isExpectation_eq_nil (h.ahead r (by simp [hs]))
    simp [List.filter_reverse, hr]

theorem Scanned.tail {s : ParseState} (h : s.Scanned) (hs : s.ahead = r :: rest) :
    { s with ahead := rest }.Scanned :=
  ⟨fun r' hr' => h.ahead r' (by rw [hs]; exact List.mem_cons_of_mem r hr'), h.closing⟩

theorem Scanned.advance {s : ParseState} (h : s.Scanned) : s.advance.Scanned := by
  unfold ParseState.advance
  split
  · exact h
  · rename_i r rest hs
    exact (h.tail hs).arrive

theorem rejections_advance {s : ParseState} (h : s.Scanned) :
    s.advance.rejections = s.rejections := by
  unfold ParseState.advance
  split
  · rfl
  · rename_i r rest hs
    rw [rejections_arrive (h.tail hs)]
    rfl

theorem rejections_reject (wanted : TokenKind) (s : ParseState) :
    (s.reject wanted).rejections = ⟨s.span, .expected wanted s.kind⟩ :: s.rejections := by
  simp [rejections, reject, Cause.isExpectation]

theorem Moves.scanned {s t : ParseState} (h : Moves s t) (hs : s.Scanned) : t.Scanned := by
  induction h with
  | refl => exact hs
  | advance _ ih => exact ih.advance
  | reject wanted _ ih => exact ⟨ih.ahead, ih.closing⟩

/-- The reports so far come from the scanner or from the parse itself. -/
def Logged (s : ParseState) : Prop :=
  ∀ d ∈ s.log, d.cause.isLexical = true ∨ d.cause.isExpectation = true

theorem Logged.arrive {s : ParseState} (h : s.Logged) (hs : s.Scanned) : s.arrive.Logged := by
  have hreports : ∀ reports : List Diagnostic, (∀ d ∈ reports, d.cause.isLexical = true) →
      ∀ d ∈ reports.reverse ++ s.log, d.cause.isLexical = true ∨ d.cause.isExpectation = true := by
    intro reports hlexical d hd
    rcases List.mem_append.1 hd with hd | hd
    · exact .inl (hlexical d (List.mem_reverse.1 hd))
    · exact h d hd
  unfold ParseState.arrive
  split
  · exact hreports s.closing hs.closing
  · rename_i r rest hahead
    exact hreports r.reports (hs.ahead r (by simp [hahead]))

theorem Moves.logged {s t : ParseState} (h : Moves s t) (hs : s.Scanned) (hlog : s.Logged) :
    t.Logged := by
  induction h with
  | refl => exact hlog
  | @advance t h ih =>
    unfold ParseState.advance
    split
    · exact ih
    · rename_i r rest hahead
      exact Logged.arrive ih ((h.scanned hs).tail hahead)
  | reject wanted h ih => exact List.forall_mem_cons.2 ⟨.inr rfl, ih⟩

/-- No complaint is withdrawn. -/
theorem Moves.rejections_suffix {s t : ParseState} (h : Moves s t) (hs : s.Scanned) :
    s.rejections <:+ t.rejections := by
  induction h with
  | refl => exact List.suffix_refl _
  | advance h ih => rw [rejections_advance (h.scanned hs)]; exact ih
  | reject wanted _ ih => rw [rejections_reject]; exact ih.trans (List.suffix_cons _ _)

end ParseState

end AssignLang
