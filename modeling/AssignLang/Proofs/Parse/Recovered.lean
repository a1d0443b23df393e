import AssignLang.Proofs.Parse.Derivation
import AssignLang.Proofs.Spans

/-! Trees with the tokens they are read from, whatever is wrong with these. A value, a
statement or a file is related to the tokens that were consumed for it, those skipped by
recovery included, and to what stands behind. Reading gives a tree exactly if it is so
related to the tokens. Of what stands behind only the first token matters, and the start
of a statement is as good as any other: so parts can be put in front of other statements. -/

namespace AssignLang

/-- The level that the operator joins operands of. -/
def Operator.level (op : Operator) : Level := if op.isAdditive then .sum else .product

theorem Level.eq_of_joins {level : Level} {op : Operator} (h : level.joins op = true) :
    op.level = level := by
  cases level <;> simp_all [joins, Operator.level]

namespace Recovered

/-- Recovery at the level passes over `us` and stops before `rest`. -/
structure Skipped (level : Level) (us rest : List Token) : Prop where
  passed : ∀ t ∈ us, level.stopsAt t.kind = false
  stop : ∀ t ∈ rest.head?, level.stopsAt t.kind = true

/-- The span over skipped tokens, if there are any. -/
def covered (us : List Token) : Option Span := Span.cover (us.map Token.span)

def NoOperand (ts : List Token) : Prop := ∀ t ∈ ts.head?, t.operand? = none

def NoAssign (ts : List Token) : Prop := ∀ t ∈ ts.head?, t.terminal ≠ .assign

/-- One operand; what stands behind does not matter. -/
def Operand (e : Expr) (ts _rest : List Token) : Prop := ∃ t, ts = [t] ∧ t.operand? = some e

/-- In front of `rest`, reading on from `left` consumes some tokens and ends with an
expression. An operator without a right operand breaks its operation. -/
inductive Joined (level : Level) (D : Expr → List Token → List Token → Prop)
    (rest : List Token) : Expr → Expr → List Token → Prop
  | done (left : Expr) (h : level.EndsBefore rest) : Joined level D rest left left []
  | join {left right e : Expr} {t : Token} {op : Operator} {us vs : List Token}
      (ht : t.terminal = .operator op) (hop : level.joins op = true) (hr : D right us (vs ++ rest))
      (h : Joined level D rest (.binary op left right) e vs) :
      Joined level D rest left e (t :: (us ++ vs))
  | broken {left e : Expr} {t : Token} {op : Operator} {us vs : List Token}
      (ht : t.terminal = .operator op) (hop : level.joins op = true)
      (hno : NoOperand (us ++ (vs ++ rest))) (hskip : Skipped level us (vs ++ rest))
      (h : Joined level D rest (.broken (left.span.extend (covered us)) op left) e vs) :
      Joined level D rest left e (t :: (us ++ vs))

def Chain (level : Level) (D : Expr → List Token → List Token → Prop) (e : Expr)
    (ts rest : List Token) : Prop :=
  ∃ left us vs, ts = us ++ vs ∧ D left us (vs ++ rest) ∧ Joined level D rest left e vs

def Product : Expr → List Token → List Token → Prop := Chain .product Operand

def Value : Expr → List Token → List Token → Prop := Chain .sum Product

/-- A statement in front of `rest`, with the assignment it gives, if it gives one. -/
inductive Statement (rest : List Token) : Option Assignment → List Token → Prop
  | complete {t u : Token} {target : Ident} {value : Expr} {us : List Token}
      (ht : t.target? = some target) (hu : u.terminal = .assign) (hvalue : Value value us rest) :
      Statement rest (some (.complete target value)) (t :: u :: us)
  | unassigned {t : Token} {target : Ident} {us : List Token}
      (ht : t.target? = some target) (hno : NoAssign (us ++ rest))
      (hskip : Skipped .assignment us rest) :
      Statement rest (some (.failed target (covered us))) (t :: us)
  | valueless {t u : Token} {target : Ident} {us : List Token}
      (ht : t.target? = some target) (hu : u.terminal = .assign) (hno : NoOperand (us ++ rest))
      (hskip : Skipped .assignment us rest) :
      Statement rest (some (.failed target (covered us))) (t :: u :: us)
  | stray {t : Token} {us : List Token} (ht : t.target? = none)
      (hskip : Skipped .assignment (t :: us) rest) : Statement rest none (t :: us)

inductive Statements (rest : List Token) : List Assignment → List Token → Prop
  | nil : Statements rest [] []
  | cons {a : Option Assignment} {as : List Assignment} {us vs : List Token}
      (h : Statement (vs ++ rest) a us) (hs : Statements rest as vs) :
      Statements rest (a.toList ++ as) (us ++ vs)

end Recovered

namespace ParseState

open Recovered

theorem operand_eq (s : ParseState) :
    (∃ t ts e, s.tokens = t :: ts ∧ t.operand? = some e ∧ s.operand = (some e, s.advance)) ∨
      (NoOperand s.tokens ∧ s.operand = (none, s.reject .string)) := by
  cases h : s.ahead.head?.bind (·.token.operand?) with
  | some e =>
    obtain ⟨r, hr, he⟩ := Option.bind_eq_some_iff.1 h
    obtain ⟨more, hmore⟩ := List.head?_eq_some_iff.1 hr
    exact .inl ⟨r.token, more.map Reading.token, e, by rw [tokens, hmore]; rfl, he,
      operand_of_some h⟩
  | none =>
    refine .inr ⟨fun t ht => ?_, operand_of_none h⟩
    rw [tokens, List.head?_map] at ht
    obtain ⟨r, hr, rfl⟩ := Option.map_eq_some_iff.1 ht
    rw [hr] at h
    exact h

theorem tokens_reject (wanted : TokenKind) (s : ParseState) :
    (s.reject wanted).tokens = s.tokens := rfl

/-- Recovery skips the longest run of tokens that do not stop it. -/
theorem skipFrom_eq (level : Level) (run : Option Span) (s : ParseState) :
    ∃ us, s.tokens = us ++ (s.skipFrom level run).2.tokens ∧
      Skipped level us (s.skipFrom level run).2.tokens ∧
      (s.skipFrom level run).1 =
        (us.map Token.span).foldl (fun run s => some (Span.join run s)) run := by
  fun_induction skipFrom level run s with
  | case1 run s hs => exact ⟨[], rfl, ⟨by simp, by simp [tokens, hs]⟩, rfl⟩
  | case2 run s r more hs hstop =>
    refine ⟨[], rfl, ⟨by simp, fun t ht => ?_⟩, rfl⟩
    rw [tokens, hs] at ht
    obtain rfl := Option.some.inj ht
    exact hstop
  | case3 run s r more hs hstop ih =>
    obtain ⟨us, htokens, hskip, hrun⟩ := ih
    refine ⟨r.token :: us, ?_, ⟨List.forall_mem_cons.2 ⟨by simpa using hstop, hskip.passed⟩,
      hskip.stop⟩, hrun⟩
    rw [List.cons_append, ← htokens, tokens_advance, tokens, hs]
    rfl

theorem skip_eq (level : Level) (s : ParseState) :
    ∃ us, s.tokens = us ++ (s.skip level).2.tokens ∧ Skipped level us (s.skip level).2.tokens ∧
      (s.skip level).1 = covered us := skipFrom_eq level none s

end ParseState

namespace Recovered

theorem Skipped.unique {level : Level} {us us' rest rest' : List Token}
    (h : Skipped level us rest) (h' : Skipped level us' rest') (heq : us ++ rest = us' ++ rest') :
    us = us' ∧ rest = rest' := by
  have hshort : ∀ {us us' rest rest' m : List Token}, Skipped level us rest →
      Skipped level us' rest' → us' = us ++ m → rest = m ++ rest' → m = [] := by
    intro us us' rest rest' m h h' hus hrest
    cases m with
    | nil => rfl
    | cons t m =>
      have hpass := h'.passed t (by rw [hus]; simp)
      rw [h.stop t (by rw [hrest]; rfl)] at hpass
      simp at hpass
  rcases List.append_eq_append_iff.1 heq with ⟨m, hus, hrest⟩ | ⟨m, hus, hrest⟩
  · obtain rfl := hshort h h' hus hrest
    simp_all
  · obtain rfl := hshort h' h hus hrest
    simp_all

end Recovered

theorem ParseState.skip_of_skipped {level : Level} {s : ParseState} {us rest : List Token}
    (htokens : s.tokens = us ++ rest) (h : Recovered.Skipped level us rest) :
    (s.skip level).1 = Recovered.covered us ∧ (s.skip level).2.tokens = rest := by
  obtain ⟨us', htokens', h', hcovered⟩ := s.skip_eq level
  obtain ⟨rfl, hrest⟩ := h.unique h' (htokens.symm.trans htokens')
  exact ⟨hcovered, hrest.symm⟩

namespace ExprReader

open ParseState Recovered

/-- The reader reads what `D` relates to the tokens, and nothing if no operand comes first. -/
structure Computes (D : Expr → List Token → List Token → Prop) (operands : ExprReader) :
    Prop where
  sound : ∀ s : ParseState,
    (∃ e ts, (operands.read s).1 = some e ∧ s.tokens = ts ++ (operands.read s).2.tokens ∧
      D e ts (operands.read s).2.tokens) ∨
    ((operands.read s).1 = none ∧ (operands.read s).2.tokens = s.tokens ∧ NoOperand s.tokens)
  complete : ∀ {s : ParseState} {e : Expr} {ts rest : List Token}, s.tokens = ts ++ rest →
    D e ts rest → (operands.read s).1 = some e ∧ (operands.read s).2.tokens = rest
  starts : ∀ {e : Expr} {ts rest : List Token}, D e ts rest → ¬ NoOperand (ts ++ rest)

theorem computes_operand : Computes Operand operand where
  sound s := by
    rcases s.operand_eq with ⟨t, ts, e, htokens, he, hread⟩ | ⟨hno, hread⟩
    · refine .inl ⟨e, [t], ?_, ?_, t, rfl, he⟩
      · exact congrArg Prod.fst hread
      · change s.tokens = [t] ++ s.operand.2.tokens
        rw [hread, tokens_advance, htokens]
        rfl
    · exact .inr ⟨congrArg Prod.fst hread, congrArg (·.2.tokens) hread, hno⟩
  complete := by
    rintro s e ts rest htokens ⟨t, rfl, he⟩
    rcases s.operand_eq with ⟨t', ts', e', htokens', he', hread⟩ | ⟨hno, -⟩
    · obtain ⟨rfl, rfl⟩ := List.cons.inj (htokens.symm.trans htokens')
      obtain rfl := Option.some.inj (he.symm.trans he')
      refine ⟨congrArg Prod.fst hread, ?_⟩
      change s.operand.2.tokens = _
      rw [hread, tokens_advance, htokens]
      rfl
    · rw [hno t (by rw [htokens]; rfl)] at he
      simp at he
  starts := by
    rintro e ts rest ⟨t, rfl, he⟩ hno
    rw [hno t rfl] at he
    simp at he

variable {D : Expr → List Token → List Token → Prop} {operands : ExprReader}

theorem Computes.none_of_noOperand (h : Computes D operands) {s : ParseState}
    (hno : NoOperand s.tokens) :
    (operands.read s).1 = none ∧ (operands.read s).2.tokens = s.tokens := by
  rcases h.sound s with ⟨e, ts, -, htokens, hD⟩ | ⟨hnone, htokens, -⟩
  · have hstarts := h.starts hD
    rw [← htokens] at hstarts
    exact absurd hno hstarts
  · exact ⟨hnone, htokens⟩

theorem endsBefore_of_operator?_eq_none {level : Level} {s : ParseState}
    (h : s.operator? level = none) : level.EndsBefore s.tokens := by
  intro t ht op hterm
  obtain ⟨ts, hts⟩ := List.head?_eq_some_iff.1 ht
  rw [Bool.eq_false_iff]
  intro hop
  rw [operator?_eq_some_iff.2 ⟨t, ts, hts, hterm, hop⟩] at h
  simp at h

theorem operator?_eq_none_of_endsBefore {level : Level} {s : ParseState}
    (h : level.EndsBefore s.tokens) : s.operator? level = none := by
  rw [Option.eq_none_iff_forall_ne_some]
  intro op hop
  obtain ⟨t, ts, hts, hterm, hjoins⟩ := operator?_eq_some_iff.1 hop
  rw [h t (by rw [hts]; rfl) op hterm] at hjoins
  simp at hjoins

theorem Computes.chainFrom_sound (h : Computes D operands) (level : Level) (left : Expr)
    (s : ParseState) :
    ∃ ts, s.tokens = ts ++ (chainFrom level operands left s).2.tokens ∧
      Joined level D (chainFrom level operands left s).2.tokens left
        (chainFrom level operands left s).1 ts := by
  fun_induction chainFrom level operands left s with
  | case1 left s hop => exact ⟨[], rfl, .done left (endsBefore_of_operator?_eq_none hop)⟩
  | case2 left s op hop right t hr ih =>
    obtain ⟨vs, hvs, hjoined⟩ := ih
    obtain ⟨tok, ts, hts, hterm, hjoins⟩ := operator?_eq_some_iff.1 hop
    have hadvance : s.advance.tokens = ts := by rw [tokens_advance, hts]; rfl
    have hsound := h.sound s.advance
    rw [hr] at hsound
    rcases hsound with ⟨e, us, he, hus, hD⟩ | ⟨hnone, -⟩
    · obtain rfl := Option.some.inj he
      rw [hvs] at hus hD
      refine ⟨tok :: (us ++ vs), ?_, .join hterm hjoins hD hjoined⟩
      rw [hts, ← hadvance, hus]
      simp
    · simp at hnone
  | case3 left s op hop t hr skipped ih =>
    obtain ⟨vs, hvs, hjoined⟩ := ih
    obtain ⟨tok, ts, hts, hterm, hjoins⟩ := operator?_eq_some_iff.1 hop
    have hadvance : s.advance.tokens = ts := by rw [tokens_advance, hts]; rfl
    have hsound := h.sound s.advance
    rw [hr] at hsound
    rcases hsound with ⟨e, us, he, -⟩ | ⟨-, htokens, hno⟩
    · simp at he
    · obtain ⟨us, hus, hskip, hcovered⟩ := t.skip_eq level
      change t.tokens = us ++ skipped.2.tokens at hus
      change Skipped level us skipped.2.tokens at hskip
      change skipped.1 = covered us at hcovered
      rw [← htokens, hus, hvs] at hno
      rw [hvs] at hskip
      rw [hcovered] at hjoined
      refine ⟨tok :: (us ++ vs), ?_,
        .broken hterm hjoins hno hskip (by rw [hcovered]; exact hjoined)⟩
      rw [hts, ← hadvance, ← htokens, hus, hvs]
      simp

theorem Computes.chainFrom_complete (h : Computes D operands) {level : Level} {left e : Expr}
    {ts rest : List Token} (hj : Joined level D rest left e ts) {s : ParseState}
    (htokens : s.tokens = ts ++ rest) : (chainFrom level operands left s).1 = e ∧
      (chainFrom level operands left s).2.tokens = rest := by
  induction hj generalizing s with
  | done left hend =>
    rw [chainFrom_of_none (operator?_eq_none_of_endsBefore (by rw [htokens]; exact hend))]
    exact ⟨rfl, htokens⟩
  | @join left right e t op us vs ht hop hr _ ih =>
    have hadvance : s.advance.tokens = us ++ (vs ++ rest) := by
      rw [tokens_advance, htokens, List.cons_append, List.tail_cons, List.append_assoc]
    obtain ⟨hread, hread'⟩ := h.complete hadvance hr
    rw [chainFrom_join (operator?_eq_some_iff.2 ⟨t, _, htokens, ht, hop⟩) (Prod.ext hread rfl)]
    exact ih hread'
  | @broken left e t op us vs ht hop hno hskip _ ih =>
    have hadvance : s.advance.tokens = us ++ (vs ++ rest) := by
      rw [tokens_advance, htokens, List.cons_append, List.tail_cons, List.append_assoc]
    obtain ⟨hread, hread'⟩ := h.none_of_noOperand (hadvance ▸ hno)
    obtain ⟨hcovered, hrest⟩ := skip_of_skipped (hread'.trans hadvance) hskip
    rw [chainFrom_broken (operator?_eq_some_iff.2 ⟨t, _, htokens, ht, hop⟩) (Prod.ext hread rfl),
      hcovered]
    exact ih hrest

theorem Computes.chain (h : Computes D operands) (level : Level) :
    Computes (Chain level D) (chain level operands) where
  sound s := by
    change (∃ e ts, (readChain level operands s).1 = some e ∧
        s.tokens = ts ++ (readChain level operands s).2.tokens ∧
        Chain level D e ts (readChain level operands s).2.tokens) ∨
      ((readChain level operands s).1 = none ∧ (readChain level operands s).2.tokens = s.tokens ∧ _)
    have hsound := h.sound s
    unfold readChain
    rcases hr : operands.read s with ⟨_ | left, t⟩ <;> rw [hr] at hsound
    · rcases hsound with ⟨e, ts, he, -⟩ | hnone
      · simp at he
      · exact .inr hnone
    · rcases hsound with ⟨e, us, he, hus, hD⟩ | ⟨hnone, -⟩
      · obtain rfl := Option.some.inj he
        obtain ⟨vs, hvs, hjoined⟩ := h.chainFrom_sound level left t
        refine .inl ⟨_, us ++ vs, rfl, ?_, left, us, vs, rfl, ?_, hjoined⟩
        · rw [hus, List.append_assoc, ← hvs]
        · rwa [← hvs]
      · simp at hnone
  complete := by
    rintro s e ts rest htokens ⟨left, us, vs, rfl, hD, hjoined⟩
    rw [List.append_assoc] at htokens
    obtain ⟨hread, hread'⟩ := h.complete htokens hD
    have hchain := h.chainFrom_complete hjoined hread'
    change (readChain level operands s).1 = some e ∧ (readChain level operands s).2.tokens = rest
    unfold readChain
    rw [show operands.read s = (some left, (operands.read s).2) from Prod.ext hread rfl]
    exact ⟨congrArg some hchain.1, hchain.2⟩
  starts := by
    rintro e ts rest ⟨left, us, vs, rfl, hD, -⟩
    rw [List.append_assoc]
    exact h.starts hD

theorem computes_value : Computes Value value :=
  (computes_operand.chain .product).chain .sum

end ExprReader

namespace ParseState

open Recovered

variable {s : ParseState} {target : Ident}

theorem noAssign_of_kind (h : s.kind ≠ .assign) : NoAssign s.tokens := by
  intro t ht hterminal
  obtain ⟨ts, hts⟩ := List.head?_eq_some_iff.1 ht
  exact h (kind_eq_assign_iff.2 ⟨t, ts, hts, hterminal⟩)

theorem kind_ne_assign (h : NoAssign s.tokens) : s.kind ≠ .assign := by
  intro hkind
  obtain ⟨t, ts, hts, hterminal⟩ := kind_eq_assign_iff.1 hkind
  exact h t (by rw [hts]; rfl) hterminal

theorem assignment_of_some {value : Expr} {t : ParseState} (h : s.assigned = (some value, t)) :
    s.assignment target = (.complete target value, t) := by
  rw [assignment, h]

theorem assignment_of_none (h : s.assigned.1 = none) : s.assignment target =
    (.failed target (s.assigned.2.skip .assignment).1, (s.assigned.2.skip .assignment).2) := by
  rw [assignment, show s.assigned = (none, s.assigned.2) from Prod.ext h rfl]

theorem statement_of_assignment {tok : Token} (htarget : tok.target? = some target) :
    ∃ us, s.tokens = us ++ (s.assignment target).2.tokens ∧
      Statement (s.assignment target).2.tokens (some (s.assignment target).1) (tok :: us) := by
  by_cases hk : s.kind = .assign
  · obtain ⟨u, ts, htokens, hu⟩ := kind_eq_assign_iff.1 hk
    have hassigned : s.assigned = ExprReader.value.read s.advance := by rw [assigned, if_pos hk]
    have hadvance : s.advance.tokens = ts := by rw [tokens_advance, htokens]; rfl
    have hsound := ExprReader.computes_value.sound s.advance
    rw [← hassigned, hadvance] at hsound
    rcases hsound with ⟨value, us, hvalue, hus, hD⟩ | ⟨hnone, hsame, hno⟩
    · rw [assignment_of_some (Prod.ext hvalue rfl)]
      exact ⟨u :: us, by rw [htokens, hus]; rfl, .complete htarget hu hD⟩
    · obtain ⟨us, hus, hskip, hcovered⟩ := s.assigned.2.skip_eq .assignment
      rw [assignment_of_none hnone, hcovered]
      rw [← hsame, hus] at hno
      exact ⟨u :: us, by rw [htokens, ← hsame, hus]; rfl, .valueless htarget hu hno hskip⟩
  · have hassigned : s.assigned = (none, s.reject .assign) := by rw [assigned, if_neg hk]
    have hno := noAssign_of_kind hk
    obtain ⟨us, hus, hskip, hcovered⟩ := (s.reject .assign).skip_eq .assignment
    rw [assignment_of_none (by rw [hassigned]), hassigned, hcovered]
    rw [tokens_reject] at hus
    rw [hus] at hno
    exact ⟨us, hus, .unassigned htarget hno hskip⟩

theorem assignment_of_statement {tok : Token} {a : Assignment} {us rest : List Token}
    (htarget : tok.target? = some target) (h : Statement rest (some a) (tok :: us))
    (htokens : s.tokens = us ++ rest) :
    (s.assignment target).1 = a ∧ (s.assignment target).2.tokens = rest := by
  cases h with
  | @complete _ u target' value us ht hu hvalue =>
    obtain rfl := Option.some.inj (htarget.symm.trans ht)
    have hadvance : s.advance.tokens = us ++ rest := by rw [tokens_advance, htokens]; rfl
    obtain ⟨hread, hread'⟩ := ExprReader.computes_value.complete hadvance hvalue
    have hassigned : s.assigned = ExprReader.value.read s.advance := by
      rw [assigned, if_pos (kind_eq_assign_iff.2 ⟨u, us ++ rest, htokens, hu⟩)]
    rw [← hassigned] at hread hread'
    rw [assignment_of_some (Prod.ext hread rfl)]
    exact ⟨rfl, hread'⟩
  | @unassigned _ target' us ht hno hskip =>
    obtain rfl := Option.some.inj (htarget.symm.trans ht)
    have hassigned : s.assigned = (none, s.reject .assign) := by
      rw [assigned, if_neg (kind_ne_assign (htokens ▸ hno))]
    obtain ⟨hcovered, hrest⟩ := skip_of_skipped (s := s.reject .assign) htokens hskip
    rw [assignment_of_none (by rw [hassigned]), hassigned, hcovered]
    exact ⟨rfl, hrest⟩
  | @valueless _ u target' us ht hu hno hskip =>
    obtain rfl := Option.some.inj (htarget.symm.trans ht)
    have hadvance : s.advance.tokens = us ++ rest := by rw [tokens_advance, htokens]; rfl
    obtain ⟨hread, hread'⟩ := ExprReader.computes_value.none_of_noOperand (hadvance ▸ hno)
    have hassigned : s.assigned = ExprReader.value.read s.advance := by
      rw [assigned, if_pos (kind_eq_assign_iff.2 ⟨u, us ++ rest, htokens, hu⟩)]
    rw [← hassigned] at hread hread'
    obtain ⟨hcovered, hrest⟩ := skip_of_skipped (hread'.trans hadvance) hskip
    rw [assignment_of_none hread, hcovered]
    exact ⟨rfl, hrest⟩

theorem statements_recovered (passed : List Assignment) (s : ParseState) :
    ∃ as, (s.statements passed).1 = passed.reverse ++ as ∧ Statements [] as s.tokens := by
  fun_induction statements passed s with
  | case1 passed s hnil => exact ⟨[], by simp, by rw [tokens, hnil]; exact .nil⟩
  | case2 passed s r more hahead target htarget result ih =>
    obtain ⟨as, has, hstatements⟩ := ih
    obtain ⟨us, hus, hone⟩ := statement_of_assignment (s := s.advance) htarget
    refine ⟨result.1 :: as, by rw [has]; simp, ?_⟩
    have hsplit : s.tokens = (r.token :: us) ++ result.2.tokens := by
      rw [List.cons_append, ← hus, tokens_advance, tokens, hahead]
      rfl
    rw [hsplit]
    exact .cons (a := some result.1) (by rw [List.append_nil]; exact hone) hstatements
  | case3 passed s r more hahead htarget ih =>
    obtain ⟨as, has, hstatements⟩ := ih
    obtain ⟨us, hus, hskip, -⟩ := (s.reject .ident).skip_eq .assignment
    rw [tokens_reject] at hus
    refine ⟨as, has, ?_⟩
    rw [hus]
    -- the first token is skipped at least
    obtain ⟨us', rfl⟩ : ∃ us', us = r.token :: us' := by
      rw [tokens, hahead, List.map_cons] at hus
      cases us with
      | nil =>
        have hstop := hskip.stop r.token (by rw [← List.nil_append (tokens _), ← hus]; rfl)
        rw [Token.stopsAt_of_target?_eq_none htarget] at hstop
        simp at hstop
      | cons t us' =>
        obtain ⟨rfl, -⟩ := List.cons.inj hus
        exact ⟨us', rfl⟩
    exact .cons (a := none) (by rw [List.append_nil]; exact .stray htarget hskip) hstatements

end ParseState

namespace Recovered

open ParseState

theorem Statement.exists_target {a : Assignment} {ts rest : List Token}
    (h : Statement rest (some a) ts) :
    ∃ t us, ts = t :: us ∧ t.target? = some a.target := by
  cases h with
  | @complete t u _ _ us ht => exact ⟨t, u :: us, rfl, ht⟩
  | @unassigned t _ us ht => exact ⟨t, us, rfl, ht⟩
  | @valueless t u _ us ht => exact ⟨t, u :: us, rfl, ht⟩

theorem Statements.read_from {as : List Assignment} {ts : List Token} (h : Statements [] as ts)
    {s : ParseState} (htokens : s.tokens = ts) (passed : List Assignment) :
    (s.statements passed).1 = passed.reverse ++ as := by
  induction h generalizing s passed with
  | nil =>
    have hnil : s.ahead = [] := by simpa [tokens] using htokens
    rw [statements_nil hnil, List.append_nil]
  | @cons a as us vs h _ ih =>
    rw [List.append_nil] at h
    cases a with
    | none =>
      cases h with
      | stray ht hskip =>
        obtain ⟨r, more, hahead, rfl, -⟩ := List.map_eq_cons_iff.1 htokens
        rw [statements_stray hahead ht]
        exact ih (skip_of_skipped (s := s.reject .ident) htokens hskip).2 passed
    | some a =>
      obtain ⟨t, us, rfl, ht⟩ := h.exists_target
      obtain ⟨r, more, hahead, rfl, -⟩ := List.map_eq_cons_iff.1 htokens
      obtain ⟨hread, hrest⟩ := assignment_of_statement (s := s.advance) ht h
        (by rw [tokens_advance, htokens]; rfl)
      rw [statements_target hahead ht, hread, ih hrest]
      simp

/-- Tokens are read as the assignments that they are related to. -/
theorem readStatements_eq_iff {as : List Assignment} {ts : List Token} :
    readStatements ts = as ↔ Statements [] as ts := by
  constructor
  · rintro rfl
    obtain ⟨as, has, h⟩ := statements_recovered [] (ofTokens ts)
    rw [tokens_ofTokens] at h
    rw [readStatements, has]
    exact h
  · exact fun h => h.read_from (tokens_ofTokens ts) []

end Recovered

end AssignLang
