import AssignLang.Proofs.Parse.Context

/-! Taking one statement out from among its tokens. Behind the assignment's span there may be
signs that belong to it and stay. Whether the other statements are read as before depends on
how the reading stands in front of the gap and on the token that comes next. -/

namespace AssignLang

/-- How the reading stands behind some assignments. -/
inductive Ending where
  /-- The last token ends a value. -/
  | settled
  /-- The last token is a name, and no assignment sign comes next. -/
  | bare
  /-- Recovery at the level skips tokens. If it `awaits` an operand it has not skipped any. -/
  | skipping (level : Level) (awaits : Bool)
deriving DecidableEq, Repr, Inhabited

/-- How the reading stands at the token `last`, with `a` the assignment before it. -/
def Assignment.ending (a : Assignment) (last : Token) : Ending :=
  match a.value?, a.value?.bind Expr.missing? with
  | none, _ =>
    if a.span = last.span then .bare else .skipping .assignment (a.span.stop ≠ last.span.stop)
  | some _, some level => .skipping level (a.span.stop ≠ last.span.stop)
  | some _, none =>
    if a.span.stop = last.span.stop then .settled else .skipping .assignment false

namespace Ending

def behind (front : List Assignment) (last : Token) : Ending :=
  (front.getLast?.map (·.ending last)).getD (.skipping .assignment false)

/-- Tokens that start no statement are passed over where the reading stands so. -/
def Passes (run : List Token) : Ending → Prop
  | .settled => Recovered.NoOperator run
  | .bare => (∀ t ∈ run.head?, t.terminal = .assign) → Recovered.NoOperand run.tail
  | .skipping level awaits => Recovered.Passed level (awaits = true) run

/-- Nothing of the run is taken up by the statement in front, and no name of the run is
skipped that starts a statement. If the last name in front `leads` it becomes a target. -/
def Yields (ending : Ending) (leads : Bool) (run : List Token) : Prop :=
  ∀ next ∈ run.head?, if next.target?.isSome then ending = .settled
    else ending.Passes run ∧ (leads = true → ending = .bare)

instance (run : List Token) : Decidable (Recovered.NoOperand run) :=
  inferInstanceAs (Decidable (∀ t ∈ run.head?, t.operand? = none))

theorem noOperator_iff {run : List Token} :
    (∀ t ∈ run.head?, t.kind.operator? = none) ↔ Recovered.NoOperator run := by
  refine forall₂_congr fun t _ => ?_
  obtain ⟨terminal, span⟩ := t
  cases terminal <;> simp [Token.kind, Terminal.kind, TokenKind.operator?]

instance (run : List Token) : Decidable (Recovered.NoOperator run) :=
  decidable_of_iff _ noOperator_iff

instance (level : Level) (awaits : Prop) [Decidable awaits] (run : List Token) :
    Decidable (Recovered.Passed level awaits run) :=
  decidable_of_iff ((∀ t ∈ run, level.stopsAt t.kind = false) ∧
    (awaits → Recovered.NoOperand run)) ⟨fun h => ⟨h.1, h.2⟩, fun h => ⟨h.1, h.2⟩⟩

instance (run : List Token) (ending : Ending) : Decidable (ending.Passes run) :=
  match ending with
  | .settled => inferInstanceAs (Decidable (Recovered.NoOperator run))
  | .bare => inferInstanceAs (Decidable (_ → Recovered.NoOperand run.tail))
  | .skipping level awaits =>
    inferInstanceAs (Decidable (Recovered.Passed level (awaits = true) run))

instance (ending : Ending) (leads : Bool) (run : List Token) :
    Decidable (ending.Yields leads run) :=
  inferInstanceAs (Decidable (∀ next ∈ run.head?, _))

end Ending

theorem Ending.behind_concat (front : List Assignment) (a : Assignment) (last : Token) :
    Ending.behind (front ++ [a]) last = a.ending last := by
  simp [Ending.behind]

namespace Assignment

variable {a : Assignment} {value : Expr} {last : Token}

theorem ending_of_missing {level : Level} (h : a.value? = some value)
    (hmissing : value.missing? = some level) :
    a.ending last = .skipping level (a.span.stop ≠ last.span.stop) := by
  simp [ending, h, hmissing]

theorem ending_of_closed (h : a.value? = some value) (hclosed : value.isOpen = false)
    (hstop : a.span.stop = last.span.stop) : a.ending last = .settled := by
  rw [Expr.isOpen_eq, Option.isSome_eq_false_iff, Option.isNone_iff_eq_none] at hclosed
  simp [ending, h, hclosed, hstop]

theorem ending_of_valueless (h : a.value? = none) (hstop : a.span.stop ≠ last.span.stop) :
    a.ending last = .skipping .assignment true := by
  have hspan : a.span ≠ last.span := fun heq => hstop (by rw [heq])
  simp [ending, h, hspan, hstop]

theorem ending_eq_settled_iff : a.ending last = .settled ↔
    (∃ e, a.value? = some e ∧ e.isOpen = false) ∧ a.span.stop = last.span.stop := by
  unfold ending
  split <;> rename_i hvalue hmissing
  · split <;> simp_all
  · simp_all [Expr.isOpen_eq]
  · split <;> simp_all [Expr.isOpen_eq]

theorem ending_eq_bare_iff : a.ending last = .bare ↔ a.value? = none ∧ a.span = last.span := by
  unfold ending
  split <;> rename_i hvalue hmissing
  · split <;> simp_all
  · simp_all
  · split <;> simp_all

end Assignment

namespace Recovered

section Statements

variable {rest rest' : List Token} {ts : List Token}

theorem Statement.ne_nil {a : Option Assignment} (h : Statement rest a ts) : ts ≠ [] := by
  cases h <;> simp

theorem Statement.exchange {a : Option Assignment} (h : Statement rest a ts)
    (hfollows : Follows rest rest') : Statement rest' a ts := by
  cases h with
  | complete ht hu hvalue => exact .complete ht hu (local_value hvalue (.inl hfollows))
  | unassigned ht hno hskip =>
    exact .unassigned ht (hfollows.noAssign hno) (hfollows.skipped hskip)
  | valueless ht hu hno hskip =>
    exact .valueless ht hu (hfollows.noOperand hno) (hfollows.skipped hskip)
  | stray ht hskip => exact .stray ht (hfollows.skipped hskip)

theorem Statements.exchange {as : List Assignment} (h : Statements rest as ts)
    (hfollows : Follows rest rest') : Statements rest' as ts := by
  induction h with
  | nil => exact .nil
  | @cons a as us vs h _ ih => exact .cons (h.exchange (hfollows.append vs)) ih

theorem Statements.append {as bs : List Assignment} {us : List Token}
    (h : Statements (us ++ rest) as ts) (h' : Statements rest bs us) :
    Statements rest (as ++ bs) (ts ++ us) := by
  induction h with
  | nil => exact h'
  | @cons a as ws vs h _ ih =>
    rw [List.append_assoc, List.append_assoc]
    rw [← List.append_assoc] at h
    exact .cons h ih

theorem Statement.statements {a : Option Assignment} (h : Statement rest a ts) :
    Statements rest a.toList ts := by
  have hone : Statements rest (a.toList ++ []) (ts ++ []) := .cons h .nil
  rwa [List.append_nil, List.append_nil] at hone

theorem Statements.eq_nil {as : List Assignment} (h : Statements rest as []) : as = [] := by
  generalize hts : ([] : List Token) = ts at h
  cases h with
  | nil => rfl
  | cons h _ => exact absurd (List.append_eq_nil_iff.1 hts.symm).1 h.ne_nil

theorem Statements.split {front behind : List Assignment} {a : Assignment}
    (h : Statements rest (front ++ a :: behind) ts) :
    ∃ us vs ws, ts = us ++ (vs ++ ws) ∧ Statements (vs ++ (ws ++ rest)) front us ∧
      Statement (ws ++ rest) (some a) vs ∧ Statements rest behind ws := by
  generalize has : front ++ a :: behind = as at h
  induction h generalizing front with
  | nil => simp at has
  | @cons b as us vs h hs ih =>
    cases b with
    | none =>
      obtain ⟨us', vs', ws', rfl, hfront, ha, hbehind⟩ := ih has
      refine ⟨us ++ us', vs', ws', by simp, ?_, ha, hbehind⟩
      exact .cons (a := none) (by simpa using h) hfront
    | some b =>
      cases front with
      | nil =>
        obtain ⟨rfl, rfl⟩ := List.cons.inj has
        exact ⟨[], us, vs, rfl, .nil, h, hs⟩
      | cons c front =>
        obtain ⟨rfl, hmore⟩ := List.cons.inj has
        obtain ⟨us', vs', ws', rfl, hfront, ha, hbehind⟩ := ih hmore
        refine ⟨us ++ us', vs', ws', by simp, ?_, ha, hbehind⟩
        exact .cons (a := some c) (by simpa using h) hfront

theorem Statements.exists_last {as : List Assignment} {last : Token} (h : Statements rest as ts)
    (hlast : ts.getLast? = some last) :
    ∃ front a us vs, as = front ++ a.toList ∧ ts = us ++ vs ∧ Statements (vs ++ rest) front us ∧
      Statement rest a vs ∧ vs.getLast? = some last := by
  induction h with
  | nil => simp at hlast
  | @cons a as us vs h hs ih =>
    cases hvs : vs.getLast? with
    | none =>
      obtain rfl := List.getLast?_eq_none_iff.1 hvs
      obtain rfl := hs.eq_nil
      rw [List.append_nil] at hlast
      exact ⟨[], a, [], us, by simp, by simp, .nil, h, hlast⟩
    | some t =>
      rw [List.getLast?_append, hvs, Option.some_or] at hlast
      obtain ⟨front, b, us', vs', rfl, rfl, hfront, hb, hlast'⟩ := ih (hvs.trans hlast)
      refine ⟨a.toList ++ front, b, us ++ us', vs', by simp, by simp, ?_, hb, hlast'⟩
      exact .cons (by simpa using h) hfront

end Statements

/-- Tokens from one that is no name up to the next statement. -/
structure Run (t : Token) (run : List Token) : Prop where
  head : run.head? = some t
  first : t.target? = none
  passed : ∀ u ∈ run, Level.assignment.stopsAt u.kind = false

theorem Run.stray {t : Token} {run : List Token} (h : Run t run) : Statement [] none run := by
  obtain ⟨us, rfl⟩ := List.head?_eq_some_iff.1 h.head
  exact .stray h.first ⟨h.passed, by simp⟩

theorem Statement.bare_run {a : Assignment} {last last' next : Token} {rest run : List Token}
    (h : Statement rest (some a) [last]) (hsame : last'.target? = last.target?)
    (hrun : Run next run) (hpasses : Ending.bare.Passes run) :
    ∃ a', a'.relocate .forget = a.relocate .forget ∧ Statement [] (some a') (last' :: run) := by
  obtain ⟨more, rfl⟩ := List.head?_eq_some_iff.1 hrun.head
  cases h with
  | @unassigned t target us ht =>
    have ht' := hsame.trans ht
    by_cases hassign : next.terminal = .assign
    · have hno : NoOperand (more ++ []) := by
        rw [List.append_nil]
        exact hpasses fun t ht => Option.some.inj ht ▸ hassign
      have hskip : Skipped .assignment more [] := ⟨(List.forall_mem_cons.1 hrun.passed).2, by simp⟩
      exact ⟨.failed target (covered more), rfl, .valueless ht' hassign hno hskip⟩
    · have hno : NoAssign (next :: more ++ []) := fun t ht => Option.some.inj ht ▸ hassign
      exact ⟨.failed target (covered (next :: more)), rfl,
        .unassigned ht' hno ⟨hrun.passed, by simp⟩⟩

theorem Statement.failed_run {a : Assignment} {vs rest run : List Token} {last next : Token}
    {lo hi : Nat} (h : Statement rest (some a) vs) (hrow : Row lo vs hi) (hvalue : a.value? = none)
    (hlast : vs.getLast? = some last) (hrun : Run next run)
    (hpasses : (a.ending last).Passes run) :
    ∃ a', a'.relocate .forget = a.relocate .forget ∧ Statement [] (some a') (vs ++ run) := by
  cases h with
  | complete => simp [Assignment.complete] at hvalue
  | @unassigned t target us ht hno hskip =>
    have hskip' := skipped_append hskip hrun.passed
    cases us with
    | nil =>
      obtain rfl : t = last := Option.some.inj hlast
      have hbare : (Assignment.failed target (covered [])).ending t = .bare :=
        Assignment.ending_eq_bare_iff.2 ⟨rfl, Token.span_of_target? ht⟩
      rw [hbare] at hpasses
      exact (Statement.unassigned ht hno hskip).bare_run rfl hrun hpasses
    | cons u us =>
      exact ⟨.failed target (covered (u :: us ++ run)), rfl, .unassigned ht hno hskip'⟩
  | @valueless t u target us ht hu hno hskip =>
    have hskip' := skipped_append hskip hrun.passed
    cases us with
    | nil =>
      obtain rfl : u = last := Option.some.inj hlast
      have hstop : (Assignment.failed target (covered [])).span.stop ≠ u.span.stop := by
        intro heq
        have hspan := Token.span_of_target? ht
        obtain ⟨-, -, hle, hlt, -⟩ := hrow
        change target.span.stop = u.span.stop at heq
        rw [← hspan, heq] at hle
        omega
      rw [Assignment.ending_of_valueless rfl hstop] at hpasses
      exact ⟨.failed target (covered run), rfl,
        .valueless ht hu (by simpa using hpasses.noOperand rfl) hskip'⟩
    | cons v us =>
      exact ⟨.failed target (covered (v :: us ++ run)), rfl, .valueless ht hu hno hskip'⟩

theorem Statement.open_run {a : Assignment} {value : Expr} {level : Level}
    {vs rest run : List Token} {last : Token} {lo hi : Nat} (h : Statement rest (some a) vs)
    (hrow : Row lo vs hi) (hvalue : a.value? = some value) (hmissing : value.missing? = some level)
    (hlast : vs.getLast? = some last)
    (hrun : Passed level (a.span.stop ≠ last.span.stop) run) :
    ∃ a', a'.relocate .forget = a.relocate .forget ∧ Statement [] (some a') (vs ++ run) := by
  cases h with
  | @complete t u target e us ht hu he =>
    obtain rfl : e = value := Option.some.inj hvalue
    have hus : Row u.span.stop.offset us hi := hrow.2.2.2.2
    obtain ⟨covered, ops, rfl, hplaced⟩ := places_value he hus
    have hone : target.span.Over [t] := Token.span_of_target? ht ▸ Span.over_singleton t
    have hrow' : Row lo ([t] ++ ([u] ++ covered)) hi :=
      Row.left (show Row lo ([t] ++ ([u] ++ covered) ++ ops) hi by simpa using hrow)
    have hover : (Assignment.complete target e).span.Over ([t, u] ++ covered) :=
      (hone.merge hplaced.covers hrow').1
    have hne := List.append_ne_nil_of_left_ne_nil hplaced.covers.ne_nil ops
    rw [hover.stop_append hplaced.covers] at hrun
    rw [List.getLast?_cons_of_ne_nil (by simp), List.getLast?_cons_of_ne_nil hne] at hlast
    obtain ⟨e', heq, he'⟩ := absorbs_value he hus hmissing hlast hrun
    refine ⟨.complete target e', ?_, .complete ht hu he'⟩
    rw [Assignment.relocate_complete, Assignment.relocate_complete, heq]
  | unassigned | valueless => simp [Assignment.failed] at hvalue

theorem Statement.closed {a : Assignment} {value : Expr} {vs rest : List Token} {last : Token}
    {lo hi : Nat} (h : Statement rest (some a) vs) (hrow : Row lo vs hi)
    (hlast : vs.getLast? = some last) (hvalue : a.value? = some value)
    (hclosed : value.isOpen = false) : a.span.stop = last.span.stop ∧
      ∀ rest', NoOperator rest' → Statement rest' (some a) vs := by
  constructor
  · obtain ⟨us, signs, rfl, hplaced⟩ := h.placed hrow
    obtain rfl := hplaced.closed value hvalue hclosed
    obtain ⟨-, last', -, hlast', -, hstop⟩ := hplaced.covers
    rw [List.append_nil, hlast'] at hlast
    rw [hstop, Option.some.inj hlast]
  · intro rest' hno
    cases h with
    | @complete t u target e us ht hu he =>
      obtain rfl : e = value := Option.some.inj hvalue
      exact .complete ht hu (local_value he (.inr ⟨hclosed, hno⟩))
    | unassigned | valueless => simp [Assignment.failed] at hvalue

theorem Statement.read_run {b : Option Assignment} {front : List Assignment}
    {vs rest run : List Token} {last next : Token} {lo hi : Nat} (h : Statement rest b vs)
    (hrow : Row lo vs hi) (hlast : vs.getLast? = some last) (hrun : Run next run)
    (hpasses : (Ending.behind (front ++ b.toList) last).Passes run) :
    ∃ bs, bs.map (Assignment.relocate .forget) = b.toList.map (Assignment.relocate .forget) ∧
      Statements [] bs (vs ++ run) := by
  cases b with
  | none =>
    cases h with
    | stray ht hskip =>
      exact ⟨[], rfl, (Statement.stray ht (skipped_append hskip hrun.passed)).statements⟩
  | some b =>
    rw [Option.toList_some, Ending.behind_concat] at hpasses
    cases hvalue : b.value? with
    | none =>
      obtain ⟨b', heq, hb'⟩ := h.failed_run hrow hvalue hlast hrun hpasses
      exact ⟨[b'], by simp [heq], hb'.statements⟩
    | some value =>
      cases hmissing : value.missing? with
      | some level =>
        rw [Assignment.ending_of_missing hvalue hmissing] at hpasses
        have hrun' : Passed level (b.span.stop ≠ last.span.stop) run :=
          ⟨hpasses.passed, fun hne => hpasses.noOperand (by simpa using hne)⟩
        obtain ⟨b', heq, hb'⟩ := h.open_run hrow hvalue hmissing hlast hrun'
        exact ⟨[b'], by simp [heq], hb'.statements⟩
      | none =>
        have hclosed : value.isOpen = false := by rw [Expr.isOpen_eq, hmissing]; rfl
        obtain ⟨hstop, hbefore⟩ := h.closed hrow hlast hvalue hclosed
        rw [Assignment.ending_of_closed hvalue hclosed hstop] at hpasses
        have hone := hbefore (run ++ []) (by rwa [List.append_nil])
        exact ⟨[b], rfl, hone.statements.append hrun.stray.statements⟩

theorem Statements.ending_ne {as : List Assignment} {us vs rest : List Token} {last : Token}
    {lo mid hi : Nat} (h : Statements rest as us) (hus : Row lo us mid) (hvs : Row mid vs hi)
    (hlast : vs.getLast? = some last) :
    Ending.behind as last ≠ .settled ∧ Ending.behind as last ≠ .bare := by
  have hstop : ∀ a ∈ as, a.span.stop ≠ last.span.stop := by
    intro a ha heq
    obtain ⟨-, -, -, hle, -⟩ := (h.placed hus).2 a ha
    have hmem := hvs.mem (List.mem_of_getLast? hlast)
    rw [heq] at hle
    omega
  unfold Ending.behind
  cases hc : as.getLast? with
  | none => simp
  | some c =>
    have hne := hstop c (List.mem_of_getLast? hc)
    rw [Option.map_some, Option.getD_some, ne_eq, Assignment.ending_eq_settled_iff, ne_eq,
      Assignment.ending_eq_bare_iff]
    exact ⟨fun h => hne h.2, fun h => hne (by rw [h.2])⟩

theorem Statement.eq_singleton {a : Assignment} {vs rest : List Token} {last : Token} {lo hi : Nat}
    (h : Statement rest (some a) vs) (hrow : Row lo vs hi) (hlast : vs.getLast? = some last)
    (hspan : a.span = last.span) : vs = [last] := by
  obtain ⟨us, signs, rfl, hplaced⟩ := h.placed hrow
  obtain ⟨first, -, hfirst, -, hstart, -⟩ := hplaced.covers
  obtain ⟨us, rfl⟩ := List.head?_eq_some_iff.1 hfirst
  rw [List.cons_append] at hrow hlast ⊢
  rw [hspan] at hstart
  cases hmore : us ++ signs with
  | nil =>
    rw [hmore] at hlast
    exact congrArg (· :: []) (Option.some.inj hlast)
  | cons t more =>
    rw [hmore, List.getLast?_cons_of_ne_nil (by simp)] at hlast
    rw [hmore] at hrow
    have hmem := hrow.2.2.mem (List.mem_of_getLast? hlast)
    have hlt := hrow.2.1
    rw [hstart] at hmem
    omega

theorem Statements.exists_bare {front : List Assignment} {ts rest : List Token} {last : Token}
    {lo hi : Nat} (h : Statements rest front ts) (hrow : Row lo ts hi)
    (hlast : ts.getLast? = some last) (hbare : Ending.behind front last = .bare) :
    ∃ front' b us, front = front' ++ [b] ∧ ts = us ++ [last] ∧
      Statements (last :: rest) front' us ∧ Statement rest (some b) [last] := by
  obtain ⟨front, b, us, vs, rfl, rfl, hfront, hb, hlast⟩ := h.exists_last hlast
  obtain ⟨mid, hus, hvs⟩ := Row.append_iff.1 hrow
  cases b with
  | none =>
    rw [Option.toList_none, List.append_nil] at hbare
    exact absurd hbare (hfront.ending_ne hus hvs hlast).2
  | some b =>
    rw [Option.toList_some, Ending.behind_concat, Assignment.ending_eq_bare_iff] at hbare
    obtain rfl := hb.eq_singleton hvs hlast hbare.2
    exact ⟨front, b, us, rfl, rfl, hfront, hb⟩

/-- With a run put behind them that passes, statements are read as before. -/
theorem Statements.read_run {front : List Assignment} {ts rest run : List Token} {next : Token}
    {lo hi : Nat} (h : Statements rest front ts) (hrow : Row lo ts hi) (hrun : Run next run)
    (hpasses : ∀ last ∈ ts.getLast?, (Ending.behind front last).Passes run) :
    (readStatements (ts ++ run)).map (Assignment.relocate .forget) =
      front.map (Assignment.relocate .forget) := by
  cases hend : ts.getLast? with
  | none =>
    obtain rfl := List.getLast?_eq_none_iff.1 hend
    obtain rfl := h.eq_nil
    rw [List.nil_append, readStatements_eq_iff.2 hrun.stray.statements]
    rfl
  | some last =>
    obtain ⟨front, b, us, vs, rfl, rfl, hfront, hb, hlast⟩ := h.exists_last hend
    obtain ⟨mid, -, hvs⟩ := Row.append_iff.1 hrow
    obtain ⟨bs, heq, hbs⟩ := hb.read_run hvs hlast hrun (hpasses last hend)
    have hfollows := follows_of_ne_nil hb.ne_nil rest (run ++ [])
    have hall : Statements [] (front ++ bs) (us ++ (vs ++ run)) :=
      Statements.append (by simpa using hfront.exchange hfollows) hbs
    rw [List.append_assoc, readStatements_eq_iff.2 hall, List.map_append, List.map_append, heq]

/-- The same for a name that stands alone, whether or not it has become a target. -/
theorem Statements.read_run_bare {front : List Assignment} {ts ts' rest run : List Token}
    {last next : Token} {lo hi : Nat} (h : Statements rest front ts) (hrow : Row lo ts hi)
    (hlast : ts.getLast? = some last) (hbare : Ending.behind front last = .bare)
    (hled : Led run ts ts') (hrun : Run next run) (hpasses : Ending.bare.Passes run) :
    (readStatements (ts' ++ run)).map (Assignment.relocate .forget) =
      front.map (Assignment.relocate .forget) := by
  obtain ⟨front, b, us, rfl, rfl, hfront, hb⟩ := h.exists_bare hrow hlast hbare
  obtain ⟨last', rfl, hsame, hlast'⟩ := hled.exists_last
  obtain ⟨b', heq, hb'⟩ := hb.bare_run hsame hrun hpasses
  have hfollows : Follows (last :: rest) (last' :: run ++ []) := by
    rcases hlast' with rfl | hlead
    · exact .inl rfl
    · refine .inr fun t ht => ?_
      rwa [← Option.some.inj ht]
  have hall := (hfront.exchange hfollows).append hb'.statements
  rw [List.append_assoc, List.singleton_append, readStatements_eq_iff.2 hall]
  simp [heq]

/-- The same, where only a name that stands alone may have become a target. -/
theorem Statements.read_run_led {front : List Assignment} {leads : Token → Bool}
    {ts ts' rest run : List Token} {next : Token} {lo hi : Nat} (h : Statements rest front ts)
    (hrow : Row lo ts hi) (hrun : Run next run) (hled : Led run ts ts')
    (hleads : ∀ last ∈ ts.getLast?, leads last = false → ts' = ts)
    (hpasses : ∀ last ∈ ts.getLast?, (Ending.behind front last).Passes run ∧
      (leads last = true → Ending.behind front last = .bare)) :
    (readStatements (ts' ++ run)).map (Assignment.relocate .forget) =
      front.map (Assignment.relocate .forget) := by
  by_cases hbare : ∃ last ∈ ts.getLast?, Ending.behind front last = .bare
  · obtain ⟨last, hlast, hbare⟩ := hbare
    exact h.read_run_bare hrow hlast hbare hled hrun (hbare ▸ (hpasses last hlast).1)
  · have hsame : ts' = ts := by
      cases hlast : ts.getLast? with
      | none =>
        obtain rfl := List.getLast?_eq_none_iff.1 hlast
        exact hled.eq_of_not_name (by simp)
      | some last =>
        refine hleads last hlast (Bool.eq_false_iff.2 fun hleads => hbare ⟨last, hlast, ?_⟩)
        exact (hpasses last hlast).2 hleads
    rw [hsame]
    exact h.read_run hrow hrun fun last hlast => (hpasses last hlast).1

theorem Run.takeWhile_append {t : Token} {run rest : List Token} (h : Run t run)
    (hrest : StartsStatement rest) :
    (run ++ rest).takeWhile (fun t => !Level.assignment.stopsAt t.kind) = run := by
  have hstop : rest.takeWhile (fun t => !Level.assignment.stopsAt t.kind) = [] := by
    cases rest with
    | nil => rfl
    | cons t rest => simp [stopsAt_of_leading (hrest t rfl)]
  rw [List.takeWhile_append_of_pos (by simpa using h.passed), hstop, List.append_nil]

theorem Skipped.startsStatement {us rest : List Token} (h : Skipped .assignment us rest) :
    StartsStatement rest := by
  intro t ht
  have hstop := h.stop t ht
  obtain ⟨terminal, span⟩ := t
  cases terminal <;> simp_all [Token.kind, Terminal.kind, Level.stopsAt]

theorem startsStatement_of_failed {a : Assignment} {ts rest : List Token}
    (h : Statement rest (some a) ts) (hvalue : a.value? = none) : StartsStatement rest := by
  cases h with
  | complete => simp [Assignment.complete] at hvalue
  | unassigned ht hno hskip => exact hskip.startsStatement
  | valueless ht hu hno hskip => exact hskip.startsStatement

theorem startsStatement_of_leftover {a : Assignment} {us signs rest : List Token}
    (h : Statement rest (some a) (us ++ signs)) (hplaced : a.Placed us signs)
    (hsigns : signs ≠ []) : StartsStatement rest := by
  cases hvalue : a.value? with
  | none => exact startsStatement_of_failed h hvalue
  | some value =>
    have hopen : value.isOpen = true := by
      rw [← Bool.not_eq_false]
      exact fun hclosed => hsigns (hplaced.closed value hvalue hclosed)
    generalize us ++ signs = ts at h
    cases h with
    | complete ht hu he =>
      obtain rfl := Option.some.inj hvalue
      exact startsStatement_of_isOpen he hopen
    | unassigned | valueless => simp [Assignment.failed] at hvalue

theorem target?_of_leavesOver {a : Assignment} {t : Token} (h : a.LeavesOver t) :
    t.target? = none := by
  unfold Assignment.LeavesOver at h
  unfold Token.target?
  split at h
  · rw [h]
  · obtain ⟨op, hop⟩ := h
    rw [hop]

/-- The signs that an assignment leaves over, or else the stray tokens behind it, are a run. -/
theorem exists_run {a : Assignment} {behind : List Assignment} {us signs ws : List Token}
    {next : Token} (ha : Statement ws (some a) (us ++ signs)) (hplaced : a.Placed us signs)
    (hbehind : Statements [] behind ws) (hnext : (signs ++ ws).head? = some next)
    (hname : next.target? = none) :
    ∃ run rest, signs ++ ws = run ++ rest ∧ Run next run ∧ StartsStatement rest ∧
      Statements [] behind rest := by
  by_cases hsigns : signs = []
  · subst hsigns
    cases hbehind with
    | nil => simp at hnext
    | @cons b as vs rest h hs =>
      obtain ⟨t, vs, rfl⟩ := List.exists_cons_of_ne_nil h.ne_nil
      obtain rfl : t = next := Option.some.inj hnext
      rw [List.append_nil] at h
      have hstray : b = none ∧ Skipped .assignment (t :: vs) rest := by
        cases h with
        | stray ht hskip => exact ⟨rfl, hskip⟩
        | complete ht | unassigned ht | valueless ht => rw [hname] at ht; simp at ht
      obtain ⟨rfl, hskip⟩ := hstray
      exact ⟨t :: vs, rest, rfl, ⟨rfl, hname, hskip.passed⟩, hskip.startsStatement, hs⟩
  · refine ⟨signs, ws, rfl, ⟨?_, hname, fun t ht => ?_⟩, ?_, hbehind⟩
    · obtain ⟨t, more, rfl⟩ := List.exists_cons_of_ne_nil hsigns
      exact hnext
    · exact Token.stopsAt_of_target?_eq_none (target?_of_leavesOver (hplaced.leftovers t ht))
    · exact startsStatement_of_leftover ha hplaced hsigns

theorem Statements.exchange_settled {front : List Assignment} {ts rest rest' : List Token}
    {lo hi : Nat} (h : Statements rest front ts) (hrow : Row lo ts hi)
    (hsettled : ∀ last ∈ ts.getLast?, Ending.behind front last = .settled)
    (hno : NoOperator rest') : Statements rest' front ts := by
  cases hend : ts.getLast? with
  | none =>
    obtain rfl := List.getLast?_eq_none_iff.1 hend
    obtain rfl := h.eq_nil
    exact .nil
  | some last =>
    obtain ⟨front, b, us, vs, rfl, rfl, hfront, hb, hlast⟩ := h.exists_last hend
    obtain ⟨mid, hus, hvs⟩ := Row.append_iff.1 hrow
    have hending := hsettled last hend
    have hfollows := follows_of_ne_nil hb.ne_nil rest rest'
    refine (hfront.exchange hfollows).append ?_
    cases b with
    | none =>
      rw [Option.toList_none, List.append_nil] at hending
      exact absurd hending (hfront.ending_ne hus hvs hlast).1
    | some b =>
      rw [Option.toList_some, Ending.behind_concat, Assignment.ending_eq_settled_iff] at hending
      obtain ⟨⟨value, hvalue, hclosed⟩, -⟩ := hending
      exact ((hb.closed hvs hlast hvalue hclosed).2 rest' hno).statements

theorem Statements.exchange_name {front : List Assignment} {ts rest rest' : List Token}
    {next : Token} {ident : Ident} {lo hi : Nat} (h : Statements rest front ts)
    (hrow : Row lo ts hi) (hnext : rest'.head? = some next) (hname : next.target? = some ident)
    (hsettled : next.kind ≠ .leadingIdent → ∀ last ∈ ts.getLast?,
      Ending.behind front last = .settled) : Statements rest' front ts := by
  by_cases hlead : next.kind = .leadingIdent
  · refine h.exchange (.inr fun t ht => ?_)
    rwa [← Option.some.inj (hnext.symm.trans ht)]
  · refine h.exchange_settled hrow (hsettled hlead) fun t ht op hop => ?_
    obtain rfl := Option.some.inj (hnext.symm.trans ht)
    simp [Token.target?, hop] at hname

theorem not_stopsAt_of_name {t : Token} {ident : Ident} (hname : t.target? = some ident)
    (hlead : t.kind ≠ .leadingIdent) : Level.assignment.stopsAt t.kind = false := by
  obtain ⟨terminal, span⟩ := t
  cases terminal <;> simp_all [Token.target?, Token.kind, Terminal.kind, Level.stopsAt]

section Spliced

variable {front behind : List Assignment} {a : Assignment} {leads : Token → Bool}
  {ts ts' us signs ws : List Token} {next : Token} {ident : Ident} {lo hi : Nat}

theorem signs_eq_nil (hplaced : a.Placed us signs) (hnext : (signs ++ ws).head? = some next)
    (hname : next.target? = some ident) : signs = [] := by
  cases signs with
  | nil => rfl
  | cons t signs =>
    obtain rfl : t = next := Option.some.inj hnext
    rw [target?_of_leavesOver (hplaced.leftovers t List.mem_cons_self)] at hname
    simp at hname

theorem Led.eq_of_name (h : Led ws ts ts') (hnext : ws.head? = some next)
    (hname : next.target? = some ident) : ts' = ts := by
  refine h.eq_of_not_name fun t ht hterminal => ?_
  obtain rfl := Option.some.inj (hnext.symm.trans ht)
  simp [Token.target?, hterminal] at hname

/-- If a name comes next, the statements in front end before it and those behind start there. -/
theorem Statements.read_name (hfront : Statements (us ++ ws) front ts) (hrow : Row lo ts hi)
    (hbehind : Statements [] behind ws) (hnext : ws.head? = some next)
    (hname : next.target? = some ident)
    (hyields : ∀ last ∈ ts.getLast?, (Ending.behind front last).Yields (leads last)
      (ws.takeWhile fun t => !Level.assignment.stopsAt t.kind)) :
    readStatements (ts ++ ws) = front ++ behind := by
  have hread : Statements ws front ts := by
    refine hfront.exchange_name hrow hnext hname fun hlead last hlast => ?_
    obtain ⟨ws, rfl⟩ := List.head?_eq_some_iff.1 hnext
    have hpassed := not_stopsAt_of_name hname hlead
    simpa [hname] using hyields last hlast next (by simp [hpassed])
  exact readStatements_eq_iff.2 (Statements.append (by rwa [List.append_nil]) hbehind)

theorem Statements.read_stray (hfront : Statements (us ++ signs ++ ws) front ts)
    (hrow : Row lo ts hi) (hled : Led (signs ++ ws) ts ts')
    (hleads : ∀ last ∈ ts.getLast?, leads last = false → ts' = ts)
    (ha : Statement ws (some a) (us ++ signs)) (hplaced : a.Placed us signs)
    (hbehind : Statements [] behind ws) (hnext : (signs ++ ws).head? = some next)
    (hname : next.target? = none)
    (hyields : ∀ last ∈ ts.getLast?, (Ending.behind front last).Yields (leads last)
      ((signs ++ ws).takeWhile fun t => !Level.assignment.stopsAt t.kind)) :
    (readStatements (ts' ++ (signs ++ ws))).map (Assignment.relocate .forget) =
      (front ++ behind).map (Assignment.relocate .forget) := by
  obtain ⟨run, rest, heq, hrun, hstarts, hrest⟩ := exists_run ha hplaced hbehind hnext hname
  rw [heq, hrun.takeWhile_append hstarts] at hyields
  rw [heq] at hled
  have hyields' : ∀ last ∈ ts.getLast?, (Ending.behind front last).Passes run ∧
      (leads last = true → Ending.behind front last = .bare) := by
    intro last hlast
    simpa [hname] using hyields last hlast next hrun.head
  have hhead : run.head? = (run ++ rest).head? := by rw [List.head?_append, hrun.head]; rfl
  have hread := hfront.read_run_led hrow hrun (hled.of_head (by rw [hhead])) hleads hyields'
  rw [heq, ← List.append_assoc, (read_append (ts' ++ run) hstarts).1, List.map_append, hread,
    readStatements_eq_iff.2 hrest, List.map_append]

/-- Without the tokens of an assignment's span the other assignments are read as before, if
the statements on the two sides stay apart. -/
theorem read_spliced (hrow : Row lo ts hi) (hled : Led (signs ++ ws) ts ts')
    (hleads : ∀ last ∈ ts.getLast?, leads last = false → ts' = ts)
    (hfront : Statements (us ++ signs ++ ws) front ts)
    (ha : Statement ws (some a) (us ++ signs)) (hplaced : a.Placed us signs)
    (hbehind : Statements [] behind ws)
    (hyields : ∀ last ∈ ts.getLast?, (Ending.behind front last).Yields (leads last)
      ((signs ++ ws).takeWhile fun t => !Level.assignment.stopsAt t.kind)) :
    (readStatements (ts' ++ (signs ++ ws))).map (Assignment.relocate .forget) =
      (front ++ behind).map (Assignment.relocate .forget) := by
  cases hnext : (signs ++ ws).head? with
  | none =>
    obtain ⟨rfl, rfl⟩ := List.append_eq_nil_iff.1 (List.head?_eq_none_iff.1 hnext)
    obtain rfl := hbehind.eq_nil
    rw [hled.eq_of_not_name (by simp)]
    have hread := hfront.exchange (.inr startsStatement_nil)
    simp [readStatements_eq_iff.2 hread]
  | some next =>
    cases hname : next.target? with
    | none => exact hfront.read_stray hrow hled hleads ha hplaced hbehind hnext hname hyields
    | some ident =>
      obtain rfl := signs_eq_nil hplaced hnext hname
      rw [List.nil_append] at hnext hled hyields ⊢
      rw [hled.eq_of_name hnext hname]
      exact congrArg _ (hfront.read_name hrow hbehind hnext hname hyields)

end Spliced

end Recovered

end AssignLang
