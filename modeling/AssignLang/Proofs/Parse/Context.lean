import Mathlib.Data.List.Basic
import AssignLang.Proofs.Parse.Nesting

/-! What a derivation asks of the tokens behind it. Only the first of them matters, and the
start of a statement is as good as any other. A value that ends with an operand goes on to
stand before everything but an operator. Behind an operator without a right operand recovery
skips, and it skips more tokens of the same sort if they are put there: the tree is then the
same but for its spans. So statements can be taken apart and put together again. -/

namespace AssignLang

/-- The level at which the expression misses its last operand, if it does. -/
def Expr.missing? : Expr → Option Level
  | .integer .. | .string .. | .reference .. => none
  | .operation _ _ _ right => right.missing?
  | .broken _ op _ => some op.level

theorem Expr.isOpen_eq (e : Expr) : e.isOpen = e.missing?.isSome := by
  induction e with
  | operation span op left right _ ih => exact ih
  | _ => rfl

namespace Recovered

def NoOperator (ts : List Token) : Prop := ∀ t ∈ ts.head?, ∀ op, t.terminal ≠ .operator op

/-- In place of `rest` comes the same first token, or the start of a statement. -/
def Follows (rest rest' : List Token) : Prop := rest'.head? = rest.head? ∨ StartsStatement rest'

/-- Behind the expression, `rest'` can stand in place of `rest`. -/
def Allows (e : Expr) (rest rest' : List Token) : Prop :=
  Follows rest rest' ∨ e.isOpen = false ∧ NoOperator rest'

theorem startsStatement_nil : StartsStatement [] := by simp [StartsStatement]

theorem Follows.head {P : Token → Prop} {rest rest' : List Token} (h : Follows rest rest')
    (us : List Token) (hlead : ∀ t : Token, t.kind = .leadingIdent → P t)
    (hP : ∀ t ∈ (us ++ rest).head?, P t) : ∀ t ∈ (us ++ rest').head?, P t := by
  cases us with
  | cons u us => exact hP
  | nil =>
    rcases h with heq | hstarts
    · intro t ht
      exact hP t (heq ▸ ht)
    · exact fun t ht => hlead t (hstarts t ht)

theorem Follows.append {rest rest' : List Token} (h : Follows rest rest') (us : List Token) :
    Follows (us ++ rest) (us ++ rest') := by
  cases us with
  | nil => exact h
  | cons u us => exact .inl rfl

theorem follows_of_ne_nil {us : List Token} (h : us ≠ []) (rest rest' : List Token) :
    Follows (us ++ rest) (us ++ rest') := by
  obtain ⟨u, us, rfl⟩ := List.exists_cons_of_ne_nil h
  exact .inl rfl

/-- Tokens in front of `rest`, of which the last may have become a target: it is a name, and
an assignment sign comes next. -/
def Led (rest ts ts' : List Token) : Prop :=
  ts' = ts ∨ rest.head?.map Token.terminal = some .assign ∧ ∃ init name span,
    ts = init ++ [⟨.ident name, span⟩] ∧ ts' = init ++ [⟨.leadingIdent name, span⟩]

section Led

variable {rest rest' ts ts' : List Token}

theorem Led.of_head (h : Led rest ts ts')
    (hhead : rest'.head?.map Token.terminal = rest.head?.map Token.terminal) :
    Led rest' ts ts' := by
  rwa [Led, hhead]

theorem Led.cons (h : Led rest ts ts') (t : Token) : Led rest (t :: ts) (t :: ts') := by
  rcases h with rfl | ⟨hassign, init, name, span, rfl, rfl⟩
  · exact .inl rfl
  · exact .inr ⟨hassign, t :: init, name, span, rfl, rfl⟩

theorem Led.eq_of_not_name (h : Led rest ts ts')
    (hname : ∀ t ∈ rest.head?, t.terminal = .assign → ∀ last ∈ ts.getLast?, last.target? = none) :
    ts' = ts := by
  rcases h with rfl | ⟨hassign, init, name, span, rfl, -⟩
  · rfl
  · obtain ⟨t, ht, hterminal⟩ := Option.map_eq_some_iff.1 hassign
    have hnone := hname t ht hterminal ⟨.ident name, span⟩ (by simp)
    simp [Token.target?] at hnone

theorem Led.exists_last {us : List Token} {last : Token} (h : Led rest (us ++ [last]) ts') :
    ∃ last', ts' = us ++ [last'] ∧ last'.target? = last.target? ∧
      (last' = last ∨ last'.kind = .leadingIdent) := by
  rcases h with rfl | ⟨-, init, name, span, heq, rfl⟩
  · exact ⟨last, rfl, rfl, .inl rfl⟩
  · obtain ⟨rfl, hlast⟩ := List.append_inj' heq rfl
    obtain rfl := List.singleton_inj.1 hlast
    exact ⟨⟨.leadingIdent name, span⟩, rfl, rfl, .inr rfl⟩

end Led

section Names

variable {t : Token} (h : t.kind = .leadingIdent)

include h

theorem operand?_of_leading : t.operand? = none := by
  obtain ⟨terminal, span⟩ := t
  cases terminal <;> simp_all [Token.kind, Terminal.kind, Token.operand?]

theorem ne_assign_of_leading : t.terminal ≠ .assign := by
  obtain ⟨terminal, span⟩ := t
  cases terminal <;> simp_all [Token.kind, Terminal.kind]

theorem ne_operator_of_leading (op : Operator) : t.terminal ≠ .operator op := by
  obtain ⟨terminal, span⟩ := t
  cases terminal <;> simp_all [Token.kind, Terminal.kind]

theorem stopsAt_of_leading (level : Level) : level.stopsAt t.kind = true := by
  rw [h]
  cases level <;> rfl

end Names

section Exchange

variable {level : Level} {us rest rest' : List Token} (h : Follows rest rest')

include h

theorem Follows.noOperand (hno : NoOperand (us ++ rest)) : NoOperand (us ++ rest') :=
  h.head us (fun _ => operand?_of_leading) hno

theorem Follows.noAssign (hno : NoAssign (us ++ rest)) : NoAssign (us ++ rest') :=
  h.head us (fun _ => ne_assign_of_leading) hno

theorem Follows.skipped (hskip : Skipped level us rest) : Skipped level us rest' :=
  ⟨hskip.passed, h.head [] (fun _ ht => stopsAt_of_leading ht level) hskip.stop⟩

end Exchange

theorem Allows.endsBefore {level : Level} {e : Expr} {rest rest' : List Token}
    (h : Allows e rest rest') (hend : level.EndsBefore rest) : level.EndsBefore rest' := by
  rcases h with h | ⟨-, hno⟩
  · exact h.head [] (fun t ht op hop => absurd hop (ne_operator_of_leading ht op)) hend
  · exact fun t ht op hop => absurd hop (hno t ht op)

section Values

variable {level : Level} {D : Expr → List Token → List Token → Prop} {left e : Expr}
  {ts rest rest' : List Token}

theorem Joined.eq_of_nil (h : Joined level D rest left e []) : e = left := by cases h; rfl

theorem Joined.endsBefore (h : Joined level D rest left e ts) : level.EndsBefore rest := by
  induction h with
  | done left h => exact h
  | join _ _ _ _ ih => exact ih
  | broken _ _ _ _ _ ih => exact ih

theorem Joined.allows {vs : List Token} (h : Joined level D rest left e vs) {right : Expr}
    (hright : right.isOpen = left.isOpen) (hallows : Allows e rest rest') :
    Allows right (vs ++ rest) (vs ++ rest') := by
  cases vs with
  | nil =>
    obtain rfl := h.eq_of_nil
    rwa [Allows, hright]
  | cons v vs => exact .inl (.inl rfl)

/-- The rest can be exchanged as the expression allows. -/
def Local (D : Expr → List Token → List Token → Prop) : Prop :=
  ∀ ⦃e : Expr⦄ ⦃ts rest rest' : List Token⦄, D e ts rest → Allows e rest rest' → D e ts rest'

theorem Local.joined (hD : Local D) (h : Joined level D rest left e ts)
    (hallows : Allows e rest rest') : Joined level D rest' left e ts := by
  induction h with
  | done left hend => exact .done left (hallows.endsBefore hend)
  | @join left right e t op us vs ht hop hr h ih =>
    exact .join ht hop (hD hr (h.allows rfl hallows)) (ih hallows)
  | @broken left e t op us vs ht hop hno hskip h ih =>
    have hfollows : Follows (vs ++ rest) (vs ++ rest') := by
      rcases h.allows rfl hallows with hfollows | ⟨hclosed, -⟩
      · exact hfollows
      · simp [Expr.isOpen] at hclosed
    exact .broken ht hop (hfollows.noOperand hno) (hfollows.skipped hskip) (ih hallows)

theorem Local.chain (hD : Local D) : Local (Chain level D) := by
  rintro e ts rest rest' ⟨left, us, vs, rfl, hleft, hj⟩ hallows
  exact ⟨left, us, vs, rfl, hD hleft (hj.allows rfl hallows), hD.joined hj hallows⟩

theorem local_product : Local Product := Local.chain fun _ _ _ _ h _ => h

theorem local_value : Local Value := local_product.chain

/-- Behind an open expression recovery has stopped. -/
def Stops (D : Expr → List Token → List Token → Prop) : Prop :=
  ∀ ⦃e : Expr⦄ ⦃ts rest : List Token⦄, D e ts rest → e.isOpen = true →
    ∀ t ∈ rest.head?, Level.product.stopsAt t.kind = true

theorem stopsAt_product {level : Level} {k : TokenKind} (h : level.stopsAt k = true) :
    Level.product.stopsAt k = true := by
  cases level <;> cases k <;> simp_all [Level.stopsAt]

theorem Stops.joined (hD : Stops D) (h : Joined level D rest left e ts)
    (hleft : ts = [] → left.isOpen = true → ∀ t ∈ rest.head?, Level.product.stopsAt t.kind = true)
    (hopen : e.isOpen = true) : ∀ t ∈ rest.head?, Level.product.stopsAt t.kind = true := by
  induction h with
  | done left hend => exact hleft rfl hopen
  | @join left right e t op us vs ht hop hr h ih =>
    refine ih (fun hvs hright => ?_) hopen
    subst hvs
    exact hD hr hright
  | @broken left e t op us vs ht hop hno hskip h ih =>
    refine ih (fun hvs _ u hu => ?_) hopen
    subst hvs
    exact stopsAt_product (hskip.stop u hu)

theorem Stops.chain (hD : Stops D) : Stops (Chain level D) := by
  rintro e ts rest ⟨left, us, vs, rfl, hleft, hj⟩ hopen
  refine hD.joined hj (fun hvs hopen => ?_) hopen
  subst hvs
  exact hD hleft hopen

theorem stops_operand : Stops Operand := by
  rintro e ts rest ⟨t, rfl, he⟩ hopen
  obtain ⟨terminal, span⟩ := t
  cases terminal <;> simp only [Token.operand?, Option.some.injEq, reduceCtorEq] at he <;>
    subst he <;> simp [Expr.isOpen] at hopen

theorem stops_value : Stops Value := stops_operand.chain.chain

/-- A product ends where no operator of its own comes next, and so does a sum of them. -/
theorem Joined.endsBefore_product (h : Joined .sum Product rest left e ts) (hts : ts ≠ []) :
    Level.product.EndsBefore rest := by
  induction h with
  | done left hend => simp at hts
  | @join left right e t op us vs ht hop hr h ih =>
    cases vs with
    | nil =>
      obtain ⟨_, _, _, _, _, hj⟩ := hr
      exact hj.endsBefore
    | cons v vs => exact ih (by simp)
  | @broken left e t op us vs ht hop hno hskip h ih =>
    cases vs with
    | nil =>
      -- recovery in a sum stops at no operator of a product
      intro u hu op' hop'
      have hstop := hskip.stop u hu
      rw [Token.kind, hop'] at hstop
      simpa [Terminal.kind, Level.stopsAt, Level.joins] using hstop
    | cons v vs => exact ih (by simp)

theorem noOperator_of_value (h : Value e ts rest) : NoOperator rest := by
  obtain ⟨left, us, vs, rfl, hleft, hj⟩ := h
  have hsum := hj.endsBefore
  have hproduct : Level.product.EndsBefore rest := by
    cases vs with
    | nil =>
      obtain ⟨_, _, _, _, _, hj'⟩ := hleft
      exact hj'.endsBefore
    | cons v vs => exact hj.endsBefore_product (by simp)
  intro t ht op hop
  have hs := hsum t ht op hop
  have hp := hproduct t ht op hop
  simp [Level.joins] at hs hp
  rw [hs] at hp
  simp at hp

theorem startsStatement_of_isOpen (h : Value e ts rest) (hopen : e.isOpen = true) :
    StartsStatement rest := by
  intro t ht
  have hstop := stops_value h hopen t ht
  have hno := noOperator_of_value h t ht
  obtain ⟨terminal, span⟩ := t
  cases terminal <;> simp_all [Token.kind, Terminal.kind, Level.stopsAt]

theorem endsBefore_nil (level : Level) : level.EndsBefore [] := by simp [Level.EndsBefore]

theorem skipped_append {us run : List Token} (h : Skipped level us rest)
    (hrun : ∀ t ∈ run, level.stopsAt t.kind = false) : Skipped level (us ++ run) [] :=
  ⟨List.forall_mem_append.2 ⟨h.passed, hrun⟩, by simp⟩

/-- Recovery at the level passes over the run. If it has not skipped anything so far, an
operand that comes first would be taken. -/
structure Passed (level : Level) (awaits : Prop) (run : List Token) : Prop where
  passed : ∀ t ∈ run, level.stopsAt t.kind = false
  noOperand : awaits → NoOperand run

/-- An open expression takes up a run that recovery passes over, and it is the same but for
its spans. Recovery has not skipped anything if the expression ends before its last token. -/
def Absorbs (D : Expr → List Token → List Token → Prop) : Prop :=
  ∀ ⦃e : Expr⦄ ⦃ts rest run : List Token⦄ ⦃missing : Level⦄ ⦃last : Token⦄ ⦃lo hi : Nat⦄,
    D e ts rest → Row lo ts hi → e.missing? = some missing → ts.getLast? = some last →
    Passed missing (e.span.stop ≠ last.span.stop) run →
    ∃ e', e'.relocate .forget = e.relocate .forget ∧ D e' (ts ++ run) []

theorem Passed.mono {level : Level} {awaits awaits' : Prop} {run : List Token}
    (h : Passed level awaits run) (himp : awaits' → awaits) : Passed level awaits' run :=
  ⟨h.passed, fun hawaits => h.noOperand (himp hawaits)⟩

theorem Absorbs.join_run (hD : Absorbs D) {right : Expr} {t last : Token} {op : Operator}
    {ws run : List Token} {missing : Level} {lo hi : Nat} (ht : t.terminal = .operator op)
    (hop : level.joins op = true) (hright : D right ws rest) (hrow : Row lo ws hi)
    (hmissing : right.missing? = some missing) (hlast : ws.getLast? = some last)
    (hrun : Passed missing (right.span.stop ≠ last.span.stop) run) :
    ∃ e', e'.relocate .forget = (Expr.binary op left right).relocate .forget ∧
      Joined level D [] left e' (t :: (ws ++ run)) := by
  obtain ⟨right', heq, hright'⟩ := hD hright hrow hmissing hlast hrun
  have hdone : Joined level D [] (.binary op left right') _ [] := .done _ (endsBefore_nil level)
  refine ⟨.binary op left right', by simp [heq], ?_⟩
  simpa using Joined.join ht hop hright' hdone

theorem Joined.broken_run {t : Token} {op : Operator} {ws run : List Token}
    (ht : t.terminal = .operator op) (hop : level.joins op = true)
    (hno : NoOperand (ws ++ rest)) (hskip : Skipped level ws rest)
    (hrun : Passed level (ws = []) run) :
    ∃ e', e'.relocate .forget =
        (Expr.broken (left.span.extend (covered ws)) op left).relocate .forget ∧
      Joined level D [] left e' (t :: (ws ++ run)) := by
  have hno' : NoOperand (ws ++ run) := by
    cases ws with
    | nil => exact hrun.noOperand rfl
    | cons u us => exact hno
  have hdone := Joined.done (D := D) (.broken (left.span.extend (covered (ws ++ run))) op left)
    (endsBefore_nil level)
  refine ⟨.broken (left.span.extend (covered (ws ++ run))) op left, rfl, ?_⟩
  have hskip' := skipped_append hskip hrun.passed
  simpa using Joined.broken ht hop (by simpa using hno') hskip' hdone

theorem Absorbs.joined (hlocal : Local D) (hplaces : Places D) (hD : Absorbs D)
    (h : Joined level D rest left e ts) (hts : ts ≠ []) {us ops run : List Token}
    {missing : Level} {last : Token} {lo hi : Nat} (hleft : left.Placed us ops)
    (hrow : Row lo (us ++ ops ++ ts) hi) (hmissing : e.missing? = some missing)
    (hlast : ts.getLast? = some last) (hrun : Passed missing (e.span.stop ≠ last.span.stop) run) :
    ∃ e', e'.relocate .forget = e.relocate .forget ∧ Joined level D [] left e' (ts ++ run) := by
  induction h generalizing us ops with
  | done left hend => exact absurd rfl hts
  | @join left right e t op ws vs ht hop hr h ih =>
    have hassoc : us ++ ops ++ t :: (ws ++ vs) = us ++ ops ++ t :: ws ++ vs := by simp
    rw [hassoc] at hrow
    obtain ⟨mid, -, -, -, hws⟩ := Row.append_iff.1 hrow.left
    obtain ⟨us', ops', rfl, hright⟩ := hplaces hr hws
    have hassoc' : us ++ ops ++ t :: (us' ++ ops') = us ++ ops ++ t :: us' ++ ops' := by simp
    have hbinary := placed_binary hleft hright op (hassoc' ▸ hrow.left).left
    by_cases hvs : vs = []
    · subst hvs
      obtain rfl := h.eq_of_nil
      have hcovers : (Expr.binary op left right).span.Over ((us ++ ops ++ [t]) ++ us') := by
        simpa using hbinary.covers
      rw [hcovers.stop_append hright.covers] at hrun
      have hne := List.append_ne_nil_of_left_ne_nil hright.covers.ne_nil ops'
      rw [List.append_nil, List.getLast?_cons_of_ne_nil hne] at hlast
      rw [List.append_nil]
      exact hD.join_run ht hop hr hws hmissing hlast hrun
    · have hlast' : vs.getLast? = some last := by
        rwa [← List.cons_append, List.getLast?_append_of_ne_nil _ hvs] at hlast
      obtain ⟨e', heq, hj⟩ := ih hvs hbinary (hassoc' ▸ hrow) hmissing hlast' hrun
      have hright' := hlocal hr (.inl (follows_of_ne_nil hvs _ (run ++ [])))
      have hjoin := Joined.join ht hop (by simpa using hright') hj
      refine ⟨e', heq, ?_⟩
      rwa [List.cons_append, List.append_assoc]
  | @broken left e t op ws vs ht hop hno hskip h ih =>
    have hassoc : us ++ ops ++ t :: (ws ++ vs) = us ++ ops ++ t :: ws ++ vs := by simp
    rw [hassoc] at hrow
    by_cases hvs : vs = []
    · subst hvs
      obtain rfl := h.eq_of_nil
      obtain rfl : level = missing := by
        rw [← Level.eq_of_joins hop]
        exact Option.some.inj hmissing
      rw [List.append_nil]
      refine Joined.broken_run ht hop hno hskip (hrun.mono fun hws hstop => ?_)
      -- the operation ends with its left operand, and so before the operator
      subst hws
      obtain rfl : t = last := Option.some.inj hlast
      obtain ⟨mid, hus, hmid, hlt, -⟩ := Row.append_iff.1 hrow.left
      have hend := (hus.left.bounds hleft.covers).2.2
      change left.span.stop = t.span.stop at hstop
      rw [hstop] at hend
      omega
    · have hlast' : vs.getLast? = some last := by
        rwa [← List.cons_append, List.getLast?_append_of_ne_nil _ hvs] at hlast
      obtain ⟨us', ops', heq', hbroken⟩ := placed_broken hleft ht hrow.left
      obtain ⟨e', heq, hj⟩ := ih hvs hbroken (heq' ▸ hrow) hmissing hlast' hrun
      have hfollows := follows_of_ne_nil hvs rest (run ++ [])
      refine ⟨e', heq, ?_⟩
      simpa using Joined.broken ht hop (by simpa using hfollows.noOperand hno)
        (by simpa using hfollows.skipped hskip) hj

theorem Absorbs.chain (hlocal : Local D) (hplaces : Places D) (hD : Absorbs D) :
    Absorbs (Chain level D) := by
  rintro e ts rest run missing last lo hi ⟨left, us, vs, rfl, hleft, hj⟩ hrow hmissing hlast hrun
  by_cases hvs : vs = []
  · subst hvs
    obtain rfl := hj.eq_of_nil
    rw [List.append_nil] at hrow hlast
    obtain ⟨e', heq, he'⟩ := hD hleft hrow hmissing hlast hrun
    exact ⟨e', heq, e', us ++ run, [], by simp, he', .done _ (endsBefore_nil level)⟩
  · obtain ⟨us', ops, rfl, hplaced⟩ := hplaces hleft hrow.left
    rw [List.getLast?_append_of_ne_nil _ hvs] at hlast
    obtain ⟨e', heq, hj'⟩ := hD.joined hlocal hplaces hj hvs hplaced hrow hmissing hlast hrun
    have hleft' := hlocal hleft (.inl (follows_of_ne_nil hvs _ (run ++ [])))
    exact ⟨e', heq, left, us' ++ ops, vs ++ run, by simp, by simpa using hleft', hj'⟩

theorem absorbs_operand : Absorbs Operand := by
  rintro e ts rest run missing last lo hi ⟨t, rfl, he⟩ - hmissing
  obtain ⟨terminal, span⟩ := t
  cases terminal <;> simp only [Token.operand?, Option.some.injEq, reduceCtorEq] at he <;>
    subst he <;> simp [Expr.missing?] at hmissing

theorem absorbs_value : Absorbs Value := by
  have hproduct : Absorbs Product := absorbs_operand.chain (fun _ _ _ _ h _ => h) places_operand
  exact hproduct.chain local_product (Places.chain places_operand)

end Values

end Recovered

end AssignLang
