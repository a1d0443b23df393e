import AssignLang.Proofs.Parse.Recovered

/-! Where trees stand, whatever is wrong with the tokens they are read from. A tree starts
with its first token and ends with one of its tokens, behind which only signs are left
over. All its spans run from token to token, and the parts of a node lie in it, one behind
the other. -/

namespace AssignLang

/-- From the start of the first token to the end of the last. -/
def Span.Over (s : Span) (ts : List Token) : Prop :=
  ∃ first last, ts.head? = some first ∧ ts.getLast? = some last ∧ s.start = first.span.start ∧
    s.stop = last.span.stop

/-- The span starts where a token starts and ends where a token ends. -/
def Span.FromTokens (s : Span) (ts : List Token) : Prop :=
  (∃ t ∈ ts, s.start = t.span.start) ∧ ∃ t ∈ ts, s.stop = t.span.stop

namespace Expr

def spans : Expr → List Span
  | .integer span _ | .string span _ => [span]
  | .reference ident => [ident.span]
  | .operation span _ left right => span :: (left.spans ++ right.spans)
  | .broken span _ left => span :: left.spans

/-- Operands lie in their operation, and the left one ends before the right one starts. -/
def Nested : Expr → Prop
  | .integer .. | .string .. | .reference .. => True
  | .operation span _ left right => left.span.Inside span ∧ right.span.Inside span ∧
      left.span.stop.offset < right.span.start.offset ∧ left.Nested ∧ right.Nested
  | .broken span _ left => left.span.Inside span ∧ left.Nested

/-- The operation that the expression ends with misses its right operand. -/
def isOpen : Expr → Bool
  | .integer .. | .string .. | .reference .. => false
  | .operation _ _ _ right => right.isOpen
  | .broken .. => true

end Expr

namespace Assignment

def spans (a : Assignment) : List Span :=
  a.span :: a.target.span :: (a.value?.map Expr.spans).getD []

structure Nested (a : Assignment) : Prop where
  target : a.target.span.Inside a.span
  value : ∀ e ∈ a.value?, e.span.Inside a.span ∧
    a.target.span.stop.offset < e.span.start.offset ∧ e.Nested

end Assignment

namespace Row

variable {lo mid hi : Nat} {ts us : List Token}

theorem start_lt_stop (h : Row lo ts hi) {first t : Token} (hfirst : ts.head? = some first)
    (ht : t ∈ ts) : first.span.start.offset < t.span.stop.offset := by
  obtain ⟨more, rfl⟩ := List.head?_eq_some_iff.1 hfirst
  obtain ⟨-, hlt, hrow⟩ := h
  rcases List.mem_cons.1 ht with rfl | ht
  · exact hlt
  · have := hrow.mem ht
    omega

theorem bounds (h : Row lo ts hi) {s : Span} (hs : s.Over ts) :
    lo ≤ s.start.offset ∧ s.start.offset < s.stop.offset ∧ s.stop.offset ≤ hi := by
  obtain ⟨first, last, hfirst, hlast, hstart, hstop⟩ := hs
  have hlt := h.start_lt_stop hfirst (List.mem_of_getLast? hlast)
  rw [hstart, hstop]
  exact ⟨(h.mem (List.mem_of_head? hfirst)).1, hlt, (h.mem (List.mem_of_getLast? hlast)).2.2⟩

theorem left (h : Row lo (ts ++ us) hi) : Row lo ts hi := by
  obtain ⟨mid, hts, hus⟩ := append_iff.1 h
  rw [← List.append_nil ts]
  exact append_iff.2 ⟨mid, hts, hus.le⟩

end Row

namespace Span

variable {s s' : Span} {ts us : List Token}

theorem over_singleton (t : Token) : t.span.Over [t] := ⟨t, t, rfl, rfl, rfl, rfl⟩

theorem Over.fromTokens (h : s.Over ts) : s.FromTokens ts := by
  obtain ⟨first, last, hfirst, hlast, hstart, hstop⟩ := h
  exact ⟨⟨first, List.mem_of_head? hfirst, hstart⟩, last, List.mem_of_getLast? hlast, hstop⟩

theorem FromTokens.mono (h : s.FromTokens ts) (hsub : ts ⊆ us) : s.FromTokens us := by
  obtain ⟨⟨t, ht, hstart⟩, u, hu, hstop⟩ := h
  exact ⟨⟨t, hsub ht, hstart⟩, u, hsub hu, hstop⟩

theorem Over.ne_nil (hs : s.Over ts) : ts ≠ [] := by
  obtain ⟨first, -, hfirst, -⟩ := hs
  rintro rfl
  simp at hfirst

theorem Over.stop_append (hs : s.Over (ts ++ us)) (hs' : s'.Over us) : s.stop = s'.stop := by
  obtain ⟨-, last, -, hlast, -, hstop⟩ := hs
  obtain ⟨-, last', -, hlast', -, hstop'⟩ := hs'
  rw [List.getLast?_append, hlast', Option.some_or] at hlast
  rw [hstop, hstop', Option.some.inj hlast]

theorem Over.merge {lo hi : Nat} {vs : List Token} (hs : s.Over ts) (hs' : s'.Over us)
    (hrow : Row lo (ts ++ (vs ++ us)) hi) :
    (s.merge s').Over (ts ++ (vs ++ us)) ∧ s.Inside (s.merge s') ∧ s'.Inside (s.merge s') := by
  obtain ⟨mid, hts, hrest⟩ := Row.append_iff.1 hrow
  obtain ⟨mid', hvs, hus⟩ := Row.append_iff.1 hrest
  have hleft := hts.bounds hs
  have hright := hus.bounds hs'
  have hle := hvs.le
  have hmerge : s.merge s' = ⟨s.start, s'.stop⟩ :=
    merge_of_precedes ⟨by omega, by omega⟩
  obtain ⟨first, -, hfirst, -, hstart, -⟩ := hs
  obtain ⟨-, last, -, hlast, -, hstop⟩ := hs'
  rw [hmerge]
  refine ⟨⟨first, last, ?_, ?_, hstart, hstop⟩, ⟨Nat.le_refl _, by omega, ?_⟩,
    ⟨?_, by omega, Nat.le_refl _⟩⟩
  · rw [List.head?_append, hfirst, Option.some_or]
  · rw [List.getLast?_append, List.getLast?_append, hlast]
    rfl
  · change _ ≤ s'.stop.offset
    omega
  · change s.start.offset ≤ _
    omega

/-- A span grown over what was skipped. If there was nothing it is as it was. -/
theorem Over.extend {lo hi : Nat} {vs : List Token} (hs : s.Over ts)
    (hrow : Row lo (ts ++ (vs ++ us)) hi) :
    s.Inside (s.extend (Recovered.covered us)) ∧
      (us = [] ∧ s.extend (Recovered.covered us) = s ∨
        (s.extend (Recovered.covered us)).Over (ts ++ (vs ++ us))) := by
  cases us with
  | nil =>
    have hover := hrow.left.bounds hs
    exact ⟨⟨Nat.le_refl _, by omega, Nat.le_refl _⟩, .inl ⟨rfl, rfl⟩⟩
  | cons t us =>
    obtain ⟨mid, -, hrest⟩ := Row.append_iff.1 hrow
    obtain ⟨mid', -, hus⟩ := Row.append_iff.1 hrest
    have hcover := Span.cover_cons (List.map_cons ▸ hus.pairwise_precedes)
    obtain ⟨hover, hinside, -⟩ := hs.merge (hus.cover hcover) hrow
    rw [Recovered.covered, List.map_cons, hcover]
    exact ⟨hinside, .inr hover⟩

end Span

/-- The expression covers the tokens `us`, and the operators left over behind them belong
to it. Only an open one leaves any over. -/
structure Expr.Placed (e : Expr) (us ops : List Token) : Prop where
  covers : e.span.Over us
  operators : ∀ t ∈ ops, ∃ op, t.terminal = .operator op
  closed : e.isOpen = false → ops = []
  nested : e.Nested
  spans : ∀ s ∈ e.spans, s.FromTokens us

namespace Recovered

def Places (D : Expr → List Token → List Token → Prop) : Prop :=
  ∀ {e : Expr} {ts rest : List Token} {lo hi : Nat}, D e ts rest → Row lo ts hi →
    ∃ us ops, ts = us ++ ops ∧ e.Placed us ops

theorem places_operand : Places Operand := by
  rintro e ts rest lo hi ⟨t, rfl, he⟩ -
  have hover := Span.over_singleton t
  refine ⟨[t], [], rfl, ?_⟩
  obtain ⟨terminal, span⟩ := t
  cases terminal <;> simp only [Token.operand?, Option.some.injEq, reduceCtorEq] at he <;>
    subst he <;>
    exact ⟨hover, by simp, fun _ => rfl, trivial,
      fun s hs => List.mem_singleton.1 hs ▸ hover.fromTokens⟩

variable {level : Level} {D : Expr → List Token → List Token → Prop}

theorem placed_binary {left right : Expr} {us ops us' ops' : List Token} {t : Token} {lo hi : Nat}
    (hleft : left.Placed us ops) (hright : right.Placed us' ops') (op : Operator)
    (hrow : Row lo (us ++ ops ++ t :: us') hi) :
    (Expr.binary op left right).Placed (us ++ ops ++ t :: us') ops' := by
  have hassoc : us ++ ops ++ t :: us' = us ++ ((ops ++ [t]) ++ us') := by simp
  rw [hassoc] at hrow ⊢
  obtain ⟨hover, hinl, hinr⟩ := hleft.covers.merge hright.covers hrow
  refine ⟨hover, hright.operators, hright.closed,
    ⟨hinl, hinr, ?_, hleft.nested, hright.nested⟩, ?_⟩
  · -- the operator stands between the operands
    obtain ⟨mid, hus, hrest⟩ := Row.append_iff.1 hrow
    obtain ⟨mid', hops, hus'⟩ := Row.append_iff.1 hrest
    obtain ⟨mid'', hops, ht⟩ := Row.append_iff.1 hops
    have hl := hus.bounds hleft.covers
    have hr := hus'.bounds hright.covers
    have hle := hops.le
    obtain ⟨hlo, hlt, hhi⟩ := ht
    change _ ≤ mid' at hhi
    omega
  · intro s hs
    rcases List.mem_cons.1 hs with rfl | hs
    · exact hover.fromTokens
    · rcases List.mem_append.1 hs with hs | hs
      · exact (hleft.spans s hs).mono (List.subset_append_left _ _)
      · exact (hright.spans s hs).mono fun x hx => by simp [hx]

theorem placed_broken {left : Expr} {us ops skipped : List Token} {t : Token} {op : Operator}
    {lo hi : Nat} (hleft : left.Placed us ops) (ht : t.terminal = .operator op)
    (hrow : Row lo (us ++ ops ++ t :: skipped) hi) :
    ∃ us' ops', us ++ ops ++ t :: skipped = us' ++ ops' ∧
      (Expr.broken (left.span.extend (covered skipped)) op left).Placed us' ops' := by
  have hassoc : us ++ ops ++ t :: skipped = us ++ ((ops ++ [t]) ++ skipped) := by simp
  rw [hassoc] at hrow ⊢
  obtain ⟨hinside, ⟨rfl, hspan⟩ | hover⟩ := hleft.covers.extend hrow
  · refine ⟨us, ops ++ [t], by simp, ?_, ?_, by simp [Expr.isOpen], ⟨hinside, hleft.nested⟩, ?_⟩
    · exact hspan.symm ▸ hleft.covers
    · intro u hu
      rcases List.mem_append.1 hu with hu | hu
      · exact hleft.operators u hu
      · exact ⟨op, List.mem_singleton.1 hu ▸ ht⟩
    · intro s hs
      rcases List.mem_cons.1 hs with rfl | hs
      · exact hspan.symm ▸ hleft.covers.fromTokens
      · exact hleft.spans s hs
  · refine ⟨_, [], (List.append_nil _).symm, hover, by simp, fun _ => rfl,
      ⟨hinside, hleft.nested⟩, ?_⟩
    intro s hs
    rcases List.mem_cons.1 hs with rfl | hs
    · exact hover.fromTokens
    · exact (hleft.spans s hs).mono (List.subset_append_left _ _)

theorem Places.joined (hD : Places D) {left e : Expr} {ts rest us ops : List Token} {lo hi : Nat}
    (h : Joined level D rest left e ts) (hleft : left.Placed us ops)
    (hrow : Row lo (us ++ ops ++ ts) hi) :
    ∃ us' ops', us ++ ops ++ ts = us' ++ ops' ∧ e.Placed us' ops' := by
  induction h generalizing us ops with
  | done left => exact ⟨us, ops, List.append_nil _, hleft⟩
  | @join left right e t op ws vs ht hop hr _ ih =>
    have hassoc : us ++ ops ++ t :: (ws ++ vs) = us ++ ops ++ t :: ws ++ vs := by simp
    rw [hassoc] at hrow ⊢
    obtain ⟨mid, -, -, -, hws⟩ := Row.append_iff.1 hrow.left
    obtain ⟨us', ops', rfl, hright⟩ := hD hr hws
    have hassoc' : us ++ ops ++ t :: (us' ++ ops') = us ++ ops ++ t :: us' ++ ops' := by simp
    rw [hassoc'] at hrow ⊢
    exact ih (placed_binary hleft hright op hrow.left.left) hrow
  | @broken left e t op ws vs ht hop hno hskip _ ih =>
    have hassoc : us ++ ops ++ t :: (ws ++ vs) = us ++ ops ++ t :: ws ++ vs := by simp
    rw [hassoc] at hrow ⊢
    obtain ⟨us', ops', heq, hbroken⟩ := placed_broken hleft ht hrow.left
    rw [heq] at hrow ⊢
    exact ih hbroken hrow

theorem Places.chain (hD : Places D) : Places (Chain level D) := by
  rintro e ts rest lo hi ⟨left, us, vs, rfl, hleft, hj⟩ hrow
  obtain ⟨us, ops, rfl, hplaced⟩ := hD hleft hrow.left
  exact hD.joined hj hplaced hrow

theorem places_value : Places Value := Places.chain (Places.chain places_operand)

end Recovered

/-- The sort of token that an assignment can leave over behind its span. -/
def Assignment.LeavesOver (a : Assignment) (t : Token) : Prop :=
  match a.value? with
  | none => t.terminal = .assign
  | some _ => ∃ op, t.terminal = .operator op

/-- The assignment covers the tokens `us`, and the signs left over behind them belong to it.
Only one with an open value or without a value leaves any over. -/
structure Assignment.Placed (a : Assignment) (us signs : List Token) : Prop where
  covers : a.span.Over us
  leftovers : ∀ t ∈ signs, a.LeavesOver t
  closed : ∀ e ∈ a.value?, e.isOpen = false → signs = []
  nested : a.Nested
  spans : ∀ s ∈ a.spans, s.FromTokens us

theorem Token.span_of_target? {t : Token} {target : Ident} (h : t.target? = some target) :
    target.span = t.span := by
  obtain ⟨terminal, span⟩ := t
  cases terminal <;> simp only [Token.target?, Option.some.injEq, reduceCtorEq] at h <;>
    subst h <;> rfl

namespace Recovered

theorem placed_failed {t : Token} {target : Ident} (between : List Token) {skipped : List Token}
    {lo hi : Nat} (ht : t.target? = some target)
    (hbetween : ∀ u ∈ between, u.terminal = .assign)
    (hrow : Row lo (t :: (between ++ skipped)) hi) :
    ∃ us signs, t :: (between ++ skipped) = us ++ signs ∧
      (Assignment.failed target (covered skipped)).Placed us signs := by
  have htarget := Token.span_of_target? ht
  have hone : target.span.Over [t] := htarget ▸ Span.over_singleton t
  have hrow' : Row lo ([t] ++ (between ++ skipped)) hi := hrow
  have hvalue : ∀ e ∈ (Assignment.failed target (covered skipped)).value?, False := by
    simp [Assignment.failed]
  obtain ⟨hinside, ⟨rfl, hspan⟩ | hover⟩ := hone.extend hrow'
  · refine ⟨[t], between, by simp, ?_, hbetween, fun e he => (hvalue e he).elim,
      ⟨hinside, fun e he => (hvalue e he).elim⟩, ?_⟩
    · rw [Assignment.failed, hspan]
      exact hone
    · intro s hs
      rw [Assignment.spans, Assignment.failed, hspan] at hs
      rcases List.mem_cons.1 hs with rfl | hs
      · exact hone.fromTokens
      · exact List.mem_singleton.1 hs ▸ hone.fromTokens
  · refine ⟨_, [], (List.append_nil _).symm, hover, by simp, fun _ _ _ => rfl,
      ⟨hinside, fun e he => (hvalue e he).elim⟩, ?_⟩
    intro s hs
    rcases List.mem_cons.1 hs with rfl | hs
    · exact hover.fromTokens
    · exact List.mem_singleton.1 hs ▸ hone.fromTokens.mono (List.subset_append_left _ _)

theorem Statement.placed {a : Assignment} {ts rest : List Token} {lo hi : Nat}
    (h : Statement rest (some a) ts) (hrow : Row lo ts hi) :
    ∃ us signs, ts = us ++ signs ∧ a.Placed us signs := by
  cases h with
  | @complete t u target value us ht hu hvalue =>
    have hone : target.span.Over [t] := Token.span_of_target? ht ▸ Span.over_singleton t
    have hus : Row u.span.stop.offset us hi := hrow.2.2.2.2
    obtain ⟨us, ops, rfl, hplaced⟩ := places_value hvalue hus
    have hrow' : Row lo ([t] ++ ([u] ++ us)) hi :=
      Row.left (show Row lo ([t] ++ ([u] ++ us) ++ ops) hi by simpa using hrow)
    obtain ⟨hover, hint, hinv⟩ := hone.merge hplaced.covers hrow'
    refine ⟨t :: u :: us, ops, by simp, hover, hplaced.operators, fun e he hclosed => ?_,
      ⟨hint, fun e he => ?_⟩, ?_⟩
    · obtain rfl := Option.some.inj he
      exact hplaced.closed hclosed
    · obtain rfl := Option.some.inj he
      refine ⟨hinv, ?_, hplaced.nested⟩
      obtain ⟨-, -, hu, hlt, hvs⟩ := hrow'
      have hv := Row.bounds hvs hplaced.covers
      rw [Assignment.complete, Token.span_of_target? ht]
      omega
    · intro s hs
      rcases List.mem_cons.1 hs with rfl | hs
      · exact hover.fromTokens
      · rcases List.mem_cons.1 hs with rfl | hs
        · exact hone.fromTokens.mono fun x hx => by simp_all
        · exact (hplaced.spans s hs).mono fun x hx => by simp [hx]
  | @unassigned t target us ht hno hskip =>
    exact placed_failed [] ht (by simp) hrow
  | @valueless t u target us ht hu hno hskip =>
    refine placed_failed [u] ht (fun v hv => ?_) hrow
    rw [List.mem_singleton.1 hv, hu]

theorem Statements.placed {as : List Assignment} {ts rest : List Token} {lo hi : Nat}
    (h : Statements rest as ts) (hrow : Row lo ts hi) :
    as.Pairwise (fun a b => a.span.stop.offset ≤ b.span.start.offset) ∧
      ∀ a ∈ as, a.Nested ∧ lo ≤ a.span.start.offset ∧ a.span.start.offset < a.span.stop.offset ∧
        a.span.stop.offset ≤ hi ∧ ∀ s ∈ a.spans, s.FromTokens ts := by
  induction h generalizing lo with
  | nil => exact ⟨List.Pairwise.nil, by simp⟩
  | @cons a as us vs h _ ih =>
    obtain ⟨mid, hus, hvs⟩ := Row.append_iff.1 hrow
    obtain ⟨hpairwise, hall⟩ := ih hvs
    have hmore : ∀ b ∈ as, b.Nested ∧ mid ≤ b.span.start.offset ∧
        b.span.start.offset < b.span.stop.offset ∧ b.span.stop.offset ≤ hi ∧
        ∀ s ∈ b.spans, s.FromTokens (us ++ vs) := by
      intro b hb
      obtain ⟨hnested, hlo, hlt, hhi, hspans⟩ := hall b hb
      exact ⟨hnested, hlo, hlt, hhi,
        fun s hs => (hspans s hs).mono (List.subset_append_right _ _)⟩
    have hle := hus.le
    cases a with
    | none =>
      refine ⟨hpairwise, fun b hb => ?_⟩
      obtain ⟨hnested, hlo, hrest⟩ := hmore b hb
      exact ⟨hnested, by omega, hrest⟩
    | some a =>
      obtain ⟨ws, signs, rfl, hplaced⟩ := h.placed hus
      obtain ⟨hlo, hlt, hhi⟩ := hus.left.bounds hplaced.covers
      have hhi' := hvs.le
      refine ⟨List.pairwise_cons.2 ⟨fun b hb => ?_, hpairwise⟩, fun b hb => ?_⟩
      · have := (hmore b hb).2.1
        omega
      · rcases List.mem_cons.1 hb with rfl | hb
        · refine ⟨hplaced.nested, hlo, hlt, by omega, fun s hs => ?_⟩
          exact (hplaced.spans s hs).mono fun x hx => by simp [hx]
        · obtain ⟨hnested, hlo', hrest⟩ := hmore b hb
          exact ⟨hnested, by omega, hrest⟩

end Recovered

end AssignLang
