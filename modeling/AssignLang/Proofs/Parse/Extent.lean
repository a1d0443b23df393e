import AssignLang.Proofs.Parse.Derivation

/-! Where the trees of derivations stand. Over tokens in the order of the text, a tree
runs from the start of its first token to the end of its last one, which is an operand. -/

namespace AssignLang

/-- Neither end of `t` lies behind the same end of `u`. -/
def Token.Precedes (t u : Token) : Prop :=
  t.span.start.offset ≤ u.span.start.offset ∧ t.span.stop.offset ≤ u.span.stop.offset

/-- The span runs from the first of some tokens to the last, and the last is an operand. -/
def Span.Covers (s : Span) (ts : List Token) : Prop :=
  ∃ first last, ts.head? = some first ∧ ts.getLast? = some last ∧
    s.start.offset = first.span.start.offset ∧ s.stop.offset = last.span.stop.offset ∧
    last.operand?.isSome = true

theorem Span.Covers.merge {s s' : Span} {ts us : List Token} {t : Token} (hs : s.Covers ts)
    (hs' : s'.Covers us) (h : (ts ++ t :: us).Pairwise Token.Precedes) :
    (s.merge s').Covers (ts ++ t :: us) := by
  obtain ⟨first, last, hfirst, hlast, hstart, hstop, -⟩ := hs
  obtain ⟨first', last', hfirst', hlast', hstart', hstop', hoperand⟩ := hs'
  obtain ⟨-, -, hcross⟩ := List.pairwise_append.1 h
  have hhead := hcross first (List.mem_of_head? hfirst) first'
    (List.mem_cons_of_mem t (List.mem_of_head? hfirst'))
  have htail := hcross last (List.mem_of_getLast? hlast) last'
    (List.mem_cons_of_mem t (List.mem_of_getLast? hlast'))
  refine ⟨first, last', ?_, ?_, ?_, ?_, hoperand⟩
  · rw [List.head?_append, hfirst, Option.some_or]
  · rw [List.getLast?_append, List.getLast?_cons, hlast']; rfl
  · have := hhead.1
    rw [Span.offset_start_merge]
    omega
  · have := htail.2
    rw [Span.offset_stop_merge]
    omega

namespace Derived

/-- The trees of these derivations cover their tokens. -/
def Covering (D : Expr → List Token → Prop) : Prop :=
  ∀ {e : Expr} {ts : List Token}, D e ts → ts.Pairwise Token.Precedes → e.span.Covers ts

variable {level : Level} {D : Expr → List Token → Prop}

theorem covering_operand : Covering Operand := by
  rintro e ts ⟨t, rfl, he⟩ -
  refine ⟨t, t, rfl, rfl, ?_, ?_, by rw [he]; rfl⟩ <;>
    obtain ⟨terminal, span⟩ := t <;>
    cases terminal <;> simp only [Token.operand?, Option.some.injEq, reduceCtorEq] at he <;>
    subst he <;> rfl

theorem Covering.joined (hD : Covering D) {left e : Expr} {ts us : List Token}
    (h : Joined level D left e us) (hleft : left.span.Covers ts)
    (hts : (ts ++ us).Pairwise Token.Precedes) : e.span.Covers (ts ++ us) := by
  induction h generalizing ts with
  | done left => rwa [List.append_nil]
  | @join left right e t op us vs ht hop hr _ ih =>
    have hassoc : ts ++ t :: (us ++ vs) = (ts ++ t :: us) ++ vs := by simp
    rw [hassoc] at hts ⊢
    have hpart : (ts ++ t :: us).Pairwise Token.Precedes := (List.pairwise_append.1 hts).1
    have hus : us.Pairwise Token.Precedes :=
      (List.pairwise_cons.1 (List.pairwise_append.1 hpart).2.1).2
    exact ih (hleft.merge (hD hr hus) hpart) hts

theorem Covering.chain (hD : Covering D) : Covering (Chain level D) := by
  rintro e ts ⟨left, us, vs, rfl, hleft, hj⟩ hts
  exact hD.joined hj (hD hleft (List.pairwise_append.1 hts).1) hts

theorem covering_value : Covering Value := Covering.chain (Covering.chain covering_operand)

theorem Statement.covers {a : Assignment} {ts : List Token} (h : Statement a ts)
    (hts : ts.Pairwise Token.Precedes) : a.span.Covers ts := by
  obtain ⟨t, target, u, value, us, rfl, ht, -, hvalue, rfl⟩ := h
  obtain ⟨hhead, htail⟩ := List.pairwise_cons.1 hts
  obtain ⟨first, last, hfirst, hlast, hstart, hstop, hoperand⟩ :=
    covering_value hvalue (List.pairwise_cons.1 htail).2
  have htarget : target.span = t.span := by
    obtain ⟨terminal, span⟩ := t
    cases terminal <;> simp only [Token.target?, Option.some.injEq, reduceCtorEq] at ht <;>
      subst ht <;> rfl
  have hbefore := hhead first (List.mem_cons_of_mem u (List.mem_of_head? hfirst))
  have hbehind := hhead last (List.mem_cons_of_mem u (List.mem_of_getLast? hlast))
  refine ⟨t, last, rfl, ?_, ?_, ?_, hoperand⟩
  · rw [List.getLast?_cons, List.getLast?_cons, hlast]; rfl
  · have := hbefore.1
    rw [Assignment.complete, Span.offset_start_merge, htarget]
    omega
  · have := hbehind.2
    rw [Assignment.complete, Span.offset_stop_merge, htarget]
    omega

theorem Statements.getLast?_operand {as : List Assignment} {ts : List Token}
    (h : Statements as ts) (hts : ts.Pairwise Token.Precedes) :
    ∀ t ∈ ts.getLast?, t.operand?.isSome = true := by
  induction h with
  | nil => simp
  | @cons a as us vs h _ ih =>
    obtain ⟨hus, hvs, -⟩ := List.pairwise_append.1 hts
    obtain ⟨first, last, -, hlast, -, -, hoperand⟩ := h.covers hus
    intro t ht
    rw [List.getLast?_append] at ht
    cases hlast' : vs.getLast? with
    | some u =>
      rw [hlast', Option.some_or] at ht
      obtain rfl := Option.some.inj ht
      exact ih hvs u hlast'
    | none =>
      rw [hlast', Option.none_or, hlast] at ht
      obtain rfl := Option.some.inj ht
      exact hoperand

theorem Statements.exists_start {as : List Assignment} {ts : List Token} (h : Statements as ts)
    (hts : ts.Pairwise Token.Precedes) :
    ∀ b ∈ as, ∃ t ∈ ts, b.span.start.offset = t.span.start.offset := by
  induction h with
  | nil => simp
  | @cons a as us vs h _ ih =>
    obtain ⟨hus, hvs, -⟩ := List.pairwise_append.1 hts
    intro b hb
    rcases List.mem_cons.1 hb with rfl | hb
    · obtain ⟨first, last, hfirst, -, hstart, -⟩ := h.covers hus
      exact ⟨first, List.mem_append_left _ (List.mem_of_head? hfirst), hstart⟩
    · obtain ⟨t, ht, hstart⟩ := ih hvs b hb
      exact ⟨t, List.mem_append_right _ ht, hstart⟩

theorem Statements.split {as bs : List Assignment} {ts : List Token}
    (h : Statements (as ++ bs) ts) :
    ∃ us vs, ts = us ++ vs ∧ Statements as us ∧ Statements bs vs := by
  induction as generalizing ts with
  | nil => exact ⟨[], ts, rfl, .nil, h⟩
  | cons a as ih =>
    cases h with
    | @cons _ _ us vs h hs =>
      obtain ⟨us', vs', rfl, has, hbs⟩ := ih hs
      exact ⟨us ++ us', vs', by simp, .cons h has, hbs⟩

end Derived

end AssignLang
