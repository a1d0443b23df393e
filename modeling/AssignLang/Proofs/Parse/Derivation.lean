import AssignLang.Proofs.Parse.Statements

/-! Trees with the tokens they are built from. A derivation says which tokens an
expression or an assignment stands for when nothing is wrong: operands in a row, joined
from the left by the operators between them. Reading complains about nothing exactly if
the tokens have a derivation, and then gives its tree. -/

namespace AssignLang

namespace Derived

def Operand (e : Expr) (ts : List Token) : Prop := ∃ t, ts = [t] ∧ t.operand? = some e

/-- From `left`, the operators and operands in a list of tokens lead to an expression. -/
inductive Joined (level : Level) (D : Expr → List Token → Prop) :
    Expr → Expr → List Token → Prop
  | done (left : Expr) : Joined level D left left []
  | join {left right e : Expr} {t : Token} {op : Operator} {us vs : List Token}
      (ht : t.terminal = .operator op) (hop : level.joins op = true) (hr : D right us)
      (h : Joined level D (.binary op left right) e vs) : Joined level D left e (t :: (us ++ vs))

def Chain (level : Level) (D : Expr → List Token → Prop) (e : Expr) (ts : List Token) : Prop :=
  ∃ left us vs, ts = us ++ vs ∧ D left us ∧ Joined level D left e vs

def Product : Expr → List Token → Prop := Chain .product Operand

def Value : Expr → List Token → Prop := Chain .sum Product

def Statement (a : Assignment) (ts : List Token) : Prop :=
  ∃ t target u value us, ts = t :: u :: us ∧ t.target? = some target ∧ u.terminal = .assign ∧
    Value value us ∧ a = .complete target value

inductive Statements : List Assignment → List Token → Prop
  | nil : Statements [] []
  | cons {a : Assignment} {as : List Assignment} {us vs : List Token} (h : Statement a us)
      (hs : Statements as vs) : Statements (a :: as) (us ++ vs)

end Derived

namespace ParseState

/-- Nothing was complained about on the way from `s` to `t`. -/
def Quiet (s t : ParseState) : Prop := t.rejections = s.rejections

theorem Moves.quiet_split {s t u : ParseState} (h : Moves s u) (h' : Moves u t) (hs : s.Scanned)
    (hq : Quiet s t) : Quiet s u ∧ Quiet u t := by
  have hsu := h.rejections_suffix hs
  have hut := h'.rejections_suffix (h.scanned hs)
  unfold Quiet at hq ⊢
  rw [hq] at hut
  have heq : u.rejections = s.rejections :=
    hut.eq_of_length (Nat.le_antisymm hut.length_le hsu.length_le)
  exact ⟨heq, hq.trans heq.symm⟩

theorem not_quiet_reject {s t : ParseState} {wanted : TokenKind} (hs : s.Scanned)
    (h : Moves (s.reject wanted) t) : ¬ Quiet s t := by
  intro hq
  have hle := (h.rejections_suffix ⟨hs.ahead, hs.closing⟩).length_le
  rw [rejections_reject, hq, List.length_cons] at hle
  omega

theorem operator?_eq_some_iff {level : Level} {s : ParseState} {op : Operator} :
    s.operator? level = some op ↔
      ∃ t ts, s.tokens = t :: ts ∧ t.terminal = .operator op ∧ level.joins op = true := by
  unfold operator? kind tokens
  cases s.ahead with
  | nil => simp [TokenKind.operator?]
  | cons r rest =>
    obtain ⟨⟨terminal, span⟩, reports⟩ := r
    cases terminal <;>
      simp [Token.kind, Terminal.kind, TokenKind.operator?, Option.filter_eq_some_iff]

end ParseState

/-- No operator of the level comes next. -/
def Level.EndsBefore (level : Level) (rest : List Token) : Prop :=
  ∀ t ∈ rest.head?, ∀ op, t.terminal = .operator op → level.joins op = false

namespace ExprReader

open ParseState Derived

/-- What is read without complaint has a derivation. -/
def Sound (D : Expr → List Token → Prop) (operands : ExprReader) : Prop :=
  ∀ s : ParseState, s.Scanned → Quiet s (operands.read s).2 →
    ∃ e ts, (operands.read s).1 = some e ∧ D e ts ∧ s.tokens = ts ++ (operands.read s).2.tokens

variable {D : Expr → List Token → Prop} {operands : ExprReader}

theorem sound_operand : Sound Operand operand := by
  intro s hs hq
  change ∃ e ts, s.operand.1 = some e ∧ Operand e ts ∧ s.tokens = ts ++ s.operand.2.tokens
  change Quiet s s.operand.2 at hq
  cases h : s.ahead.head?.bind (·.token.operand?) with
  | none =>
    rw [operand_of_none h] at hq
    exact absurd hq (not_quiet_reject hs .refl)
  | some e =>
    rw [operand_of_some h]
    obtain ⟨r, hr, he⟩ := Option.bind_eq_some_iff.1 h
    obtain ⟨rest, hrest⟩ := List.head?_eq_some_iff.1 hr
    refine ⟨e, [r.token], rfl, ⟨r.token, rfl, he⟩, ?_⟩
    rw [tokens_advance, tokens, hrest]
    rfl

theorem Sound.chainFrom (hsound : Sound D operands) (hmoves : ∀ s, Moves s (operands.read s).2)
    (level : Level) (left : Expr) (s : ParseState) (hs : s.Scanned)
    (hq : Quiet s (chainFrom level operands left s).2) :
    ∃ ts, Joined level D left (chainFrom level operands left s).1 ts ∧
      s.tokens = ts ++ (chainFrom level operands left s).2.tokens := by
  fun_induction ExprReader.chainFrom level operands left s with
  | case1 left s hop => exact ⟨[], .done left, rfl⟩
  | case2 left s op hop right t hr ih =>
    have hread := hmoves s.advance
    rw [hr] at hread
    have hrest := moves_chainFrom level hmoves (.binary op left right) t
    obtain ⟨hqt, hqrest⟩ := Moves.quiet_split ((Moves.advance .refl).trans hread) hrest hs hq
    have hqt' : Quiet s.advance t := by rw [Quiet, rejections_advance hs]; exact hqt
    obtain ⟨right', us, heq, hD, htokens⟩ := hsound s.advance hs.advance (by rw [hr]; exact hqt')
    rw [hr] at heq htokens
    obtain rfl := Option.some.inj heq
    obtain ⟨vs, hjoined, hvs⟩ := ih (hread.scanned hs.advance) hqrest
    obtain ⟨tok, ts, hts, hterm, hjoins⟩ := operator?_eq_some_iff.1 hop
    refine ⟨tok :: (us ++ vs), .join hterm hjoins hD hjoined, ?_⟩
    rw [tokens_advance, hts, List.tail_cons] at htokens
    rw [hts, htokens, hvs]
    simp
  | case3 left s op hop t hr skipped ih =>
    -- a missing operand would have been complained about
    have hread := hmoves s.advance
    rw [hr] at hread
    have hrest := (moves_skip level t).trans (moves_chainFrom level hmoves
      (.broken (left.span.extend skipped.1) op left) skipped.2)
    obtain ⟨hqt, -⟩ := Moves.quiet_split ((Moves.advance .refl).trans hread) hrest hs hq
    have hqt' : Quiet s.advance t := by rw [Quiet, rejections_advance hs]; exact hqt
    obtain ⟨right', us, heq, -, -⟩ := hsound s.advance hs.advance (by rw [hr]; exact hqt')
    rw [hr] at heq
    simp at heq

theorem Sound.chain (hsound : Sound D operands) (hmoves : ∀ s, Moves s (operands.read s).2)
    (level : Level) : Sound (Chain level D) (chain level operands) := by
  intro s hs hq
  change Quiet s (readChain level operands s).2 at hq
  change ∃ e ts, (readChain level operands s).1 = some e ∧ Chain level D e ts ∧
    s.tokens = ts ++ (readChain level operands s).2.tokens
  have hread := hmoves s
  have hop := hsound s hs
  unfold readChain at hq ⊢
  rcases hr : operands.read s with ⟨_ | left, t⟩
  · rw [hr] at hq hop
    obtain ⟨e, ts, he, -⟩ := hop hq
    simp at he
  · rw [hr] at hq hop hread
    obtain ⟨hqt, hqrest⟩ := Moves.quiet_split hread (moves_chainFrom level hmoves left t) hs hq
    obtain ⟨e, us, he, hD, htokens⟩ := hop hqt
    obtain rfl := Option.some.inj he
    obtain ⟨vs, hjoined, hvs⟩ := hsound.chainFrom hmoves level left t (hread.scanned hs) hqrest
    refine ⟨_, us ++ vs, rfl, ⟨left, us, vs, rfl, hD, hjoined⟩, ?_⟩
    rw [htokens, hvs, List.append_assoc]

theorem sound_value : Sound Value value :=
  Sound.chain (Sound.chain sound_operand moves_operand .product) moves_product .sum

/-- What has a derivation is read as its tree, if it ends where `E` says. -/
def Complete (D : Expr → List Token → Prop) (E : List Token → Prop) (operands : ExprReader) :
    Prop :=
  ∀ {s : ParseState} {e : Expr} {ts rest : List Token}, s.Scanned → D e ts →
    s.tokens = ts ++ rest → E rest →
      ∃ t, operands.read s = (some e, t) ∧ t.tokens = rest ∧ Quiet s t

theorem complete_operand : Complete Operand (fun _ => True) operand := by
  rintro s e ts rest hs ⟨tok, rfl, he⟩ htokens -
  obtain ⟨r, more, hahead, rfl, hmore⟩ := List.map_eq_cons_iff.1 htokens
  refine ⟨s.advance, operand_of_some (by rw [hahead]; exact he), ?_, rejections_advance hs⟩
  rw [tokens_advance, htokens]
  rfl

variable {E : List Token → Prop}

theorem Complete.chainFrom (hcomplete : Complete D E operands)
    (hmoves : ∀ s, Moves s (operands.read s).2) {level : Level}
    (hE : ∀ t ts op, t.terminal = .operator op → level.joins op = true → E (t :: ts))
    {left e : Expr} {ts : List Token} (h : Joined level D left e ts) {s : ParseState}
    {rest : List Token} (hs : s.Scanned) (htokens : s.tokens = ts ++ rest) (hrest : E rest)
    (hend : level.EndsBefore rest) :
    ∃ t, chainFrom level operands left s = (e, t) ∧ t.tokens = rest ∧ Quiet s t := by
  induction h generalizing s with
  | done left =>
    have hop : s.operator? level = none := by
      rw [Option.eq_none_iff_forall_ne_some]
      intro op hop
      obtain ⟨tok, more, hmore, hterm, hjoins⟩ := operator?_eq_some_iff.1 hop
      rw [htokens, List.nil_append] at hmore
      rw [hend tok (by rw [hmore]; rfl) op hterm] at hjoins
      simp at hjoins
    exact ⟨s, chainFrom_of_none hop left, htokens, rfl⟩
  | @join left right e tok op us vs hterm hjoins hright hjoined ih =>
    have hop : s.operator? level = some op :=
      operator?_eq_some_iff.2 ⟨tok, _, htokens, hterm, hjoins⟩
    have hadvance : s.advance.tokens = us ++ (vs ++ rest) := by
      rw [tokens_advance, htokens, List.cons_append, List.tail_cons, List.append_assoc]
    have hEvs : E (vs ++ rest) := by
      cases hjoined with
      | done => exact hrest
      | join hterm' hjoins' _ _ => exact hE _ _ _ hterm' hjoins'
    obtain ⟨u, hread, hu, hquiet⟩ := hcomplete hs.advance hright hadvance hEvs
    have hmove := hmoves s.advance
    rw [hread] at hmove
    obtain ⟨t, hchain, ht, hquiet'⟩ := ih (hmove.scanned hs.advance) hu
    refine ⟨t, by rw [chainFrom_join hop hread, hchain], ht, ?_⟩
    exact hquiet'.trans (hquiet.trans (rejections_advance hs))

theorem Complete.chain (hcomplete : Complete D E operands)
    (hmoves : ∀ s, Moves s (operands.read s).2) {level : Level}
    (hE : ∀ t ts op, t.terminal = .operator op → level.joins op = true → E (t :: ts)) :
    Complete (Chain level D) (fun rest => E rest ∧ level.EndsBefore rest)
      (chain level operands) := by
  rintro s e ts rest hs ⟨left, us, vs, rfl, hleft, hjoined⟩ htokens ⟨hrest, hend⟩
  rw [List.append_assoc] at htokens
  have hEvs : E (vs ++ rest) := by
    cases hjoined with
    | done => exact hrest
    | join hterm hjoins _ _ => exact hE _ _ _ hterm hjoins
  obtain ⟨u, hread, hu, hquiet⟩ := hcomplete hs hleft htokens hEvs
  have hmove := hmoves s
  rw [hread] at hmove
  obtain ⟨t, hchain, ht, hquiet'⟩ :=
    hcomplete.chainFrom hmoves hE hjoined (hmove.scanned hs) hu hrest hend
  refine ⟨t, ?_, ht, hquiet'.trans hquiet⟩
  change readChain level operands s = _
  simp only [readChain, hread, hchain]

/-- A value ends where no operator comes next. -/
theorem complete_value :
    Complete Value (fun rest => (True ∧ Level.product.EndsBefore rest) ∧
      Level.sum.EndsBefore rest) value := by
  refine Complete.chain (Complete.chain complete_operand moves_operand ?_) moves_product ?_
  · exact fun _ _ _ _ _ => trivial
  · intro t ts op hterm hjoins
    refine ⟨trivial, fun t' ht' op' hterm' => ?_⟩
    obtain rfl := Option.some.inj ht'
    obtain rfl := Terminal.operator.inj (hterm.symm.trans hterm')
    simp only [Level.joins] at hjoins ⊢
    rw [hjoins]
    rfl

end ExprReader

namespace ParseState

open Derived

theorem kind_eq_assign_iff {s : ParseState} :
    s.kind = .assign ↔ ∃ u ts, s.tokens = u :: ts ∧ u.terminal = .assign := by
  rw [kind_of_tokens]
  cases s.tokens with
  | nil => simp
  | cons u ts =>
    obtain ⟨terminal, span⟩ := u
    cases terminal <;> simp [Token.kind, Terminal.kind]

theorem assignment_sound {s : ParseState} (target : Ident) (hs : s.Scanned)
    (hq : Quiet s (s.assignment target).2) :
    ∃ u value us, s.tokens = u :: (us ++ (s.assignment target).2.tokens) ∧
      u.terminal = .assign ∧ Value value us ∧
      (s.assignment target).1 = .complete target value := by
  have hmoves := moves_assigned s
  unfold assignment at hq ⊢
  by_cases hk : s.kind = .assign
  · obtain ⟨u, ts, htokens, hu⟩ := kind_eq_assign_iff.1 hk
    have hassigned : s.assigned = ExprReader.value.read s.advance := by rw [assigned, if_pos hk]
    have hsound := ExprReader.sound_value s.advance hs.advance
    rw [← hassigned] at hsound
    have hadvance : s.advance.tokens = ts := by rw [tokens_advance, htokens]; rfl
    rcases ha : s.assigned with ⟨_ | value, t⟩ <;> rw [ha] at hq hsound hmoves
    · obtain ⟨hqt, -⟩ := Moves.quiet_split hmoves (moves_skip .assignment t) hs hq
      obtain ⟨e, us, he, -⟩ := hsound (by rw [Quiet, rejections_advance hs]; exact hqt)
      simp at he
    · obtain ⟨e, us, he, hvalue, hus⟩ :=
        hsound (by rw [Quiet, rejections_advance hs]; exact hq)
      obtain rfl := Option.some.inj he
      exact ⟨u, value, us, by rw [htokens, ← hadvance, hus], hu, hvalue, rfl⟩
  · have hassigned : s.assigned = (none, s.reject .assign) := by rw [assigned, if_neg hk]
    rw [hassigned] at hq
    exact absurd hq (not_quiet_reject hs (moves_skip .assignment _))

theorem assignment_complete {s : ParseState} {u : Token} {value : Expr} {us rest : List Token}
    (target : Ident) (hs : s.Scanned) (htokens : s.tokens = u :: (us ++ rest))
    (hu : u.terminal = .assign) (hvalue : Value value us)
    (hend : Level.product.EndsBefore rest ∧ Level.sum.EndsBefore rest) :
    ∃ t, s.assignment target = (.complete target value, t) ∧ t.tokens = rest ∧ Quiet s t := by
  have hadvance : s.advance.tokens = us ++ rest := by rw [tokens_advance, htokens]; rfl
  obtain ⟨t, hread, ht, hquiet⟩ := ExprReader.complete_value hs.advance hvalue hadvance
    ⟨⟨trivial, hend.1⟩, hend.2⟩
  refine ⟨t, ?_, ht, hquiet.trans (rejections_advance hs)⟩
  rw [assignment, assigned, if_pos (kind_eq_assign_iff.2 ⟨u, _, htokens, hu⟩), hread]

theorem statements_sound (passed : List Assignment) (s : ParseState) (hs : s.Scanned)
    (hq : Quiet s (s.statements passed).2) :
    ∃ as, (s.statements passed).1 = passed.reverse ++ as ∧ Statements as s.tokens := by
  fun_induction statements passed s with
  | case1 passed s hnil => exact ⟨[], by simp, by rw [tokens, hnil]; exact .nil⟩
  | case2 passed s r rest hahead target htarget result ih =>
    have hmove := moves_assignment target s.advance
    have hmove' : Moves s result.2 := (Moves.advance .refl).trans hmove
    obtain ⟨hquiet, hrest⟩ :=
      Moves.quiet_split hmove' (moves_statements (result.1 :: passed) result.2) hs hq
    obtain ⟨u, value, us, htokens, hu, hvalue, hone⟩ := assignment_sound target hs.advance
      (by rw [Quiet, rejections_advance hs]; exact hquiet)
    obtain ⟨as, has, hstatements⟩ := ih (hmove'.scanned hs) hrest
    refine ⟨result.1 :: as, by rw [has]; simp, ?_⟩
    have hcons : s.tokens = r.token :: s.advance.tokens := by
      rw [tokens_advance, tokens, hahead]; rfl
    have hsplit : s.tokens = (r.token :: u :: us) ++ result.2.tokens := by
      rw [hcons, htokens]; rfl
    rw [hsplit]
    exact .cons ⟨r.token, target, u, value, us, rfl, htarget, hu, hvalue, hone⟩ hstatements
  | case3 passed s r rest hahead htarget ih =>
    exact absurd hq (not_quiet_reject hs ((moves_skip .assignment _).trans (moves_statements _ _)))

end ParseState

namespace Derived

open ParseState

/-- The next statement starts with a name, so nothing is joined to a value before it. -/
theorem Statements.endsBefore {as : List Assignment} {ts : List Token} (h : Statements as ts)
    (level : Level) : level.EndsBefore ts := by
  intro t ht op hterm
  cases h with
  | nil => simp at ht
  | cons h _ =>
    obtain ⟨t', target, u, value, us, rfl, htarget, -⟩ := h
    obtain rfl := Option.some.inj ht
    rw [Token.target?, hterm] at htarget
    simp at htarget

theorem Statements.complete {as : List Assignment} {ts : List Token} (h : Statements as ts)
    {s : ParseState} (hs : s.Scanned) (htokens : s.tokens = ts) (passed : List Assignment) :
    (s.statements passed).1 = passed.reverse ++ as ∧ Quiet s (s.statements passed).2 := by
  induction h generalizing s passed with
  | nil =>
    have hnil : s.ahead = [] := by simpa [tokens] using htokens
    rw [statements_nil hnil]
    exact ⟨by simp, rfl⟩
  | @cons a as us vs h hs' ih =>
    obtain ⟨tok, target, u, value, us, rfl, htarget, hu, hvalue, rfl⟩ := h
    obtain ⟨r, more, hahead, rfl, -⟩ := List.map_eq_cons_iff.1 htokens
    have hadvance : s.advance.tokens = u :: (us ++ vs) := by
      rw [tokens_advance, htokens]; rfl
    obtain ⟨t, hread, ht, hquiet⟩ := assignment_complete target hs.advance hadvance hu hvalue
      ⟨hs'.endsBefore .product, hs'.endsBefore .sum⟩
    have hmove := moves_assignment target s.advance
    rw [hread] at hmove
    rw [statements_target hahead htarget, hread]
    obtain ⟨hrest, hquiet'⟩ := ih (hmove.scanned hs.advance) ht (.complete target value :: passed)
    refine ⟨by rw [hrest]; simp, ?_⟩
    exact hquiet'.trans (hquiet.trans (rejections_advance hs))

theorem Statements.read {as : List Assignment} {ts : List Token} (h : Statements as ts) :
    readStatements ts = as ∧ faults ts = 0 := by
  obtain ⟨hread, hquiet⟩ := h.complete (scanned_ofTokens ts) (tokens_ofTokens ts) []
  refine ⟨hread, ?_⟩
  rw [faults, hquiet]
  rfl

/-- Reading finds all it wants exactly if there is a derivation. -/
theorem faults_eq_zero_iff {ts : List Token} :
    faults ts = 0 ↔ ∃ as, Statements as ts := by
  refine ⟨fun h => ?_, fun ⟨as, h⟩ => h.read.2⟩
  have hquiet : Quiet (ofTokens ts) ((ofTokens ts).statements []).2 := List.length_eq_zero_iff.1 h
  obtain ⟨as, -, has⟩ := statements_sound [] (ofTokens ts) (scanned_ofTokens ts) hquiet
  rw [tokens_ofTokens] at has
  exact ⟨as, has⟩

end Derived

end AssignLang
