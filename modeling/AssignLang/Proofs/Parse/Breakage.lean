import Mathlib.Data.List.Forall2
import AssignLang.Proofs.Parse.Nesting

/-! Complaints and the nodes that miss a part go together, one by one and in order. Whoever
misses an operand, a value or its assignment sign complains once, at the current token, and
has built nothing yet; the level that recovers builds one node and keeps all it had read.
The node covers that and what recovery skips, which starts with the token complained about,
or is nothing at all if recovery stops right there. -/

namespace AssignLang

theorem Level.stopsAt_eof (level : Level) : level.stopsAt .eof = true := by cases level <;> rfl

/-- A node that misses a part: the level that recovered, what had been read of the node, and
all that it covers. -/
structure Breakage where
  level : Level
  read : Span
  span : Span
deriving DecidableEq, Repr, Inhabited

/-- The operations without a right operand, operands first. -/
def Expr.breakages : Expr → List Breakage
  | .integer .. | .string .. | .reference .. => []
  | .operation _ _ left right => left.breakages ++ right.breakages
  | .broken span op left => left.breakages ++ [⟨op.level, left.span, span⟩]

/-- The assignment itself if it has no value, else the operations of the value without a
right operand. -/
def Assignment.breakages (a : Assignment) : List Breakage :=
  match a.value? with
  | some value => value.breakages
  | none => [⟨.assignment, a.target.span, a.span⟩]

def Cause.isBreaking : Cause → Bool
  | .expected .string _ | .expected .assign _ => true
  | _ => false

/-- The complaint is about the token at which the node broke. If the level does not stop at
such a token, it is the first of those that recovery skipped, and the node covers them. If
the level does, the node covers no more than had been read. -/
structure Explains (tokens : List Token) (d : Diagnostic) (b : Breakage) : Prop where
  skipped : ∀ wanted got, d.cause = .expected wanted got → b.level.stopsAt got = false →
    ∃ before t us rest, tokens = before ++ ((t :: us) ++ rest) ∧ t.kind = got ∧ t.span = d.span ∧
      Recovered.Skipped b.level (t :: us) rest ∧
      b.span = b.read.extend (Recovered.covered (t :: us)) ∧ t.span.Inside b.span
  stopped : ∀ wanted got, d.cause = .expected wanted got → b.level.stopsAt got = true →
    b.span = b.read

theorem Row.inside_extend {lo hi : Nat} {t : Token} {us : List Token} (h : Row lo (t :: us) hi)
    (s : Span) : t.span.Inside (s.extend (Recovered.covered (t :: us))) := by
  have hcover := Span.cover_cons (List.map_cons ▸ h.pairwise_precedes)
  obtain ⟨first, last, hfirst, hlast, hstart, hstop⟩ := h.cover hcover
  obtain rfl := Option.some.inj hfirst
  have ht := h.mem List.mem_cons_self
  have hle : t.span.stop.offset ≤ last.span.stop.offset := by
    rcases List.mem_cons.1 (List.mem_of_getLast? hlast) with rfl | hmem
    · exact Nat.le_refl _
    · have := h.2.2.mem hmem
      omega
  rw [Recovered.covered, List.map_cons, hcover, Span.extend]
  refine ⟨?_, Nat.le_of_lt ht.2.1, ?_⟩
  · rw [Span.offset_start_merge, hstart]
    exact Nat.min_le_right _ _
  · rw [Span.offset_stop_merge, hstop]
    exact Nat.le_trans hle (Nat.le_max_right _ _)

namespace ParseState

def breaking (s : ParseState) : List Diagnostic := s.rejections.filter (·.cause.isBreaking)

/-- The parse is somewhere among the tokens. -/
structure Along (tokens : List Token) (s : ParseState) : Prop where
  scanned : s.Scanned
  suffix : s.tokens <:+ tokens

/-- On the way from `s` to `t` the complaints that something is missing are those that
explain the nodes. -/
def Accounts (tokens : List Token) (s t : ParseState) (bs : List Breakage) : Prop :=
  ∃ ds, t.breaking = ds.reverse ++ s.breaking ∧ List.Forall₂ (Explains tokens) ds bs

variable {tokens : List Token} {s t u : ParseState}

theorem Moves.tokens_suffix (h : Moves s t) : t.tokens <:+ s.tokens := by
  induction h with
  | refl => exact List.suffix_refl _
  | @advance t _ ih => rw [tokens_advance]; exact (List.tail_suffix _).trans ih
  | reject wanted _ ih => exact ih

theorem Along.moves (h : Along tokens s) (hmoves : Moves s t) : Along tokens t :=
  ⟨hmoves.scanned h.scanned, hmoves.tokens_suffix.trans h.suffix⟩

theorem Along.advance (h : Along tokens s) : Along tokens s.advance := h.moves (.advance .refl)

theorem breaking_advance (h : s.Scanned) : s.advance.breaking = s.breaking := by
  rw [breaking, rejections_advance h, ← breaking]

theorem breaking_skip (h : s.Scanned) (level : Level) : (s.skip level).2.breaking = s.breaking := by
  suffices hrun : ∀ run, (s.skipFrom level run).2.breaking = s.breaking from hrun none
  intro run
  fun_induction skipFrom level run s with
  | case1 | case2 => rfl
  | case3 run s r rest hs hstop ih => rw [ih h.advance, breaking_advance h]

theorem breaking_reject {wanted : TokenKind} (h : wanted = .string ∨ wanted = .assign)
    (s : ParseState) :
    (s.reject wanted).breaking = ⟨s.span, .expected wanted s.kind⟩ :: s.breaking := by
  rw [breaking, rejections_reject, breaking]
  rcases h with rfl | rfl <;> rfl

namespace Accounts

theorem of_eq (h : t.breaking = s.breaking) : Accounts tokens s t [] := ⟨[], h, .nil⟩

theorem trans {bs cs : List Breakage} (h : Accounts tokens s t bs) (h' : Accounts tokens t u cs) :
    Accounts tokens s u (bs ++ cs) := by
  obtain ⟨ds, hds, hbs⟩ := h
  obtain ⟨es, hes, hcs⟩ := h'
  exact ⟨ds ++ es, by rw [hes, hds, List.reverse_append, List.append_assoc],
    List.rel_append hbs hcs⟩

theorem advance {bs : List Breakage} (h : Accounts tokens s.advance t bs) (hs : s.Scanned) :
    Accounts tokens s t bs := (of_eq (breaking_advance hs)).trans h

end Accounts

theorem exists_token_of_kind {kind : TokenKind} (h : s.kind = kind) (hne : kind ≠ .eof) :
    ∃ t ts, s.tokens = t :: ts ∧ t.kind = kind ∧ s.span = t.span := by
  cases hs : s.ahead with
  | nil =>
    rw [ParseState.kind, hs] at h
    exact absurd h.symm hne
  | cons r rest =>
    rw [ParseState.kind, hs] at h
    exact ⟨r.token, rest.map Reading.token, by rw [tokens, hs]; rfl, h, by rw [span, hs]⟩

theorem explains_skip {lo hi : Nat} (hs : Along tokens s) (hrow : Row lo tokens hi) (level : Level)
    (wanted : TokenKind) (read : Span) :
    Explains tokens ⟨s.span, .expected wanted s.kind⟩
      ⟨level, read, read.extend ((s.reject wanted).skip level).1⟩ := by
  obtain ⟨us, hus, hskip, hcovered⟩ := (s.reject wanted).skip_eq level
  rw [tokens_reject] at hus
  rw [hcovered]
  constructor
  · rintro wanted' got hcause hgo
    obtain ⟨-, rfl⟩ := Cause.expected.inj hcause
    obtain ⟨t, ts, hts, hkind, hspan⟩ := exists_token_of_kind (s := s) rfl (by
      rintro heof
      rw [heof, Level.stopsAt_eof] at hgo
      simp at hgo)
    obtain ⟨before, hbefore⟩ := hs.suffix
    cases us with
    | nil =>
      -- a token at which recovery goes on is skipped
      rw [List.nil_append, hts] at hus
      have hstop := hskip.stop t (by rw [← hus]; rfl)
      rw [hkind] at hstop
      exact absurd (hstop.symm.trans hgo) (by simp)
    | cons t' us =>
      obtain ⟨rfl, -⟩ := List.cons.inj (hts.symm.trans hus)
      rw [← hbefore, hus] at hrow
      obtain ⟨mid, -, hrest⟩ := Row.append_iff.1 hrow
      refine ⟨before, t, us, _, by rw [← hbefore, hus], hkind, hspan.symm, hskip, rfl, ?_⟩
      exact hrest.left.inside_extend read
  · rintro wanted' got hcause hstop
    obtain ⟨-, rfl⟩ := Cause.expected.inj hcause
    cases us with
    | nil => rfl
    | cons t us =>
      have hpass := hskip.passed t List.mem_cons_self
      rw [kind_of_tokens, hus] at hstop
      exact absurd (hstop.symm.trans hpass) (by simp)

theorem accounts_skip {lo hi : Nat} (hs : Along tokens s) (hrow : Row lo tokens hi) (level : Level)
    {wanted : TokenKind} (hwanted : wanted = .string ∨ wanted = .assign) (read : Span) :
    Accounts tokens s ((s.reject wanted).skip level).2
      [⟨level, read, read.extend ((s.reject wanted).skip level).1⟩] := by
  refine ⟨[⟨s.span, .expected wanted s.kind⟩], ?_,
    .cons (explains_skip hs hrow level wanted read) .nil⟩
  rw [breaking_skip (hs.moves (.reject wanted .refl)).scanned, breaking_reject hwanted]
  rfl

end ParseState

namespace ExprReader

open ParseState

/-- The reader complains once if it reads nothing, and otherwise as the nodes that it
builds explain. -/
structure Accountable (tokens : List Token) (operands : ExprReader) : Prop where
  moves : ∀ s, Moves s (operands.read s).2
  fails : ∀ {s t : ParseState}, operands.read s = (none, t) → t = s.reject .string
  accounts : ∀ {s t : ParseState} {e : Expr}, Along tokens s → operands.read s = (some e, t) →
    Accounts tokens s t e.breakages

theorem accountable_operand (tokens : List Token) : Accountable tokens operand where
  moves := moves_operand
  fails := by
    intro s t hread
    change s.operand = (none, t) at hread
    rcases s.operand_eq with ⟨-, -, e, -, -, heq⟩ | ⟨-, heq⟩
    · rw [heq] at hread
      simp at hread
    · rw [heq] at hread
      exact (Prod.mk.inj hread).2.symm
  accounts := by
    intro s t e hs hread
    change s.operand = (some e, t) at hread
    rcases s.operand_eq with ⟨tok, ts, e', -, he, heq⟩ | ⟨-, heq⟩
    · rw [heq] at hread
      obtain ⟨hsome, rfl⟩ := Prod.mk.inj hread
      obtain rfl := Option.some.inj hsome
      have hnil : e'.breakages = [] := by
        obtain ⟨terminal, span⟩ := tok
        cases terminal <;> simp only [Token.operand?, Option.some.injEq, reduceCtorEq] at he <;>
          subst he <;> rfl
      rw [hnil]
      exact .of_eq (breaking_advance hs.scanned)
    · rw [heq] at hread
      simp at hread

variable {tokens : List Token} {operands : ExprReader} {lo hi : Nat}

theorem Accountable.chainFrom (h : Accountable tokens operands) (hrow : Row lo tokens hi)
    (level : Level) (left : Expr) {s : ParseState} (hs : Along tokens s) :
    ∃ bs, (chainFrom level operands left s).1.breakages = left.breakages ++ bs ∧
      Accounts tokens s (chainFrom level operands left s).2 bs := by
  fun_induction ExprReader.chainFrom level operands left s with
  | case1 left s hop => exact ⟨[], (List.append_nil _).symm, .of_eq rfl⟩
  | case2 left s op hop right t hr ih =>
    have hmoves := h.moves s.advance
    rw [hr] at hmoves
    obtain ⟨bs, hbs, haccounts⟩ := ih (hs.advance.moves hmoves)
    refine ⟨right.breakages ++ bs, ?_, ?_⟩
    · rw [hbs, Expr.binary, Expr.breakages, List.append_assoc]
    · exact ((h.accounts hs.advance hr).advance hs.scanned).trans haccounts
  | case3 left s op hop t hr skipped ih =>
    obtain rfl := h.fails hr
    have hmoves : Moves s.advance skipped.2 := (Moves.reject _ .refl).trans (moves_skip level _)
    obtain ⟨bs, hbs, haccounts⟩ := ih (hs.advance.moves hmoves)
    obtain ⟨-, -, -, -, hjoins⟩ := operator?_eq_some_iff.1 hop
    have hskip := accounts_skip hs.advance hrow level (.inl rfl) left.span
    refine ⟨_ :: bs, ?_, (hskip.advance hs.scanned).trans haccounts⟩
    rw [hbs, Expr.breakages, Level.eq_of_joins hjoins, List.append_assoc]
    rfl

theorem Accountable.chain (h : Accountable tokens operands) (hrow : Row lo tokens hi)
    (level : Level) : Accountable tokens (chain level operands) where
  moves := moves_chain level h.moves
  fails := by
    intro s t hread
    change readChain level operands s = (none, t) at hread
    unfold readChain at hread
    rcases hs : operands.read s with ⟨_ | left, t'⟩
    · rw [hs] at hread
      rw [← (Prod.mk.inj hread).2]
      exact h.fails hs
    · rw [hs] at hread
      simp at hread
  accounts := by
    intro s t e hs hread
    change readChain level operands s = (some e, t) at hread
    unfold readChain at hread
    rcases hr : operands.read s with ⟨_ | left, t'⟩
    · rw [hr] at hread
      simp at hread
    · rw [hr] at hread
      obtain ⟨hsome, rfl⟩ := Prod.mk.inj hread
      obtain rfl := Option.some.inj hsome
      have hmoves := h.moves s
      rw [hr] at hmoves
      obtain ⟨bs, hbs, haccounts⟩ := h.chainFrom hrow level left (hs.moves hmoves)
      rw [hbs]
      exact (h.accounts hs hr).trans haccounts

theorem accountable_value (hrow : Row lo tokens hi) : Accountable tokens value :=
  ((accountable_operand tokens).chain hrow .product).chain hrow .sum

end ExprReader

namespace ParseState

variable {tokens : List Token} {s : ParseState} {lo hi : Nat}

theorem assigned_of_none (h : s.assigned.1 = none) :
    s.assigned.2 = s.reject .assign ∨ s.assigned.2 = s.advance.reject .string := by
  unfold assigned at h ⊢
  split at h
  · rename_i hkind
    rw [if_pos hkind]
    have hrow : Row 0 [] 0 := Nat.le_refl 0
    exact .inr ((ExprReader.accountable_value hrow).fails (Prod.ext h rfl))
  · rename_i hkind
    rw [if_neg hkind]
    exact .inl rfl

theorem accounts_assignment (hs : Along tokens s) (hrow : Row lo tokens hi) (target : Ident) :
    Accounts tokens s (s.assignment target).2 (s.assignment target).1.breakages := by
  cases hvalue : s.assigned.1 with
  | none =>
    rw [assignment_of_none hvalue]
    rcases assigned_of_none hvalue with heq | heq
    · rw [heq]
      exact accounts_skip hs hrow .assignment (.inr rfl) target.span
    · rw [heq]
      exact (accounts_skip hs.advance hrow .assignment (.inl rfl) target.span).advance hs.scanned
  | some value =>
    rw [assignment_of_some (Prod.ext hvalue rfl)]
    unfold assigned at hvalue ⊢
    split at hvalue
    · rename_i hkind
      rw [if_pos hkind]
      have hread := (ExprReader.accountable_value hrow).accounts hs.advance (Prod.ext hvalue rfl)
      exact hread.advance hs.scanned
    · simp at hvalue

theorem breaking_stray (h : s.Scanned) :
    ((s.reject .ident).skip .assignment).2.breaking = s.breaking := by
  have hreject : (s.reject .ident).Scanned := Moves.scanned (.reject .ident .refl) h
  rw [breaking_skip hreject, breaking, rejections_reject]
  rfl

theorem accounts_statements (hs : Along tokens s) (hrow : Row lo tokens hi)
    (passed : List Assignment) :
    ∃ as, (s.statements passed).1 = passed.reverse ++ as ∧
      Accounts tokens s (s.statements passed).2 (as.flatMap Assignment.breakages) := by
  fun_induction ParseState.statements passed s with
  | case1 passed s hahead => exact ⟨[], (List.append_nil _).symm, .of_eq rfl⟩
  | case2 passed s r rest hahead target htarget result ih =>
    have hmoves : Moves s.advance result.2 := moves_assignment target s.advance
    obtain ⟨as, has, haccounts⟩ := ih (hs.advance.moves hmoves)
    refine ⟨result.1 :: as, by rw [has]; simp, ?_⟩
    rw [List.flatMap_cons]
    exact ((accounts_assignment hs.advance hrow target).advance hs.scanned).trans haccounts
  | case3 passed s r rest hahead htarget ih =>
    have hmoves : Moves s ((s.reject .ident).skip .assignment).2 :=
      (Moves.reject _ .refl).trans (moves_skip .assignment _)
    obtain ⟨as, has, haccounts⟩ := ih (hs.moves hmoves)
    exact ⟨as, has, (Accounts.of_eq (breaking_stray hs.scanned)).trans haccounts⟩

end ParseState

theorem Cause.isExpectation_of_isBreaking {cause : Cause} (h : cause.isBreaking = true) :
    cause.isExpectation = true := by
  cases cause <;> simp_all [isBreaking, isExpectation]

/-- The complaints that something is missing are, one by one and in order, about the nodes
that miss something. -/
theorem complaints_match_breakages (text : Text) :
    List.Forall₂ (Explains (TokenStream.ofText text).tokens)
      ((File.parse text).reports.filter (·.cause.isBreaking))
      ((File.parse text).file.assignments.flatMap Assignment.breakages) := by
  have hs : ParseState.Along (TokenStream.ofText text).tokens (.ofStream (.ofText text)) :=
    ⟨ParseState.scanned_ofText text, [], ParseState.tokens_ofStream _⟩
  obtain ⟨as, has, ds, hds, hmatch⟩ :=
    ParseState.accounts_statements hs (TokenStream.row text) []
  have hnone : (ParseState.ofStream (.ofText text)).breaking = [] := by
    rw [ParseState.breaking, ParseState.rejections_ofText]
    rfl
  have hreports : (File.parse text).reports.filter (·.cause.isBreaking) = ds := by
    rw [hnone, List.append_nil, ParseState.breaking, ParseState.rejections,
      List.filter_filter] at hds
    rw [File.parse, List.filter_reverse, ← List.reverse_reverse ds, ← hds]
    congr 1
    refine List.filter_congr fun d _ => ?_
    cases hbreaking : d.cause.isBreaking with
    | false => rfl
    | true => rw [Cause.isExpectation_of_isBreaking hbreaking]; rfl
  rw [hreports, show (File.parse text).file.assignments = as from has]
  exact hmatch

-- the product stops at the `+`, and the sum skips from the second `*` on
example : (File.parse "a := 1 * + 2 - * 3".toList).file.assignments.flatMap
    Assignment.breakages = [⟨.product, ⟨⟨5, 0, 5⟩, ⟨6, 0, 6⟩⟩, ⟨⟨5, 0, 5⟩, ⟨6, 0, 6⟩⟩⟩,
      ⟨.sum, ⟨⟨5, 0, 5⟩, ⟨12, 0, 12⟩⟩, ⟨⟨5, 0, 5⟩, ⟨18, 0, 18⟩⟩⟩] := by decide +kernel

end AssignLang
