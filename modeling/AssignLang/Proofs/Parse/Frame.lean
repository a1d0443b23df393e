import AssignLang.Proofs.Parse.Moves
import AssignLang.Proofs.Relocation

/-! Nothing behind the start of a statement matters to what stands before it: no reader
consumes such a start, and all of them take it for the end of the text. So the readers
do the same to a list of tokens and to the same tokens, moved elsewhere, in front of
further statements. The tree of a text is then a function of its tokens alone, which
splits at every start of a statement. -/

namespace AssignLang

/-- The list is empty or starts a statement. -/
def StartsStatement (ts : List Token) : Prop := ∀ t ∈ ts.head?, t.kind = .leadingIdent

theorem startsStatement_relocate {f : Relocation} {ts : List Token} :
    StartsStatement (ts.map (Token.relocate f)) ↔ StartsStatement ts := by
  cases ts <;> simp [StartsStatement]

namespace ParseState

def tokens (s : ParseState) : List Token := s.ahead.map Reading.token

/-- The state `t` has the tokens of `s`, moved by `f`, and then `rest`; it comes with
`n` more complaints. -/
structure Framed (f : Relocation) (rest : List Token) (n : Nat) (s t : ParseState) : Prop where
  tokens : t.tokens = s.tokens.map (Token.relocate f) ++ rest
  rejections : t.rejections.length = s.rejections.length + n
  scanned : s.Scanned
  scanned' : t.Scanned

theorem tokens_advance (s : ParseState) : s.advance.tokens = s.tokens.tail := by
  simp [tokens]

theorem kind_of_tokens (s : ParseState) :
    s.kind = (s.tokens.head?.map Token.kind).getD .eof := by
  unfold kind tokens
  cases s.ahead <;> rfl

variable {f : Relocation} {rest : List Token} {n : Nat} {s t : ParseState}

namespace Framed

theorem nil (h : Framed f rest n s t) (hs : s.ahead = []) : t.tokens = rest := by
  simpa [ParseState.tokens, hs] using h.tokens

theorem cons (h : Framed f rest n s t) {r : Reading} {more : List Reading}
    (hs : s.ahead = r :: more) :
    ∃ r' more', t.ahead = r' :: more' ∧ r'.token = r.token.relocate f := by
  have htokens := h.tokens
  rw [ParseState.tokens, ParseState.tokens, hs] at htokens
  obtain ⟨r', more', ht, hr', -⟩ := List.map_eq_cons_iff.1 htokens
  exact ⟨r', more', ht, hr'⟩

theorem advance (h : Framed f rest n s t) (hs : s.ahead ≠ []) :
    Framed f rest n s.advance t.advance := by
  refine ⟨?_, ?_, h.scanned.advance, h.scanned'.advance⟩
  · obtain ⟨r, more, hs⟩ := List.exists_cons_of_ne_nil hs
    have htokens := h.tokens
    rw [tokens_advance, tokens_advance, htokens, ParseState.tokens, hs]
    rfl
  · rw [rejections_advance h.scanned, rejections_advance h.scanned', h.rejections]

theorem reject (h : Framed f rest n s t) (wanted : TokenKind) :
    Framed f rest n (s.reject wanted) (t.reject wanted) := by
  refine ⟨h.tokens, ?_, ⟨h.scanned.ahead, h.scanned.closing⟩,
    ⟨h.scanned'.ahead, h.scanned'.closing⟩⟩
  rw [rejections_reject, rejections_reject, List.length_cons, List.length_cons, h.rejections]
  omega

/-- The two states differ in the kind of their tokens only where one is at its end. -/
theorem kind (h : Framed f rest n s t) (hrest : StartsStatement rest) :
    t.kind = s.kind ∨ (s.kind = .eof ∧ t.kind = .leadingIdent) := by
  cases hs : s.ahead with
  | nil =>
    have hsk : s.kind = .eof := by rw [ParseState.kind, hs]
    rw [kind_of_tokens t, h.nil hs]
    cases rest with
    | nil => exact .inl hsk.symm
    | cons u us => exact .inr ⟨hsk, hrest u rfl⟩
  | cons r more =>
    obtain ⟨r', more', ht, hr'⟩ := h.cons hs
    left
    rw [ParseState.kind, ParseState.kind, hs, ht]
    change r'.token.kind = r.token.kind
    rw [hr', Token.kind_relocate]

theorem operator? (h : Framed f rest n s t) (hrest : StartsStatement rest) (level : Level) :
    t.operator? level = s.operator? level := by
  unfold ParseState.operator?
  rcases h.kind hrest with hk | ⟨hs, ht⟩
  · rw [hk]
  · rw [hs, ht]; rfl

theorem stopsAt (h : Framed f rest n s t) (hrest : StartsStatement rest) (level : Level) :
    level.stopsAt t.kind = level.stopsAt s.kind := by
  rcases h.kind hrest with hk | ⟨hs, ht⟩
  · rw [hk]
  · rw [hs, ht]; cases level <;> rfl

theorem operand? (h : Framed f rest n s t) (hrest : StartsStatement rest) :
    t.ahead.head?.bind (·.token.operand?) =
      (s.ahead.head?.bind (·.token.operand?)).map (Expr.relocate f) := by
  cases hs : s.ahead with
  | nil =>
    have ht := h.nil hs
    cases hta : t.ahead with
    | nil => rfl
    | cons r more =>
      rw [ParseState.tokens, hta, List.map_cons] at ht
      have hk := hrest r.token (by rw [← ht]; rfl)
      change r.token.operand? = none
      unfold Token.kind at hk
      unfold Token.operand?
      cases hterm : r.token.terminal <;> simp_all [Terminal.kind]
  | cons r more =>
    obtain ⟨r', more', ht, hr'⟩ := h.cons hs
    rw [ht]
    change r'.token.operand? = r.token.operand?.map _
    rw [hr', Token.operand?_relocate]

theorem skipFrom (h : Framed f rest n s t) (hrest : StartsStatement rest) (level : Level)
    (run : Option Span) :
    (t.skipFrom level (run.map (Span.relocate f))).1 =
        (s.skipFrom level run).1.map (Span.relocate f) ∧
      Framed f rest n (s.skipFrom level run).2
        (t.skipFrom level (run.map (Span.relocate f))).2 := by
  fun_induction ParseState.skipFrom level run s generalizing t with
  | case1 run s hs =>
    have hstop : level.stopsAt t.kind = true := by
      rw [h.stopsAt hrest, ParseState.kind, hs]; cases level <;> rfl
    rw [skipFrom_of_stopsAt hstop]
    exact ⟨rfl, h⟩
  | case2 run s r more hs hr =>
    have hstop : level.stopsAt t.kind = true := by
      rw [h.stopsAt hrest, ParseState.kind, hs]; exact hr
    rw [skipFrom_of_stopsAt hstop]
    exact ⟨rfl, h⟩
  | case3 run s r more hs hr ih =>
    obtain ⟨r', more', ht, hr'⟩ := h.cons hs
    have hgo : level.stopsAt r'.token.kind = false := by
      rw [hr', Token.kind_relocate]; simpa using hr
    rw [skipFrom_cons ht hgo, hr']
    have hspan : some (Span.join (run.map (Span.relocate f)) (r.token.relocate f).span) =
        (some (Span.join run r.token.span)).map (Span.relocate f) := by
      rw [Option.map_some, Span.relocate_join]; rfl
    rw [hspan]
    exact ih (h.advance (by simp [hs]))

theorem skip (h : Framed f rest n s t) (hrest : StartsStatement rest) (level : Level) :
    (t.skip level).1 = (s.skip level).1.map (Span.relocate f) ∧
      Framed f rest n (s.skip level).2 (t.skip level).2 :=
  h.skipFrom hrest level none

theorem operand (h : Framed f rest n s t) (hrest : StartsStatement rest) :
    t.operand.1 = s.operand.1.map (Expr.relocate f) ∧
      Framed f rest n s.operand.2 t.operand.2 := by
  have hop := h.operand? hrest
  cases hs : s.ahead.head?.bind (·.token.operand?) with
  | none =>
    rw [hs] at hop
    rw [operand_of_none hs, operand_of_none hop]
    exact ⟨rfl, h.reject .string⟩
  | some e =>
    rw [hs] at hop
    rw [operand_of_some hs, operand_of_some hop]
    exact ⟨rfl, h.advance (by rintro hnil; simp [hnil] at hs)⟩

end Framed

end ParseState

namespace ExprReader

open ParseState

/-- The reader does the same to both states of a frame. -/
def Frames (f : Relocation) (rest : List Token) (n : Nat) (operands : ExprReader) : Prop :=
  ∀ {s t : ParseState}, Framed f rest n s t →
    (operands.read t).1 = (operands.read s).1.map (Expr.relocate f) ∧
      Framed f rest n (operands.read s).2 (operands.read t).2

variable {f : Relocation} {rest : List Token} {n : Nat} {operands : ExprReader}

theorem Frames.chainFrom (hops : Frames f rest n operands) (hrest : StartsStatement rest)
    (level : Level) (left : Expr) {s t : ParseState} (h : Framed f rest n s t) :
    (chainFrom level operands (left.relocate f) t).1 =
        (chainFrom level operands left s).1.relocate f ∧
      Framed f rest n (chainFrom level operands left s).2
        (chainFrom level operands (left.relocate f) t).2 := by
  fun_induction ExprReader.chainFrom level operands left s generalizing t with
  | case1 left s hop =>
    rw [chainFrom_of_none ((h.operator? hrest level).trans hop)]
    exact ⟨rfl, h⟩
  | case2 left s op hop right s' hr ih =>
    have hread := hops (h.advance (ahead_ne_nil_of_operator? hop))
    rw [hr] at hread
    rw [chainFrom_join ((h.operator? hrest level).trans hop) (Prod.ext hread.1 rfl),
      ← Expr.relocate_binary]
    exact ih hread.2
  | case3 left s op hop s' hr skipped =>
    rename_i ih
    have hread := hops (h.advance (ahead_ne_nil_of_operator? hop))
    rw [hr] at hread
    have hskip := hread.2.skip hrest level
    rw [chainFrom_broken ((h.operator? hrest level).trans hop) (Prod.ext hread.1 rfl)]
    have hbroken : Expr.broken ((left.relocate f).span.extend
          (((operands.read t.advance).2.skip level).1)) op (left.relocate f) =
        (Expr.broken (left.span.extend skipped.1) op left).relocate f := by
      rw [hskip.1, Expr.span_relocate, ← Span.relocate_extend]; rfl
    rw [hbroken]
    exact ih hskip.2

theorem Frames.chain (hops : Frames f rest n operands) (hrest : StartsStatement rest)
    (level : Level) : Frames f rest n (chain level operands) := by
  intro s t h
  have hread := hops h
  change (readChain level operands t).1 = (readChain level operands s).1.map _ ∧
    Framed f rest n (readChain level operands s).2 (readChain level operands t).2
  unfold readChain
  rcases hs : operands.read s with ⟨_ | left, s'⟩ <;>
    rcases ht : operands.read t with ⟨_ | left', t'⟩
  · exact ⟨rfl, by simpa [hs, ht] using hread.2⟩
  · simp [hs, ht] at hread
  · simp [hs, ht] at hread
  · rw [hs, ht] at hread
    obtain rfl : left' = left.relocate f := Option.some.inj hread.1
    have hchain := hops.chainFrom hrest level left hread.2
    exact ⟨congrArg some hchain.1, hchain.2⟩

theorem frames_value (hrest : StartsStatement rest) : Frames f rest n value :=
  Frames.chain (Frames.chain (fun h => h.operand hrest) hrest .product) hrest .sum

end ExprReader

namespace ParseState

variable {f : Relocation} {rest : List Token} {n : Nat} {s t : ParseState}

namespace Framed

theorem assigned (h : Framed f rest n s t) (hrest : StartsStatement rest) :
    t.assigned.1 = s.assigned.1.map (Expr.relocate f) ∧
      Framed f rest n s.assigned.2 t.assigned.2 := by
  unfold ParseState.assigned
  by_cases hs : s.kind = .assign
  · have ht : t.kind = .assign := by
      rcases h.kind hrest with hk | ⟨heof, -⟩
      · rw [hk, hs]
      · rw [hs] at heof; simp at heof
    rw [if_pos hs, if_pos ht]
    refine ExprReader.frames_value hrest (h.advance ?_)
    rintro hnil
    simp [ParseState.kind, hnil] at hs
  · have ht : t.kind ≠ .assign := by
      rcases h.kind hrest with hk | ⟨-, hlead⟩
      · rwa [hk]
      · rw [hlead]; simp
    rw [if_neg hs, if_neg ht]
    exact ⟨rfl, h.reject .assign⟩

theorem assignment (h : Framed f rest n s t) (hrest : StartsStatement rest) (target : Ident) :
    (t.assignment (target.relocate f)).1 = (s.assignment target).1.relocate f ∧
      Framed f rest n (s.assignment target).2 (t.assignment (target.relocate f)).2 := by
  have hread := h.assigned hrest
  unfold ParseState.assignment
  rcases hs : s.assigned with ⟨_ | value, s'⟩ <;> rcases ht : t.assigned with ⟨_ | value', t'⟩
  · rw [hs, ht] at hread
    have hskip := hread.2.skip hrest .assignment
    refine ⟨?_, hskip.2⟩
    simp only [hskip.1, Assignment.relocate_failed]
  · simp [hs, ht] at hread
  · simp [hs, ht] at hread
  · rw [hs, ht] at hread
    obtain rfl : value' = value.relocate f := Option.some.inj hread.1
    exact ⟨(Assignment.relocate_complete f target value).symm, hread.2⟩

/-- Reading on from `t` first reads what `s` has and then goes on with `rest`. -/
theorem statements (h : Framed f rest n s t) (hrest : StartsStatement rest)
    (passed : List Assignment) :
    ∃ u : ParseState, u.tokens = rest ∧ u.Scanned ∧
      u.rejections.length = (s.statements passed).2.rejections.length + n ∧
      t.statements (passed.map (Assignment.relocate f)) =
        u.statements (((s.statements passed).1.map (Assignment.relocate f)).reverse) := by
  fun_induction ParseState.statements passed s generalizing t with
  | case1 passed s hs =>
    refine ⟨t, h.nil hs, h.scanned', h.rejections, ?_⟩
    simp
  | case2 passed s r more hs target htarget result =>
    rename_i ih
    obtain ⟨r', more', ht, hr'⟩ := h.cons hs
    have htarget' : r'.token.target? = some (target.relocate f) := by
      rw [hr', Token.target?_relocate, htarget]; rfl
    have hread := (h.advance (by simp [hs])).assignment hrest target
    rw [statements_target ht htarget', hread.1]
    exact ih hread.2
  | case3 passed s r more hs htarget ih =>
    obtain ⟨r', more', ht, hr'⟩ := h.cons hs
    have htarget' : r'.token.target? = none := by
      rw [hr', Token.target?_relocate, htarget]; rfl
    rw [statements_stray ht htarget']
    exact ih ((h.reject .ident).skip hrest .assignment).2

end Framed

theorem statements_append (before passed : List Assignment) (s : ParseState) :
    s.statements (passed ++ before) =
      (before.reverse ++ (s.statements passed).1, (s.statements passed).2) := by
  fun_induction statements passed s with
  | case1 passed s hs => rw [statements_nil hs, List.reverse_append]
  | case2 passed s r more hs target htarget result ih =>
    rw [statements_target hs htarget, ← List.cons_append]
    exact ih
  | case3 passed s r more hs htarget ih =>
    rw [statements_stray hs htarget]
    exact ih

end ParseState

end AssignLang
