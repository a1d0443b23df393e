import AssignLang.Proofs.Positions

/-! The reports of a parse come in the order of the text, and no token is complained about
twice. What the scanner reports on a token starts between the token before and the token
itself, and a complaint is about the current token. After a complaint the token is skipped,
or it is one at which the level goes on: the level consumes it as its operator, or leaves it
to the level around, and the start of a statement to the next statement. So a reader hands
on a token that has not been complained about, or one that needs no reader. -/

namespace AssignLang

def Diagnostic.start (d : Diagnostic) : Nat := d.span.start.offset

/-- Reports in the order of the text, which start from `lo` on and up to `hi`. -/
structure Between (lo : Nat) (reports : List Diagnostic) (hi : Nat) : Prop where
  order : reports.Pairwise fun d e => d.start ≤ e.start
  bounds : ∀ d ∈ reports, lo ≤ d.start ∧ d.start ≤ hi

/-- Readings and closing reports in the order of the text, from `lo` on and up to `hi`. What
is reported on a token does not start behind it. -/
def Ascends : Nat → List Reading → List Diagnostic → Nat → Prop
  | lo, [], closing, hi => lo ≤ hi ∧ Between lo closing hi
  | lo, r :: rest, closing, hi =>
    lo ≤ r.token.span.start.offset ∧ Between lo r.reports r.token.span.start.offset ∧
      r.token.span.start.offset < r.token.span.stop.offset ∧
      Ascends r.token.span.stop.offset rest closing hi

theorem Position.Within.bounds {p q : Position} {text : Text} (h : p.Within text q) :
    p.offset ≤ q.offset ∧ q.offset ≤ (p.after text).offset := by
  obtain ⟨before, behind, rfl, rfl⟩ := h
  simp only [Position.after_append, Position.offset_after]
  omega

theorem Filler.between_reports (p : Position) (fillers : List Filler) :
    Between p.offset (reports p fillers) (p.after (text fillers)).offset := by
  refine ⟨?_, fun d hd => (within_of_mem_reports d hd).start.bounds⟩
  rw [reports]
  split
  · exact List.Pairwise.nil
  · exact List.pairwise_singleton _ _

theorem Token.start_of_mem_openReports {t : Token} {spelling : Text} :
    ∀ d ∈ t.openReports spelling, d.start = t.span.start.offset := by
  intro d hd
  by_cases hopen : t.IsOpen spelling
  · rw [hopen.openReports_eq] at hd
    rw [List.mem_singleton.1 hd]
    rfl
  · rw [openReports_eq_nil hopen] at hd
    simp at hd

theorem Between.append {lo hi : Nat} {reports more : List Diagnostic} (h : Between lo reports hi)
    (hle : lo ≤ hi) (hmore : ∀ d ∈ more, d.start = hi) : Between lo (reports ++ more) hi := by
  refine ⟨List.pairwise_append.2 ⟨h.order, ?_, fun d hd e he => ?_⟩, fun d hd => ?_⟩
  · refine List.pairwise_of_forall_mem_list fun d hd e he => ?_
    rw [hmore d hd, hmore e he]
  · rw [hmore e he]
    exact (h.bounds d hd).2
  · rcases List.mem_append.1 hd with hd | hd
    · exact h.bounds d hd
    · rw [hmore d hd]
      exact ⟨hle, Nat.le_refl hi⟩

theorem Tiled.ascends {p : Position} {text : Text} {readings : List Reading}
    {closing : List Diagnostic} (h : Tiled p text readings closing) :
    Ascends p.offset readings closing (p.after text).offset := by
  induction h with
  | @finish p gap hgap =>
    exact ⟨by rw [Position.offset_after]; omega, Filler.between_reports p gap⟩
  | @token p gap t spelling rest readings closing hgap hspan hspelled hmore ih =>
    have hpos : 0 < spelling.size :=
      Nat.pos_of_ne_zero fun h => hspelled.ne_nil (Text.size_eq_zero.1 h)
    have hstart : t.span.start = p.after (Filler.text gap) := by rw [hspan]
    have hstop : t.span.stop = (p.after (Filler.text gap)).after spelling := by rw [hspan]
    have hle : p.offset ≤ t.span.start.offset := by rw [hstart, Position.offset_after]; omega
    have hgap' := Filler.between_reports p gap
    rw [← hstart] at hgap'
    rw [Position.after_append, Position.after_append, ← hstop]
    refine ⟨hle, hgap'.append hle Token.start_of_mem_openReports, ?_, ih⟩
    change t.span.start.offset < t.span.stop.offset
    rw [hstop, hstart, Position.offset_after _ spelling]
    omega

namespace ParseState

/-- The reports so far come in the order of the text and do not start behind the current
token, complaints come in strict order, and what is to come starts behind the current token. -/
structure Orderly (s : ParseState) : Prop where
  scanned : s.Scanned
  log : s.log.Pairwise fun d e => e.start ≤ d.start
  reached : ∀ d ∈ s.log, d.start ≤ s.span.start.offset
  rejections : s.rejections.Pairwise fun d e => e.start < d.start
  ahead : ∀ r rest, s.ahead = r :: rest →
    r.token.span.start.offset < r.token.span.stop.offset ∧
      Ascends r.token.span.stop.offset rest s.closing s.finish.offset

def Fresh (s : ParseState) : Prop := ∀ d ∈ s.rejections, d.start < s.span.start.offset

/-- The current token has not been complained about, or recovery at the level stops there. -/
def Settled (level : Level) (s : ParseState) : Prop := s.Fresh ∨ level.stopsAt s.kind = true

variable {s t : ParseState} {level : Level}

theorem span_arrive (s : ParseState) : s.arrive.span = s.span := by
  unfold arrive
  split <;> simp_all [span]

theorem closing_arrive (s : ParseState) : s.arrive.closing = s.closing := by
  unfold arrive
  split <;> rfl

theorem mem_log_of_mem_rejections {d : Diagnostic} (h : d ∈ s.rejections) : d ∈ s.log :=
  (List.mem_filter.1 h).1

/-- Reports on the current token are put behind reports that start before it. -/
theorem pairwise_log {lo hi : Nat} {log reports : List Diagnostic} (h : Between lo reports hi)
    (hlog : log.Pairwise fun d e => e.start ≤ d.start) (hlo : ∀ d ∈ log, d.start < lo) :
    (reports.reverse ++ log).Pairwise fun d e => e.start ≤ d.start := by
  refine List.pairwise_append.2 ⟨List.pairwise_reverse.2 h.order, hlog, fun d hd e he => ?_⟩
  have hd := (h.bounds d (List.mem_reverse.1 hd)).1
  have he := hlo e he
  omega

theorem reached_log {lo hi : Nat} {log reports : List Diagnostic} (h : Between lo reports hi)
    (hlo : ∀ d ∈ log, d.start < lo) (hle : lo ≤ hi) :
    ∀ d ∈ reports.reverse ++ log, d.start ≤ hi := by
  intro d hd
  rcases List.mem_append.1 hd with hd | hd
  · exact (h.bounds d (List.mem_reverse.1 hd)).2
  · have := hlo d hd
    omega

theorem orderly_arrive {lo : Nat} (hscanned : s.Scanned)
    (hlog : s.log.Pairwise fun d e => e.start ≤ d.start) (hlo : ∀ d ∈ s.log, d.start < lo)
    (hrejections : s.rejections.Pairwise fun d e => e.start < d.start)
    (hahead : Ascends lo s.ahead s.closing s.finish.offset) :
    s.arrive.Orderly ∧ s.arrive.Fresh := by
  have hspan : lo ≤ s.span.start.offset ∧
      s.arrive.log.Pairwise (fun d e => e.start ≤ d.start) ∧
      ∀ d ∈ s.arrive.log, d.start ≤ s.span.start.offset := by
    unfold arrive span
    split
    · rename_i hs
      rw [hs] at hahead
      obtain ⟨hle, hbetween⟩ := hahead
      exact ⟨hle, pairwise_log hbetween hlog hlo, reached_log hbetween hlo hle⟩
    · rename_i r rest hs
      rw [hs] at hahead
      obtain ⟨hle, hbetween, -⟩ := hahead
      exact ⟨hle, pairwise_log hbetween hlog hlo, reached_log hbetween hlo hle⟩
  obtain ⟨hle, hpairwise, hreached⟩ := hspan
  refine ⟨⟨hscanned.arrive, hpairwise, ?_, ?_, fun r rest hs => ?_⟩, fun d hd => ?_⟩
  · rwa [span_arrive]
  · rwa [rejections_arrive hscanned]
  · rw [ahead_arrive] at hs
    rw [hs] at hahead
    rw [closing_arrive, finish_arrive]
    exact hahead.2.2
  · rw [rejections_arrive hscanned] at hd
    have := hlo d (mem_log_of_mem_rejections hd)
    rw [span_arrive]
    omega

theorem Orderly.advance_cons (h : s.Orderly) {r : Reading} {rest : List Reading}
    (hs : s.ahead = r :: rest) : s.advance.Orderly ∧ s.advance.Fresh := by
  obtain ⟨hlt, hahead⟩ := h.ahead r rest hs
  have hadvance : s.advance = { s with ahead := rest }.arrive := by
    rw [advance, hs]
  have hspan : s.span = r.token.span := by rw [span, hs]
  rw [hadvance]
  refine orderly_arrive (h.scanned.tail hs) h.log (fun d hd => ?_) h.rejections hahead
  have := h.reached d hd
  rw [hspan] at this
  omega

theorem Orderly.advance (h : s.Orderly) : s.advance.Orderly := by
  cases hs : s.ahead with
  | nil => rwa [ParseState.advance, hs]
  | cons r rest => exact (h.advance_cons hs).1

theorem Orderly.fresh_advance (h : s.Orderly) (hs : s.ahead ≠ []) : s.advance.Fresh := by
  obtain ⟨r, rest, hs⟩ := List.exists_cons_of_ne_nil hs
  exact (h.advance_cons hs).2

theorem Orderly.reject (h : s.Orderly) (hfresh : s.Fresh) (wanted : TokenKind) :
    (s.reject wanted).Orderly := by
  refine ⟨⟨h.scanned.ahead, h.scanned.closing⟩, List.pairwise_cons.2 ⟨h.reached, h.log⟩,
    List.forall_mem_cons.2 ⟨Nat.le_refl _, h.reached⟩, ?_, h.ahead⟩
  rw [rejections_reject]
  exact List.pairwise_cons.2 ⟨hfresh, h.rejections⟩

theorem Orderly.skipFrom (h : s.Orderly) (level : Level) (run : Option Span) :
    (s.skipFrom level run).2.Orderly ∧ level.stopsAt (s.skipFrom level run).2.kind = true := by
  fun_induction ParseState.skipFrom level run s with
  | case1 run s hs =>
    refine ⟨h, ?_⟩
    rw [kind, hs]
    cases level <;> rfl
  | case2 run s r rest hs hstop =>
    refine ⟨h, ?_⟩
    rw [kind, hs]
    exact hstop
  | case3 run s r rest hs hstop ih => exact ih h.advance

theorem Orderly.skip (h : s.Orderly) (level : Level) :
    (s.skip level).2.Orderly ∧ (s.skip level).2.Settled level :=
  ⟨(h.skipFrom level none).1, .inr (h.skipFrom level none).2⟩

end ParseState

/-- The level around. -/
def Level.outer : Level → Level
  | .product => .sum
  | .sum | .assignment => .assignment

/-- A stop of the level that it does not consume is a stop of the level around. -/
theorem Level.stopsAt_outer {level : Level} {kind : TokenKind} (h : level.stopsAt kind = true)
    (hop : kind.operator?.filter level.joins = none) : level.outer.stopsAt kind = true := by
  cases kind with
  | operator op =>
    cases level <;> cases op <;>
      simp_all [stopsAt, joins, outer, TokenKind.operator?, Operator.isAdditive]
  | _ => cases level <;> simp_all [stopsAt]

namespace ExprReader

open ParseState

/-- Before a token that has not been complained about, the reader keeps the order, and what
it reads leaves a token that has not been either or at which the level goes on. -/
def Settles (level : Level) (operands : ExprReader) : Prop :=
  ∀ s : ParseState, s.Orderly → s.Fresh → (operands.read s).2.Orderly ∧
    ((operands.read s).1.isSome = true → (operands.read s).2.Settled level)

theorem settles_operand (level : Level) : Settles level operand := by
  intro s h hfresh
  change s.operand.2.Orderly ∧ (s.operand.1.isSome = true → s.operand.2.Settled level)
  cases hs : s.ahead.head?.bind (·.token.operand?) with
  | none =>
    rw [operand_of_none hs]
    exact ⟨h.reject hfresh .string, fun hsome => by simp at hsome⟩
  | some e =>
    rw [operand_of_some hs]
    refine ⟨h.advance, fun _ => .inl (h.fresh_advance ?_)⟩
    rintro hnil
    simp [hnil] at hs

variable {level : Level} {operands : ExprReader}

theorem Settles.chainFrom (hops : Settles level operands) (left : Expr) {s : ParseState}
    (h : s.Orderly) (hsettled : s.Settled level) :
    (chainFrom level operands left s).2.Orderly ∧
      (chainFrom level operands left s).2.Settled level.outer := by
  fun_induction ExprReader.chainFrom level operands left s with
  | case1 left s hop =>
    rcases hsettled with hfresh | hstop
    · exact ⟨h, .inl hfresh⟩
    · exact ⟨h, .inr (Level.stopsAt_outer hstop hop)⟩
  | case2 left s op hop right t hr ih =>
    have hread := hops s.advance h.advance (h.fresh_advance (ahead_ne_nil_of_operator? hop))
    rw [hr] at hread
    exact ih hread.1 (hread.2 rfl)
  | case3 left s op hop t hr skipped ih =>
    have hread := hops s.advance h.advance (h.fresh_advance (ahead_ne_nil_of_operator? hop))
    rw [hr] at hread
    exact ih (hread.1.skip level).1 (hread.1.skip level).2

theorem Settles.chain (hops : Settles level operands) :
    Settles level.outer (chain level operands) := by
  intro s h hfresh
  have hread := hops s h hfresh
  change (readChain level operands s).2.Orderly ∧
    ((readChain level operands s).1.isSome = true → (readChain level operands s).2.Settled _)
  unfold readChain
  rcases hs : operands.read s with ⟨_ | left, t⟩
  · rw [hs] at hread
    exact ⟨hread.1, fun hsome => absurd hsome (by simp)⟩
  · rw [hs] at hread
    have hchain := hops.chainFrom left hread.1 (hread.2 rfl)
    exact ⟨hchain.1, fun _ => hchain.2⟩

theorem settles_value : Settles .assignment value := by
  have hproduct : Settles Level.product.outer product := (settles_operand .product).chain
  exact hproduct.chain

end ExprReader

namespace ParseState

variable {s : ParseState}

theorem Orderly.assigned (h : s.Orderly) (hfresh : s.Fresh) : s.assigned.2.Orderly ∧
    (s.assigned.1.isSome = true → s.assigned.2.Settled .assignment) := by
  unfold ParseState.assigned
  split
  · rename_i hkind
    refine ExprReader.settles_value s.advance h.advance (h.fresh_advance ?_)
    rintro hnil
    simp [kind, hnil] at hkind
  · exact ⟨h.reject hfresh .assign, fun hsome => by simp at hsome⟩

theorem Orderly.assignment (h : s.Orderly) (hfresh : s.Fresh) (target : Ident) :
    (s.assignment target).2.Orderly ∧ (s.assignment target).2.Settled .assignment := by
  have hread := h.assigned hfresh
  unfold ParseState.assignment
  rcases hs : s.assigned with ⟨_ | value, t⟩
  · rw [hs] at hread
    exact hread.1.skip .assignment
  · rw [hs] at hread
    exact ⟨hread.1, hread.2 rfl⟩

/-- A statement starts with a name, which is consumed, or with a token at which recovery
does not stop: such a token has not been complained about. -/
theorem Orderly.statements (h : s.Orderly) (hsettled : s.Settled .assignment)
    (passed : List Assignment) : (s.statements passed).2.Orderly := by
  fun_induction ParseState.statements passed s with
  | case1 passed s hs => exact h
  | case2 passed s r rest hs target htarget result ih =>
    have hread := h.advance.assignment (h.fresh_advance (by simp [hs])) target
    exact ih hread.1 hread.2
  | case3 passed s r rest hs htarget ih =>
    have hkind : s.kind = r.token.kind := by rw [kind, hs]
    have hfresh : s.Fresh := by
      rcases hsettled with hfresh | hstop
      · exact hfresh
      · rw [hkind, Token.stopsAt_of_target?_eq_none htarget] at hstop
        simp at hstop
    have hskip := (h.reject hfresh .ident).skip .assignment
    exact ih hskip.1 hskip.2

/-- The tokens ahead, each as its kind and its span, and the end of the text as the last. -/
def marks (s : ParseState) : List (TokenKind × Span) :=
  s.ahead.map (fun r => (r.token.kind, r.token.span)) ++ [(.eof, .empty s.finish)]

theorem current_mem_marks (s : ParseState) : (s.kind, s.span) ∈ s.marks := by
  unfold kind span marks
  cases s.ahead with
  | nil => exact List.mem_cons_self
  | cons r rest => exact List.mem_cons_self

theorem marks_advance (s : ParseState) : s.advance.marks ⊆ s.marks := by
  intro mark hmark
  cases hs : s.ahead with
  | nil => rwa [advance, hs] at hmark
  | cons r rest =>
    rw [advance, hs] at hmark
    simp only [marks, ahead_arrive, finish_arrive] at hmark
    rw [marks, hs]
    exact List.mem_cons_of_mem _ hmark

theorem Moves.marks_subset {t : ParseState} (h : Moves s t) : t.marks ⊆ s.marks := by
  induction h with
  | refl => exact fun _ h => h
  | advance _ ih => exact fun _ h => ih (marks_advance _ h)
  | reject wanted _ ih => exact ih

theorem Moves.rejections_marks {t : ParseState} (h : Moves s t) (hs : s.Scanned)
    (hnone : s.rejections = []) :
    ∀ d ∈ t.rejections, ∃ wanted, ∃ mark ∈ s.marks, d = ⟨mark.2, .expected wanted mark.1⟩ := by
  induction h with
  | refl => simp [hnone]
  | advance h ih => rwa [rejections_advance (h.scanned hs)]
  | @reject t wanted h ih =>
    rw [rejections_reject]
    refine List.forall_mem_cons.2 ⟨?_, ih⟩
    exact ⟨wanted, _, h.marks_subset t.current_mem_marks, rfl⟩

theorem orderly_ofText (text : Text) :
    (ofStream (.ofText text)).Orderly ∧ (ofStream (.ofText text)).Fresh := by
  have hscan := TokenStream.lexical_of_collect [] { rest := text } (by simp)
  have hascends := (TokenStream.tiled text).ascends
  refine @orderly_arrive _ 0 ⟨hscan.1, hscan.2⟩ List.Pairwise.nil (by simp)
    List.Pairwise.nil ?_
  change Ascends 0 _ _ (TokenStream.ofText text).finish.offset
  rw [TokenStream.finish_ofText]
  exact hascends

end ParseState

/-- The tokens of a scan, each as its kind and its span, and the end of the text as the
last. -/
def TokenStream.marks (s : TokenStream) : List (TokenKind × Span) :=
  s.tokens.map (fun t => (t.kind, t.span)) ++ [(.eof, .empty s.finish)]

theorem ParseState.marks_ofStream (stream : TokenStream) :
    (ofStream stream).marks = stream.marks := by
  simp only [marks, ofStream, ahead_arrive, finish_arrive, TokenStream.marks, TokenStream.tokens,
    List.map_map]
  rfl

/-- Reports come in the order of the text, no token is complained about twice, and every
complaint is about a token and names it. -/
theorem reports_in_order (text : Text) :
    (File.parse text).reports.Pairwise (fun d e => d.span.start.offset ≤ e.span.start.offset) ∧
      ((File.parse text).reports.filter (·.cause.isExpectation)).Pairwise
        (fun d e => d.span.start.offset < e.span.start.offset) ∧
      ∀ d ∈ (File.parse text).reports, d.cause.isExpectation = true →
        ∃ wanted, ∃ mark ∈ (TokenStream.ofText text).marks, d.span = mark.2 ∧
          d.cause = .expected wanted mark.1 ∧
          d.notice.message = "Expecting " ++ wanted.name ++ ", got " ++ mark.1.name := by
  obtain ⟨horderly, hfresh⟩ := ParseState.orderly_ofText text
  have hend := horderly.statements (.inl hfresh) []
  have hmoves := ParseState.moves_statements [] (.ofStream (.ofText text))
  refine ⟨List.pairwise_reverse.2 hend.log, ?_, fun d hd hcause => ?_⟩
  · rw [File.parse, List.filter_reverse]
    exact List.pairwise_reverse.2 hend.rejections
  · obtain ⟨wanted, mark, hmark, rfl⟩ := hmoves.rejections_marks horderly.scanned
      (ParseState.rejections_ofText text) d
      (List.mem_filter.2 ⟨List.mem_reverse.1 hd, hcause⟩)
    rw [ParseState.marks_ofStream] at hmark
    exact ⟨wanted, mark, hmark, rfl, rfl, rfl⟩

end AssignLang
