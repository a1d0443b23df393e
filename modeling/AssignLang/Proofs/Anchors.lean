import AssignLang.Proofs.Parse.Demand
import AssignLang.Proofs.Parse.Order
import AssignLang.Proofs.RootCause

/-! The starts of statements. The scanner looks ahead to tell whether an identifier starts
one: it does exactly if an assignment sign is the next token and nothing unknown was reported
on the way there. A parse keeps to what was decided. Each start gives an assignment to it, in
the order of the text, and no reader takes it for an operand or skips it. -/

namespace AssignLang

def TokenStream.starts (s : TokenStream) : List Token := s.tokens.filter (·.kind = .leadingIdent)

def TokenStream.isAnchored (s : TokenStream) (a : Assignment) : Bool :=
  s.starts.any (·.span = a.target.span)

/-- The assignment is one to the token and starts with it. -/
structure Assignment.StartsWith (a : Assignment) (t : Token) : Prop where
  terminal : t.terminal = .leadingIdent a.target.name
  target : a.target.span = t.span
  start : a.span.start = t.span.start

/-- An unknown character before a piece is reported with it, and nothing else so. -/
theorem Piece.exists_unknown_iff {piece : Piece} (h : Gap piece.unknown piece.gap) (p : Position)
    (span : Span) :
    (∃ d ∈ unknownReports (gapRun false none p piece.gap) ++ piece.lexeme.reports span,
      d.cause = .unknownCharacters) ↔ piece.unknown = true := by
  have hrun := gapRun_isSome (p := p) h none
  have hlexeme : ∀ d ∈ piece.lexeme.reports span, d.cause ≠ .unknownCharacters := by
    intro d hd
    unfold Lexeme.reports at hd
    split at hd
    · rw [List.mem_singleton.1 hd]
      simp
    · simp at hd
  rw [Option.isSome_none, Bool.or_false] at hrun
  rw [← hrun]
  cases gapRun false none p piece.gap with
  | none =>
    simp only [unknownReports, Option.toList_none, List.map_nil, List.nil_append]
    constructor
    · rintro ⟨d, hd, hcause⟩
      exact absurd hcause (hlexeme d hd)
    · simp
  | some run =>
    refine ⟨fun _ => rfl, fun _ => ⟨⟨run, .unknownCharacters⟩, ?_, rfl⟩⟩
    simp [unknownReports]

theorem Lexeme.kind_terminalBefore_eq_assign_iff {leads : Bool} {lexeme : Lexeme} :
    (lexeme.terminalBefore leads).kind = .assign ↔ lexeme = .assign := by
  cases lexeme <;> cases leads <;> simp [terminalBefore, Terminal.kind]

theorem Lexeme.kind_terminalBefore_eq_leadingIdent_iff {leads : Bool} {lexeme : Lexeme}
    (h : (lexeme.terminalBefore leads).kind.isIdentifier = true) :
    (lexeme.terminalBefore leads).kind = .leadingIdent ↔ leads = true := by
  cases lexeme <;> cases leads <;>
    simp_all [terminalBefore, Terminal.kind, TokenKind.isIdentifier]

/-- What the scanner decides about an identifier shows in the reading behind it. -/
theorem leadingIdent_readingsAt_iff {pieces : List Piece} {closing : Text}
    (h : Laid pieces closing) {p : Position} {before behind : List Reading} {r : Reading}
    (hr : readingsAt p pieces = before ++ r :: behind)
    (hident : r.token.kind.isIdentifier = true) :
    r.token.kind = .leadingIdent ↔ ∃ next ∈ behind.head?, next.token.kind = .assign ∧
      ¬ ∃ d ∈ next.reports, d.cause = .unknownCharacters := by
  induction before generalizing p pieces with
  | nil =>
    cases pieces with
    | nil => simp [readingsAt] at hr
    | cons piece more =>
      obtain ⟨rfl, rfl⟩ := List.cons.inj hr
      rw [Token.kind, Lexeme.kind_terminalBefore_eq_leadingIdent_iff hident]
      cases more with
      | nil => simp [assignNext, readingsAt]
      | cons next more =>
        obtain ⟨-, -, hgap, -, -⟩ := h
        simp only [assignNext, readingsAt, Token.kind, List.head?_cons, Option.any_some,
          Option.mem_def, Option.some.injEq, exists_eq_left', Piece.exists_unknown_iff hgap,
          Lexeme.kind_terminalBefore_eq_assign_iff]
        simp [and_comm]
  | cons x before ih =>
    cases pieces with
    | nil => simp [readingsAt] at hr
    | cons piece more => exact ih h.2.2 (List.cons.inj hr).2

namespace Ascends

variable {lo hi : Nat} {before behind readings : List Reading} {closing : List Diagnostic}
  {r : Reading}

theorem le_start (h : Ascends lo readings closing hi) :
    ∀ d ∈ readings.flatMap Reading.reports ++ closing, lo ≤ d.start := by
  induction readings generalizing lo with
  | nil => exact fun d hd => (h.2.bounds d hd).1
  | cons r rest ih =>
    obtain ⟨hlo, hbetween, hlt, hrest⟩ := h
    intro d hd
    rw [List.flatMap_cons, List.append_assoc] at hd
    rcases List.mem_append.1 hd with hd | hd
    · exact (hbetween.bounds d hd).1
    · have := ih hrest d hd
      omega

/-- What is reported up to a token starts before its end, and all else behind. -/
theorem split (h : Ascends lo (before ++ r :: behind) closing hi) :
    lo ≤ r.token.span.start.offset ∧
      r.token.span.start.offset < r.token.span.stop.offset ∧
      (∀ d ∈ before.flatMap Reading.reports ++ r.reports, d.start < r.token.span.stop.offset) ∧
      Ascends r.token.span.stop.offset behind closing hi := by
  induction before generalizing lo with
  | nil =>
    obtain ⟨hlo, hbetween, hlt, hrest⟩ := h
    exact ⟨hlo, hlt, fun d hd => Nat.lt_of_le_of_lt (hbetween.bounds d hd).2 hlt, hrest⟩
  | cons x before ih =>
    obtain ⟨hlo, hbetween, hlt, hrest⟩ := h
    obtain ⟨hle, hlt', hreports, hbehind⟩ := ih hrest
    refine ⟨by omega, hlt', fun d hd => ?_, hbehind⟩
    rw [List.flatMap_cons, List.append_assoc] at hd
    rcases List.mem_append.1 hd with hd | hd
    · have := (hbetween.bounds d hd).2
      omega
    · exact hreports d hd

end Ascends

namespace Tiled

variable {p : Position} {text : Text} {readings : List Reading} {closing : List Diagnostic}

theorem stop_le_of_unknown (h : Tiled p text readings closing) :
    ∀ r ∈ readings, ∀ d ∈ r.reports, d.cause = .unknownCharacters →
      d.span.stop.offset ≤ r.token.span.start.offset := by
  induction h with
  | finish => simp
  | @token p gap t spelling rest readings closing hgap hspan hspelled hmore ih =>
    refine List.forall_mem_cons.2 ⟨fun d hd hcause => ?_, ih⟩
    rcases List.mem_append.1 hd with hd | hd
    · rw [hspan]
      exact (Filler.within_of_mem_reports d hd).stop.bounds.2
    · by_cases hopen : t.IsOpen spelling
      · rw [hopen.openReports_eq, List.mem_singleton] at hd
        rw [hd] at hcause
        simp at hcause
      · rw [Token.openReports_eq_nil hopen] at hd
        simp at hd

/-- The unknown characters between two tokens are those reported with the second. -/
theorem exists_unknown_between_iff {before behind : List Reading} {r next : Reading}
    (h : Tiled p text (before ++ r :: next :: behind) closing) :
    (∃ d ∈ (before ++ r :: next :: behind).flatMap Reading.reports ++ closing,
      d.cause = .unknownCharacters ∧ r.token.span.stop.offset ≤ d.span.start.offset ∧
        d.span.stop.offset ≤ next.token.span.start.offset) ↔
      ∃ d ∈ next.reports, d.cause = .unknownCharacters := by
  obtain ⟨-, -, hbefore, -, hbetween, hlt, hrest⟩ := h.ascends.split
  constructor
  · rintro ⟨d, hd, hcause, hstart, hstop⟩
    have hforwards : d.span.start.offset ≤ d.span.stop.offset := by
      obtain ⟨hreadings, hclosing⟩ := h.within
      rcases List.mem_append.1 hd with hd | hd
      · obtain ⟨x, hx, hd⟩ := List.mem_flatMap.1 hd
        exact ((hreadings x hx).2 d hd).forwards
      · exact (hclosing d hd).forwards
    have hsplit : (before ++ r :: next :: behind).flatMap Reading.reports ++ closing =
        (before.flatMap Reading.reports ++ r.reports) ++
          (next.reports ++ (behind.flatMap Reading.reports ++ closing)) := by simp
    rw [hsplit] at hd
    -- all other reports start before the first token ends or behind the second
    rcases List.mem_append.1 hd with hd | hd
    · have := hbefore d hd
      rw [Diagnostic.start] at this
      omega
    · rcases List.mem_append.1 hd with hd | hd
      · exact ⟨d, hd, hcause⟩
      · have := hrest.le_start d hd
        rw [Diagnostic.start] at this
        omega
  · rintro ⟨d, hd, hcause⟩
    exact ⟨d, by simp [hd], hcause, (hbetween.bounds d hd).1,
      h.stop_le_of_unknown next (by simp) d hd hcause⟩

end Tiled

/-- An identifier starts a statement exactly if an assignment sign comes next and nothing
unknown is reported in between. -/
theorem TokenStream.leadingIdent_iff (text : Text) {before behind : List Token} {t : Token}
    (h : (ofText text).tokens = before ++ t :: behind) (hident : t.kind.isIdentifier = true) :
    t.kind = .leadingIdent ↔ ∃ u ∈ behind.head?, u.kind = .assign ∧
      ¬ ∃ d ∈ (ofText text).reports, d.cause = .unknownCharacters ∧
        t.span.stop.offset ≤ d.span.start.offset ∧ d.span.stop.offset ≤ u.span.start.offset := by
  obtain ⟨front, more, hreadings, rfl, hmore⟩ := List.map_eq_append_iff.1 h
  obtain ⟨r, rest, rfl, rfl, rfl⟩ := List.map_eq_cons_iff.1 hmore
  have htiled := tiled text
  rw [hreadings] at htiled
  have hlead : r.token.kind = .leadingIdent ↔ ∃ next ∈ rest.head?, next.token.kind = .assign ∧
      ¬ ∃ d ∈ next.reports, d.cause = .unknownCharacters := by
    obtain ⟨pieces, closing, rfl, hlaid⟩ := exists_laid text
    rw [ofText_laid hlaid] at hreadings
    exact leadingIdent_readingsAt_iff hlaid hreadings hident
  rw [hlead]
  cases rest with
  | nil => simp
  | cons next rest =>
    have hbetween := htiled.exists_unknown_between_iff
    rw [← hreadings] at hbetween
    simp only [List.map_cons, List.head?_cons, Option.mem_def, Option.some.injEq,
      exists_eq_left', ← hbetween]
    rfl

-- a comment on the way to the sign does not matter, an unknown character does
example : (TokenStream.ofText "a // b\n := c @ := 1".toList).kinds =
    [.leadingIdent, .assign, .ident, .assign, .integer, .eof] := by
  decide +kernel

namespace Recovered

def NoStart (ts : List Token) : Prop := ∀ t ∈ ts, t.kind ≠ .leadingIdent

theorem noStart_append {ts us : List Token} (h : NoStart ts) (h' : NoStart us) :
    NoStart (ts ++ us) := List.forall_mem_append.2 ⟨h, h'⟩

theorem noStart_cons {t : Token} {ts : List Token} (h : t.kind ≠ .leadingIdent)
    (h' : NoStart ts) : NoStart (t :: ts) := List.forall_mem_cons.2 ⟨h, h'⟩

theorem Skipped.noStart {level : Level} {us rest : List Token} (h : Skipped level us rest) :
    NoStart us := by
  intro t ht hlead
  have hpass := h.passed t ht
  rw [stopsAt_of_leading hlead] at hpass
  simp at hpass

/-- These derivations consume no start of a statement. -/
def Stays (D : Expr → List Token → List Token → Prop) : Prop :=
  ∀ {e : Expr} {ts rest : List Token}, D e ts rest → NoStart ts

variable {level : Level} {D : Expr → List Token → List Token → Prop} {rest : List Token}

theorem stays_operand : Stays Operand := by
  rintro e ts rest ⟨t, rfl, he⟩ u hu hlead
  obtain rfl := List.mem_singleton.1 hu
  rw [operand?_of_leading hlead] at he
  simp at he

theorem Stays.joined (hD : Stays D) {left e : Expr} {ts : List Token}
    (h : Joined level D rest left e ts) : NoStart ts := by
  induction h with
  | done left => simp [NoStart]
  | @join left right e t op us vs ht hop hr _ ih =>
    exact noStart_cons (fun hlead => ne_operator_of_leading hlead op ht)
      (noStart_append (hD hr) ih)
  | @broken left e t op us vs ht hop hno hskip _ ih =>
    exact noStart_cons (fun hlead => ne_operator_of_leading hlead op ht)
      (noStart_append hskip.noStart ih)

theorem Stays.chain (hD : Stays D) : Stays (Chain level D) := by
  rintro e ts rest ⟨left, us, vs, rfl, hleft, hj⟩
  exact noStart_append (hD hleft) (hD.joined hj)

theorem stays_value : Stays Value := Stays.chain (Stays.chain stays_operand)

theorem Statement.noStart_tail {a : Option Assignment} {ts : List Token}
    (h : Statement rest a ts) : NoStart ts.tail := by
  cases h with
  | complete ht hu hvalue =>
    exact noStart_cons (fun hlead => ne_assign_of_leading hlead hu) (stays_value hvalue)
  | unassigned ht hno hskip => exact hskip.noStart
  | valueless ht hu hno hskip =>
    exact noStart_cons (fun hlead => ne_assign_of_leading hlead hu) hskip.noStart
  | stray ht hskip => exact fun t h => hskip.noStart t (List.mem_cons_of_mem _ h)

theorem NoStart.filter_eq_nil {ts : List Token} (h : NoStart ts) :
    ts.filter (·.kind = .leadingIdent) = [] := by
  rw [List.filter_eq_nil_iff]
  exact fun t ht => by simpa using h t ht

theorem Statement.startsWith {a : Assignment} {t : Token} {us : List Token} {lo hi : Nat}
    (h : Statement rest (some a) (t :: us)) (hrow : Row lo (t :: us) hi)
    (ht : t.target? = some a.target) (hlead : t.kind = .leadingIdent) : a.StartsWith t := by
  obtain ⟨ws, signs, hsplit, hplaced⟩ := h.placed hrow
  obtain ⟨first, -, hfirst, -, hstart, -⟩ := hplaced.covers
  obtain ⟨more, rfl⟩ := List.head?_eq_some_iff.1 hfirst
  obtain ⟨rfl, -⟩ := List.cons.inj hsplit
  refine ⟨?_, Token.span_of_target? ht, hstart⟩
  obtain ⟨terminal, span⟩ := t
  cases terminal <;> simp [Token.kind, Terminal.kind] at hlead
  exact congrArg Terminal.leadingIdent (congrArg Ident.name (Option.some.inj ht))

/-- The starts of statements are those of the assignments to them, in the same order. -/
theorem Statements.startsWith {as : List Assignment} {ts : List Token} {lo hi : Nat}
    (h : Statements rest as ts) (hrow : Row lo ts hi) {isStart : Assignment → Bool}
    (hmem : ∀ t ∈ ts, ∀ a : Assignment, t.target? = some a.target →
      (isStart a = true ↔ t.kind = .leadingIdent)) :
    List.Forall₂ Assignment.StartsWith (as.filter isStart)
      (ts.filter (·.kind = .leadingIdent)) := by
  induction h generalizing lo with
  | nil => exact .nil
  | @cons a as us vs h _ ih =>
    obtain ⟨mid, hus, hvs⟩ := Row.append_iff.1 hrow
    have hmore := ih hvs fun t ht => hmem t (List.mem_append_right _ ht)
    rw [List.filter_append, List.filter_append]
    cases a with
    | none =>
      cases h with
      | stray ht hskip =>
        rw [hskip.noStart.filter_eq_nil]
        exact hmore
    | some a =>
      obtain ⟨t, us, rfl, ht⟩ := h.exists_target
      have htail : us.filter (·.kind = .leadingIdent) = [] := h.noStart_tail.filter_eq_nil
      have hfirst := hmem t (by simp) a ht
      -- of a statement's tokens only the first counts, and it counts on both sides or on none
      by_cases hlead : t.kind = .leadingIdent
      · rw [List.filter_cons_of_pos (by simpa using hlead), htail, Option.toList_some,
          List.filter_cons_of_pos (hfirst.2 hlead)]
        exact .cons (h.startsWith hus ht hlead) hmore
      · rw [List.filter_cons_of_neg (by simpa using hlead), htail, Option.toList_some,
          List.filter_cons_of_neg fun hstart => hlead (hfirst.1 hstart)]
        exact hmore

end Recovered

theorem Row.eq_of_span {lo hi : Nat} {ts : List Token} {t u : Token} (h : Row lo ts hi)
    (ht : t ∈ ts) (hu : u ∈ ts) (hspan : t.span = u.span) : t = u := by
  have hnodup : (ts.map Token.span).Nodup := by
    rw [List.Nodup, List.pairwise_map]
    refine h.pairwise.imp_of_mem fun {x y} hx _ hle heq => ?_
    have hlt := (h.mem hx).2.1
    rw [heq] at hle hlt
    omega
  exact List.inj_on_of_nodup_map hnodup ht hu hspan

theorem File.startsWith_parse (text : Text) : List.Forall₂ Assignment.StartsWith
    ((File.parse text).file.assignments.filter (TokenStream.ofText text).isAnchored)
    (TokenStream.ofText text).starts := by
  have hrow := TokenStream.row text
  have hstatements := Recovered.readStatements_eq_iff.1 (File.read_parse text).1.symm
  refine hstatements.startsWith hrow fun t ht a htarget => ?_
  have hspan := Token.span_of_target? htarget
  rw [TokenStream.isAnchored, List.any_eq_true]
  constructor
  · rintro ⟨u, hu, heq⟩
    obtain ⟨hu, hlead⟩ := List.mem_filter.1 hu
    have hsame := hrow.eq_of_span hu ht ((of_decide_eq_true heq).trans hspan)
    rw [← hsame]
    exact of_decide_eq_true hlead
  · intro hlead
    exact ⟨t, List.mem_filter.2 ⟨ht, by simpa using hlead⟩, by simp [hspan]⟩

namespace File

variable {text : Text} {a b : Assignment}

theorem exists_startsWith {t : Token} (ht : t ∈ (TokenStream.ofText text).starts) :
    ∃ a ∈ (parse text).file.assignments, a.StartsWith t := by
  have hmatch := startsWith_parse text
  obtain ⟨i, hi, rfl⟩ := List.mem_iff_getElem.1 ht
  have hi' := hmatch.length_eq ▸ hi
  exact ⟨_, List.mem_of_mem_filter (List.getElem_mem hi'), hmatch.get hi' hi⟩

theorem filter_start_parse (ha : a ∈ (parse text).file.assignments) :
    (parse text).file.assignments.filter (·.span.start = a.span.start) = [a] := by
  have hpairwise := pairwise_start text
  obtain ⟨front, behind, hsplit⟩ := List.append_of_mem ha
  rw [hsplit] at hpairwise ⊢
  obtain ⟨-, hcons, hcross⟩ := List.pairwise_append.1 hpairwise
  have hfront : ∀ b ∈ front, ¬ decide (b.span.start = a.span.start) = true := by
    intro b hb heq
    have hlt := hcross b hb a List.mem_cons_self
    rw [of_decide_eq_true heq] at hlt
    exact Nat.lt_irrefl _ hlt
  have hbehind : ∀ b ∈ behind, ¬ decide (b.span.start = a.span.start) = true := by
    intro b hb heq
    have hlt := (List.pairwise_cons.1 hcons).1 b hb
    rw [of_decide_eq_true heq] at hlt
    exact Nat.lt_irrefl _ hlt
  rw [List.filter_append, List.filter_eq_nil_iff.2 hfront, List.filter_cons_of_pos (by simp),
    List.filter_eq_nil_iff.2 hbehind, List.nil_append]

theorem Nested.apart {file : File} (h : file.Nested) (ha : a ∈ file.assignments)
    (hb : b ∈ file.assignments) (hne : a ≠ b) :
    a.span.stop.offset ≤ b.span.start.offset ∨ b.span.stop.offset ≤ a.span.start.offset := by
  have hsymm : Std.Symm fun a b : Assignment => a.span.stop.offset ≤ b.span.start.offset ∨
      b.span.stop.offset ≤ a.span.start.offset := ⟨fun _ _ h => h.symm⟩
  have hpairwise := h.order.imp (S := fun a b : Assignment =>
    a.span.stop.offset ≤ b.span.start.offset ∨ b.span.stop.offset ≤ a.span.start.offset) .inl
  exact hpairwise.forall ha hb hne

/-- The name that an assignment starts with lies in no other assignment and in no node. -/
theorem Nested.outside {file : File} (h : file.Nested) (ha : a ∈ file.assignments)
    (hb : b ∈ file.assignments)
    (hlt : a.target.span.start.offset < a.target.span.stop.offset) :
    (a.target.span.Inside b.span → b = a) ∧
      ∀ e ∈ b.nodes, ¬ a.target.span.Inside e.span := by
  have hsame : a.target.span.Inside b.span → b = a := by
    intro hinside
    by_contra hne
    obtain ⟨hstart, -, hstop⟩ := (h.inside a ha).2.target
    obtain ⟨hstart', -, hstop'⟩ := hinside
    rcases h.apart ha hb (Ne.symm hne) with hle | hle <;> omega
  refine ⟨hsame, fun e he hinside => ?_⟩
  obtain ⟨hnode, hbehind, -⟩ := (h.inside b hb).2.inside_of_mem_nodes he
  obtain rfl := hsame (hinside.trans hnode)
  have hstart := hinside.start
  omega

end File

/-- Whether an identifier starts a statement is decided by what comes next, and such a token
is never lost. The assignments to these tokens are as many, in the same order; each of the
tokens starts one assignment, which bears its name, and lies in no other one and in no node
of a value. When the text is parsed on demand, such a token is consumed as a target, never as
an operand and never by recovery. -/
theorem anchors_kept (text : Text) :
    (∀ before t behind, (TokenStream.ofText text).tokens = before ++ t :: behind →
      t.kind.isIdentifier = true →
      (t.kind = .leadingIdent ↔ ∃ u ∈ behind.head?, u.kind = .assign ∧
        ¬ ∃ d ∈ (TokenStream.ofText text).reports, d.cause = .unknownCharacters ∧
          t.span.stop.offset ≤ d.span.start.offset ∧
          d.span.stop.offset ≤ u.span.start.offset)) ∧
      List.Forall₂ Assignment.StartsWith
        ((File.parse text).file.assignments.filter (TokenStream.ofText text).isAnchored)
        (TokenStream.ofText text).starts ∧
      (∀ t ∈ (TokenStream.ofText text).starts, ∃ a, a.StartsWith t ∧
        (File.parse text).file.assignments.filter (·.span.start = t.span.start) = [a] ∧
        ∀ b ∈ (File.parse text).file.assignments, (t.span.Inside b.span → b = a) ∧
          ∀ e ∈ b.nodes, ¬ t.span.Inside e.span) ∧
      PullState.parse text = File.parse text ∧
      (PullState.run text).2.consumed.reverse.map Prod.fst = (TokenStream.ofText text).tokens ∧
      ∀ x ∈ (PullState.run text).2.consumed, x.1.kind = .leadingIdent → x.2 = .target := by
  refine ⟨fun before t behind h hident => TokenStream.leadingIdent_iff text h hident,
    File.startsWith_parse text, fun t ht => ?_, PullState.parse_eq text,
    PullState.consumed_run text, (PullState.accounted_run text).starts⟩
  obtain ⟨a, ha, hstarts⟩ := File.exists_startsWith ht
  have hlt := ((TokenStream.row text).mem (List.mem_filter.1 ht).1).2.1
  refine ⟨a, hstarts, ?_, fun b hb => ?_⟩
  · rw [← hstarts.start]
    exact File.filter_start_parse ha
  · rw [← hstarts.target] at hlt ⊢
    exact (File.nested_parse text).1.outside ha hb hlt

end AssignLang
