import AssignLang.Proofs.Check.Table
import AssignLang.Proofs.Parse.Moves

/-! Parsing a moved token stream. A reader looks at the sorts of tokens and never at where
they stand, so it does to a moved state what it does to the state, moved. Tree and reports of
a parse are then a function of the token stream that commutes with every relocation: streams
that differ only in their points give trees and reports that differ only in their spans. -/

namespace AssignLang

def Reading.relocate (f : Relocation) (r : Reading) : Reading :=
  ⟨r.token.relocate f, r.reports.map (Diagnostic.relocate f)⟩

def TokenStream.relocate (f : Relocation) (s : TokenStream) : TokenStream :=
  ⟨s.readings.map (Reading.relocate f), f.move s.finish, s.closing.map (Diagnostic.relocate f)⟩

def File.relocate (f : Relocation) (file : File) : File :=
  ⟨file.span.relocate f, file.assignments.map (Assignment.relocate f)⟩

namespace ParseState

def relocate (f : Relocation) (s : ParseState) : ParseState :=
  ⟨s.ahead.map (Reading.relocate f), f.move s.finish, s.closing.map (Diagnostic.relocate f),
    s.log.map (Diagnostic.relocate f)⟩

variable (f : Relocation) (s : ParseState)

theorem ahead_relocate {s : ParseState} {r : Reading} {rest : List Reading}
    (hs : s.ahead = r :: rest) :
    (s.relocate f).ahead = r.relocate f :: rest.map (Reading.relocate f) := by
  rw [relocate, hs, List.map_cons]

@[simp] theorem kind_relocate : (s.relocate f).kind = s.kind := by
  obtain ⟨ahead, finish, closing, log⟩ := s
  cases ahead <;> rfl

theorem span_relocate : (s.relocate f).span = s.span.relocate f := by
  obtain ⟨ahead, finish, closing, log⟩ := s
  cases ahead <;> rfl

theorem arrive_relocate : (s.relocate f).arrive = s.arrive.relocate f := by
  obtain ⟨ahead, finish, closing, log⟩ := s
  cases ahead <;> simp [arrive, relocate, Reading.relocate]

theorem advance_relocate : (s.relocate f).advance = s.advance.relocate f := by
  obtain ⟨ahead, finish, closing, log⟩ := s
  cases ahead with
  | nil => rfl
  | cons r rest => exact arrive_relocate f ⟨rest, finish, closing, log⟩

theorem reject_relocate (wanted : TokenKind) :
    (s.relocate f).reject wanted = (s.reject wanted).relocate f := by
  rw [reject, kind_relocate, span_relocate]
  rfl

theorem operator?_relocate (level : Level) :
    (s.relocate f).operator? level = s.operator? level := by
  rw [operator?, kind_relocate, operator?]

theorem skipFrom_relocate (level : Level) (run : Option Span) :
    (s.relocate f).skipFrom level (run.map (Span.relocate f)) =
      ((s.skipFrom level run).1.map (Span.relocate f), (s.skipFrom level run).2.relocate f) := by
  fun_induction skipFrom level run s with
  | case1 run s hs =>
    refine skipFrom_of_stopsAt ?_ _
    rw [kind_relocate, kind, hs]
    cases level <;> rfl
  | case2 run s r rest hs hstop =>
    refine skipFrom_of_stopsAt ?_ _
    rwa [kind_relocate, kind, hs]
  | case3 run s r rest hs hstop ih =>
    have hstop' : level.stopsAt (r.relocate f).token.kind = false := by
      simpa [Reading.relocate] using hstop
    rw [skipFrom_cons (ahead_relocate f hs) hstop', advance_relocate, ← ih]
    simp [Reading.relocate, Token.relocate, Span.relocate_join]

theorem skip_relocate (level : Level) :
    (s.relocate f).skip level =
      ((s.skip level).1.map (Span.relocate f), (s.skip level).2.relocate f) :=
  skipFrom_relocate f s level none

theorem operand_relocate : (s.relocate f).operand =
    (s.operand.1.map (Expr.relocate f), s.operand.2.relocate f) := by
  have hhead : (s.relocate f).ahead.head?.bind (·.token.operand?) =
      (s.ahead.head?.bind (·.token.operand?)).map (Expr.relocate f) := by
    rw [relocate, List.head?_map]
    cases s.ahead.head? with
    | none => rfl
    | some r => exact r.token.operand?_relocate f
  cases hs : s.ahead.head?.bind (·.token.operand?) with
  | none =>
    rw [hs] at hhead
    rw [operand_of_none hhead, operand_of_none hs, reject_relocate]
    rfl
  | some e =>
    rw [hs] at hhead
    rw [operand_of_some hhead, operand_of_some hs, advance_relocate]
    rfl

end ParseState

namespace ExprReader

variable {f : Relocation} {level : Level} {operands : ExprReader}

/-- What is read from a moved state is what is read from the state, moved. -/
def Relocates (f : Relocation) (operands : ExprReader) : Prop :=
  ∀ s : ParseState, operands.read (s.relocate f) =
    ((operands.read s).1.map (Expr.relocate f), (operands.read s).2.relocate f)

theorem Relocates.chainFrom (hops : Relocates f operands) (left : Expr) (s : ParseState) :
    chainFrom level operands (left.relocate f) (s.relocate f) =
      ((chainFrom level operands left s).1.relocate f,
        (chainFrom level operands left s).2.relocate f) := by
  fun_induction ExprReader.chainFrom level operands left s with
  | case1 left s hop => exact chainFrom_of_none ((s.operator?_relocate f level).trans hop) _
  | case2 left s op hop right t hr ih =>
    have hread := hops s.advance
    rw [hr, ← ParseState.advance_relocate] at hread
    rw [chainFrom_join ((s.operator?_relocate f level).trans hop) hread, ← Expr.relocate_binary]
    exact ih
  | case3 left s op hop t hr skipped ih =>
    have hread := hops s.advance
    rw [hr, ← ParseState.advance_relocate] at hread
    rw [chainFrom_broken ((s.operator?_relocate f level).trans hop) hread,
      ParseState.skip_relocate, Expr.span_relocate, ← Span.relocate_extend]
    exact ih

theorem Relocates.chain (hops : Relocates f operands) : Relocates f (chain level operands) := by
  intro s
  change readChain level operands _ = ((readChain level operands s).1.map _,
    (readChain level operands s).2.relocate f)
  rw [readChain, hops s, readChain]
  rcases operands.read s with ⟨_ | left, t⟩
  · rfl
  · simp only [Option.map_some, hops.chainFrom left t]

theorem relocates_value (f : Relocation) : Relocates f value :=
  Relocates.chain (Relocates.chain (ParseState.operand_relocate f))

end ExprReader

namespace ParseState

variable (f : Relocation) (s : ParseState)

theorem assigned_relocate : (s.relocate f).assigned =
    (s.assigned.1.map (Expr.relocate f), s.assigned.2.relocate f) := by
  rw [assigned, assigned, kind_relocate]
  split
  · rw [advance_relocate]
    exact ExprReader.relocates_value f s.advance
  · rw [reject_relocate]
    rfl

theorem assignment_relocate (target : Ident) :
    (s.relocate f).assignment (target.relocate f) =
      ((s.assignment target).1.relocate f, (s.assignment target).2.relocate f) := by
  rw [assignment, assigned_relocate, assignment]
  rcases s.assigned with ⟨_ | value, t⟩
  · simp only [Option.map_none, skip_relocate, Assignment.relocate_failed]
  · simp only [Option.map_some, Assignment.relocate_complete]

theorem statements_relocate (passed : List Assignment) :
    (s.relocate f).statements (passed.map (Assignment.relocate f)) =
      ((s.statements passed).1.map (Assignment.relocate f),
        (s.statements passed).2.relocate f) := by
  fun_induction statements passed s with
  | case1 passed s hs =>
    rw [statements_nil (by rw [relocate, hs, List.map_nil]), List.map_reverse]
  | case2 passed s r rest hs target htarget result ih =>
    have htarget' : (r.relocate f).token.target? = some (target.relocate f) := by
      rw [Reading.relocate, Token.target?_relocate, htarget]
      rfl
    rw [statements_target (ahead_relocate f hs) htarget', advance_relocate, assignment_relocate]
    exact ih
  | case3 passed s r rest hs htarget ih =>
    have htarget' : (r.relocate f).token.target? = none := by
      rw [Reading.relocate, Token.target?_relocate, htarget]
      rfl
    rw [statements_stray (ahead_relocate f hs) htarget', reject_relocate, skip_relocate]
    exact ih

theorem ofStream_relocate (stream : TokenStream) :
    ofStream (stream.relocate f) = (ofStream stream).relocate f :=
  arrive_relocate f ⟨stream.readings, stream.finish, stream.closing, []⟩

end ParseState

/-- Texts whose token streams are the same when moved by `f` have the same trees and reports
when moved by `f`. -/
theorem File.parse_relocate (f : Relocation) {text other : Text}
    (h : (TokenStream.ofText text).relocate f = (TokenStream.ofText other).relocate f) :
    (File.parse text).file.relocate f = (File.parse other).file.relocate f ∧
      (File.parse text).reports.map (Diagnostic.relocate f) =
        (File.parse other).reports.map (Diagnostic.relocate f) := by
  have hparse : ∀ t : Text,
      (ParseState.ofStream ((TokenStream.ofText t).relocate f)).statements [] =
        ((File.parse t).file.assignments.map (Assignment.relocate f),
          ((ParseState.ofStream (.ofText t)).statements []).2.relocate f) := by
    intro t
    rw [ParseState.ofStream_relocate]
    exact ParseState.statements_relocate f _ []
  have heq := (hparse text).symm.trans (h ▸ hparse other)
  obtain ⟨hassignments, hstate⟩ := Prod.mk.inj heq
  obtain ⟨-, hfinish, -, hlog⟩ := ParseState.mk.inj hstate
  refine ⟨?_, ?_⟩
  · rw [File.relocate, File.relocate, hassignments]
    simp only [File.parse, Span.relocate, hfinish]
  · simp only [File.parse, List.map_reverse, hlog]

end AssignLang
