import AssignLang.Proofs.Token.Maximal
import AssignLang.Token.Scan

/-! What stands between tokens: blanks, comments up to their newline, and characters that
start no token. Scanning passes over it and remembers only the span of the unknown
characters. Behind the last token a comment may also end with the text. -/

namespace AssignLang

/-- A character that starts no token. A colon does not by itself. -/
def Text.isUnknown (c : Char) : Bool := !isWhitespace c && (Lexeme.read? [c]).isNone

/-- A text between tokens; the flag tells whether unknown characters are in it. -/
inductive Gap : Bool → Text → Prop
  | nil : Gap false []
  | blank {u : Bool} {c : Char} {g : Text} (hc : Text.isWhitespace c = true) (h : Gap u g) :
      Gap u (c :: g)
  | comment {u : Bool} {line g : Text} (hline : '\n' ∉ line) (h : Gap u g) :
      Gap u ('/' :: '/' :: (line ++ '\n' :: g))
  | unknown {u : Bool} {c : Char} {g : Text} (hc : Text.isUnknown c = true)
      (hnext : c = ':' → g.head? ≠ some '=') (h : Gap u g) : Gap true (c :: g)

/-- A gap at the end of a text. -/
inductive EndGap : Bool → Text → Prop
  | closed {u : Bool} {g : Text} (h : Gap u g) : EndGap u g
  | opened {u : Bool} {g line : Text} (h : Gap u g) (hline : '\n' ∉ line) :
      EndGap u (g ++ '/' :: '/' :: line)

theorem EndGap.blank {u : Bool} {c : Char} {g : Text} (hc : Text.isWhitespace c = true)
    (h : EndGap u g) : EndGap u (c :: g) := by
  cases h with
  | closed h => exact .closed (.blank hc h)
  | opened h hline => exact .opened (.blank hc h) hline

theorem EndGap.comment {u : Bool} {line g : Text} (hline : '\n' ∉ line) (h : EndGap u g) :
    EndGap u ('/' :: '/' :: (line ++ '\n' :: g)) := by
  cases h with
  | closed h => exact .closed (.comment hline h)
  | opened h hopen =>
    have := EndGap.opened (.comment hline h) hopen
    simpa using this

theorem EndGap.unknown {u : Bool} {c : Char} {g : Text} (hc : Text.isUnknown c = true)
    (hnext : c = ':' → g.head? ≠ some '=') (h : EndGap u g) : EndGap true (c :: g) := by
  cases h with
  | closed h => exact .closed (.unknown hc hnext h)
  | @opened g line h hline =>
    refine EndGap.opened (.unknown hc (fun hcolon => ?_) h) hline
    cases g with
    | nil => simp
    | cons d ds => exact hnext hcolon

/-- The span of the unknown characters of a gap that stands at `p`, and of `run` before
it; `comment` says whether a comment goes on. -/
def gapRun (comment : Bool) (run : Option Span) (p : Position) : Text → Option Span
  | [] => run
  | c :: cs =>
    if comment then gapRun (c ≠ '\n') run (p.advance c) cs
    else if Text.isWhitespace c then gapRun false run (p.advance c) cs
    else if c = '/' then gapRun true run (p.advance c) cs
    else gapRun false (some (Span.join run ⟨p, p.advance c⟩)) (p.advance c) cs

namespace Lexeme

/-- What follows matters only to a colon. -/
theorem read?_singleton_iff {c : Char} {cs : Text} :
    read? (c :: cs) = none ↔ read? [c] = none ∧ (c = ':' → cs.head? ≠ some '=') := by
  by_cases hstart : Identifier.isStart c = true
  · simp [read?, hstart]
  · by_cases hdigit : c.isDigit = true
    · simp [read?, hstart, hdigit]
    · by_cases hquote : c = '"'
      · subst hquote
        simp [read?, hstart, hdigit]
      · by_cases hcolon : c = ':'
        · subst hcolon
          by_cases heq : cs.head? = some '='
          · simp [read?, hstart, hdigit, heq]
          · simp [read?, hstart, hdigit, heq, Operator.ofSymbol?]
        · simp [read?, hstart, hdigit, hquote, hcolon]

end Lexeme

theorem Text.ne_slash_of_isUnknown {c : Char} (h : isUnknown c = true) : c ≠ '/' := by
  rintro rfl
  exact absurd h (by decide)

section Run

variable {p : Position} {line rest : Text}

theorem gapRun_comment (hline : '\n' ∉ line) (run : Option Span) :
    gapRun true run p (line ++ '\n' :: rest) =
      gapRun false run (p.after (line ++ ['\n'])) rest := by
  induction line generalizing p with
  | nil => rfl
  | cons c cs ih =>
    obtain ⟨hc, hcs⟩ := not_or.1 (mt List.mem_cons.2 hline)
    rw [List.cons_append, gapRun, if_pos rfl, decide_eq_true (Ne.symm hc), ih hcs]
    rfl

theorem gapRun_slashes (run : Option Span) (text : Text) :
    gapRun false run p ('/' :: '/' :: text) = gapRun true run (p.after ['/', '/']) text := by
  have hblank : Text.isWhitespace '/' = false := by decide
  simp [gapRun, hblank]

theorem gapRun_unknown {c : Char} {cs : Text} (hc : Text.isUnknown c = true)
    (run : Option Span) : gapRun false run p (c :: cs) =
      gapRun false (some (Span.join run ⟨p, p.advance c⟩)) (p.advance c) cs := by
  have hslash := Text.ne_slash_of_isUnknown hc
  simp only [Text.isUnknown, Bool.and_eq_true, Bool.not_eq_true'] at hc
  rw [gapRun, if_neg (by simp), if_neg (by simp [hc.1]), if_neg hslash]

theorem gapRun_comment_end (hline : '\n' ∉ line) (run : Option Span) :
    gapRun true run p line = run := by
  induction line generalizing p with
  | nil => rfl
  | cons c cs ih =>
    obtain ⟨hc, hcs⟩ := not_or.1 (mt List.mem_cons.2 hline)
    rw [gapRun, if_pos rfl, decide_eq_true (Ne.symm hc), ih hcs]

theorem gapRun_gap {u : Bool} {g : Text} (h : Gap u g) (run : Option Span) :
    gapRun false run p (g ++ rest) = gapRun false (gapRun false run p g) (p.after g) rest := by
  induction h generalizing p run with
  | nil => rfl
  | @blank u c g hc h ih =>
    rw [List.cons_append, gapRun, if_neg (by simp), if_pos hc, ih, gapRun, if_neg (by simp),
      if_pos hc, Position.after_cons]
  | @comment u line g hline h ih =>
    rw [List.cons_append, List.cons_append, List.append_assoc, List.cons_append, gapRun_slashes,
      gapRun_comment hline, ih, gapRun_slashes, gapRun_comment hline]
    simp
  | @unknown u c g hc hnext h ih =>
    rw [List.cons_append, gapRun_unknown hc, ih, gapRun_unknown hc, Position.after_cons]

theorem gapRun_isSome {u : Bool} {g : Text} (h : Gap u g) (run : Option Span) :
    (gapRun false run p g).isSome = (u || run.isSome) := by
  induction h generalizing p run with
  | nil => rfl
  | @blank u c g hc h ih => rw [gapRun, if_neg (by simp), if_pos hc, ih]
  | @comment u line g hline h ih => rw [gapRun_slashes, gapRun_comment hline, ih]
  | @unknown u c g hc hnext h ih => rw [gapRun_unknown hc, ih]; simp

theorem gapRun_isSome_end {u : Bool} {g : Text} (h : EndGap u g) :
    (gapRun false none p g).isSome = u := by
  cases h with
  | closed h => rw [gapRun_isSome h]; simp
  | opened h hline =>
    rw [gapRun_gap h, gapRun_slashes, gapRun_comment_end hline, gapRun_isSome h]; simp

end Run

namespace Cursor

variable {p : Position} {line rest : Text}

theorem walkTrivia_comment (hline : '\n' ∉ line) :
    walkTrivia true p (line ++ '\n' :: rest) =
      walkTrivia false (p.after (line ++ ['\n'])) rest := by
  induction line generalizing p with
  | nil => rfl
  | cons c cs ih =>
    obtain ⟨hc, hcs⟩ := not_or.1 (mt List.mem_cons.2 hline)
    rw [List.cons_append, walkTrivia, if_pos rfl, decide_eq_true (Ne.symm hc), ih hcs]
    rfl

theorem walkTrivia_comment_end (hline : '\n' ∉ line) :
    walkTrivia true p line = ⟨p.after line, []⟩ := by
  induction line generalizing p with
  | nil => rfl
  | cons c cs ih =>
    obtain ⟨hc, hcs⟩ := not_or.1 (mt List.mem_cons.2 hline)
    rw [walkTrivia, if_pos rfl, decide_eq_true (Ne.symm hc), ih hcs]
    rfl

theorem walkTrivia_slashes (text : Text) :
    walkTrivia false p ('/' :: '/' :: text) = walkTrivia true (p.after ['/', '/']) text := by
  have hblank : Text.isWhitespace '/' = false := by decide
  simp [walkTrivia, hblank]

/-- Blanks and comments are passed over. -/
theorem walkTrivia_gap {u : Bool} {g : Text} (h : Gap u g) (hu : u = false) (rest : Text) :
    walkTrivia false p (g ++ rest) = walkTrivia false (p.after g) rest := by
  induction h generalizing p with
  | nil => rfl
  | @blank u c g hc h ih =>
    rw [List.cons_append, walkTrivia, if_neg (by simp), if_pos hc, ih hu]
    rfl
  | @comment u line g hline h ih =>
    rw [List.cons_append, List.cons_append, List.append_assoc, List.cons_append,
      walkTrivia_slashes, walkTrivia_comment hline, ih hu]
    simp
  | unknown => simp at hu

theorem walkTrivia_startsToken {text : Text} (h : text.StartsToken) :
    walkTrivia false p text = ⟨p, text⟩ := by
  cases text with
  | nil => rfl
  | cons c cs => rw [walkTrivia, if_neg (by simp), if_neg (by simp [h.1]), if_neg h.2]

theorem walkTrivia_endGap {u : Bool} {g : Text} (h : EndGap u g) (hu : u = false) :
    walkTrivia false p g = ⟨p.after g, []⟩ := by
  cases h with
  | closed h =>
    have hwalk := walkTrivia_gap (p := p) h hu []
    rwa [List.append_nil] at hwalk
  | opened h hline =>
    rw [walkTrivia_gap h hu, walkTrivia_slashes, walkTrivia_comment_end hline]
    simp

/-- An unknown character stops the walk, and it does not start an assignment sign. -/
theorem walkTrivia_unknown {u : Bool} {g : Text} (h : Gap u g) (hu : u = true)
    (hrest : rest.head? ≠ some '=') :
    [':', '='].isPrefixOf (walkTrivia false p (g ++ rest)).rest = false := by
  induction h generalizing p with
  | nil => simp at hu
  | @blank u c g hc h ih =>
    rw [List.cons_append, walkTrivia, if_neg (by simp), if_pos hc]
    exact ih hu
  | @comment u line g hline h ih =>
    rw [List.cons_append, List.cons_append, List.append_assoc, List.cons_append,
      walkTrivia_slashes, walkTrivia_comment hline]
    exact ih hu
  | @unknown u c g hc hnext h ih =>
    have hslash := Text.ne_slash_of_isUnknown hc
    simp only [Text.isUnknown, Bool.and_eq_true, Bool.not_eq_true'] at hc
    have hskip : walkTrivia false p (c :: (g ++ rest)) = ⟨p, c :: (g ++ rest)⟩ :=
      walkTrivia_startsToken ⟨hc.1, fun h => hslash h.1⟩
    rw [List.cons_append, hskip, Bool.eq_false_iff]
    intro hprefix
    obtain ⟨behind, hbehind⟩ := List.isPrefixOf_iff_prefix.1 hprefix
    obtain ⟨hcolon, hmore⟩ := List.cons.inj hbehind
    cases g with
    | nil => exact hrest (by rw [List.nil_append] at hmore; rw [← hmore]; rfl)
    | cons d ds =>
      obtain ⟨rfl, -⟩ := List.cons.inj hmore
      exact hnext hcolon.symm rfl

/-- Walking over blanks and comments leaves a token or nothing. -/
theorem exists_gap_walkTrivia (p : Position) (text : Text) :
    (EndGap false text ∧ walkTrivia false p text = ⟨p.after text, []⟩) ∨
      ∃ g rest, text = g ++ rest ∧ Gap false g ∧ rest.StartsToken ∧
        walkTrivia false p text = ⟨p.after g, rest⟩ := by
  -- it is enough to take the text apart, the walk follows
  suffices h : EndGap false text ∨ ∃ g rest, text = g ++ rest ∧ Gap false g ∧ rest.StartsToken by
    rcases h with h | ⟨g, rest, rfl, hg, hrest⟩
    · exact .inl ⟨h, walkTrivia_endGap h rfl⟩
    · refine .inr ⟨g, rest, rfl, hg, hrest, ?_⟩
      rw [walkTrivia_gap hg rfl, walkTrivia_startsToken hrest]
  induction hn : text.length using Nat.strongRecOn generalizing text with
  | ind n ih =>
    subst hn
    cases text with
    | nil => exact .inl (.closed .nil)
    | cons c cs =>
      by_cases hc : Text.isWhitespace c = true
      · rcases ih cs.length (by simp) cs rfl with h | ⟨g, rest, rfl, hg, hrest⟩
        · exact .inl (h.blank hc)
        · exact .inr ⟨c :: g, rest, rfl, .blank hc hg, hrest⟩
      · by_cases hslash : c = '/' ∧ cs.head? = some '/'
        · obtain ⟨rfl, hhead⟩ := hslash
          obtain ⟨line, rfl⟩ := List.head?_eq_some_iff.1 hhead
          by_cases hline : '\n' ∈ line
          · obtain ⟨first, more, rfl, hfirst⟩ := List.eq_append_cons_of_mem hline
            rcases ih more.length (by simp; omega) more rfl with h | ⟨g, rest, rfl, hg, hrest⟩
            · exact .inl (h.comment hfirst)
            · exact .inr ⟨_, rest, by simp, .comment hfirst hg, hrest⟩
          · exact .inl (EndGap.opened .nil hline)
        · exact .inr ⟨[], c :: cs, rfl, .nil, by simpa using hc, hslash⟩

theorem nextFrom_nil {c : Cursor} {q : Position} (h : c.skipTrivia = ⟨q, []⟩)
    (run : Option Span) : c.nextFrom run = .finish q (unknownReports run) := by
  rw [nextFrom]
  split <;> simp_all

theorem nextFrom_some {c : Cursor} {q : Position} {ch : Char} {cs : Text} {lexeme : Lexeme}
    (h : c.skipTrivia = ⟨q, ch :: cs⟩) (hread : Lexeme.read? (ch :: cs) = some (lexeme, rest))
    (run : Option Span) : c.nextFrom run =
      .token ⟨⟨lexeme.terminal rest, ⟨q, q.after lexeme.spelling⟩⟩,
          unknownReports run ++ lexeme.reports ⟨q, q.after lexeme.spelling⟩⟩
        ⟨q.after lexeme.spelling, rest⟩ := by
  rw [nextFrom]
  split
  · simp_all
  · rename_i h'
    obtain ⟨rfl, hcs⟩ := Cursor.mk.inj (h.symm.trans h')
    rw [← hcs, hread]

theorem nextFrom_none {c : Cursor} {q : Position} {ch : Char} {cs : Text}
    (h : c.skipTrivia = ⟨q, ch :: cs⟩) (hread : Lexeme.read? (ch :: cs) = none)
    (run : Option Span) : c.nextFrom run =
      nextFrom (some (Span.join run ⟨q, q.advance ch⟩)) ⟨q.advance ch, cs⟩ := by
  rw [nextFrom]
  split
  · simp_all
  · rename_i h'
    obtain ⟨rfl, hcs⟩ := Cursor.mk.inj (h.symm.trans h')
    obtain ⟨rfl, rfl⟩ := List.cons.inj hcs
    rw [hread]

theorem nextFrom_congr {c d : Cursor} (h : c.skipTrivia = d.skipTrivia) (run : Option Span) :
    c.nextFrom run = d.nextFrom run := by
  cases hd : d.skipTrivia with
  | mk q text =>
    rw [hd] at h
    cases text with
    | nil => rw [nextFrom_nil h, nextFrom_nil hd]
    | cons ch cs =>
      cases hread : Lexeme.read? (ch :: cs) with
      | none => rw [nextFrom_none h hread, nextFrom_none hd hread]
      | some result => rw [nextFrom_some h hread, nextFrom_some hd hread]

theorem nextFrom_token {lexeme : Lexeme} (h : lexeme.Fits rest.head?) (run : Option Span) :
    nextFrom run ⟨p, lexeme.spelling ++ rest⟩ =
      .token ⟨⟨lexeme.terminal rest, ⟨p, p.after lexeme.spelling⟩⟩,
          unknownReports run ++ lexeme.reports ⟨p, p.after lexeme.spelling⟩⟩
        ⟨p.after lexeme.spelling, rest⟩ := by
  have hskip := walkTrivia_startsToken (p := p) (Lexeme.startsToken_of_fits h)
  have hread := Lexeme.read?_of_fits h
  cases htext : lexeme.spelling ++ rest with
  | nil => rw [htext] at hread; simp [Lexeme.read?] at hread
  | cons ch cs =>
    rw [htext] at hread hskip
    exact nextFrom_some (c := ⟨p, ch :: cs⟩) hskip hread run

theorem nextFrom_unknown {c : Char} {cs : Text} (hc : Text.isUnknown c = true)
    (hnext : c = ':' → cs.head? ≠ some '=') (run : Option Span) :
    nextFrom run ⟨p, c :: cs⟩ =
      nextFrom (some (Span.join run ⟨p, p.advance c⟩)) ⟨p.advance c, cs⟩ := by
  have hslash := Text.ne_slash_of_isUnknown hc
  simp only [Text.isUnknown, Bool.and_eq_true, Bool.not_eq_true', Option.isNone_iff_eq_none] at hc
  have hskip : walkTrivia false p (c :: cs) = ⟨p, c :: cs⟩ :=
    walkTrivia_startsToken ⟨hc.1, fun h => hslash h.1⟩
  exact nextFrom_none (c := ⟨p, c :: cs⟩) hskip (Lexeme.read?_singleton_iff.2 ⟨hc.2, hnext⟩) run

/-- A gap only adds its unknown characters to the run. -/
theorem nextFrom_gap {u : Bool} {g : Text} (h : Gap u g) (hrest : rest.head? ≠ some '=')
    (run : Option Span) :
    nextFrom run ⟨p, g ++ rest⟩ = nextFrom (gapRun false run p g) ⟨p.after g, rest⟩ := by
  induction h generalizing p run with
  | nil => rfl
  | @blank u c g hc h ih =>
    rw [gapRun, if_neg (by simp), if_pos hc, Position.after_cons, ← ih]
    refine nextFrom_congr ?_ run
    simp [skipTrivia, walkTrivia, hc]
  | @comment u line g hline h ih =>
    have hafter : p.after ('/' :: '/' :: (line ++ '\n' :: g)) =
        ((p.after ['/', '/']).after (line ++ ['\n'])).after g := by
      rw [← Position.after_append, ← Position.after_append]; simp
    rw [gapRun_slashes, gapRun_comment hline, hafter, ← ih]
    refine nextFrom_congr ?_ run
    rw [skipTrivia, List.cons_append, List.cons_append, List.append_assoc, List.cons_append,
      walkTrivia_slashes, walkTrivia_comment hline]
    rfl
  | @unknown u c g hc hnext h ih =>
    rw [gapRun_unknown hc, Position.after_cons, ← ih]
    refine nextFrom_unknown hc ?_ run
    intro hcolon
    cases g with
    | nil => exact hrest
    | cons d ds => exact hnext hcolon

theorem nextFrom_endGap {u : Bool} {g : Text} (h : EndGap u g) (run : Option Span) :
    nextFrom run ⟨p, g⟩ = .finish (p.after g) (unknownReports (gapRun false run p g)) := by
  cases h with
  | closed h =>
    have hnext := nextFrom_gap (p := p) h (show ([] : Text).head? ≠ some '=' by simp) run
    rw [List.append_nil] at hnext
    rw [hnext]
    exact nextFrom_nil rfl _
  | @opened g line h hline =>
    rw [nextFrom_gap h (by simp), gapRun_gap h, gapRun_slashes, gapRun_comment_end hline]
    refine nextFrom_nil ?_ _
    rw [skipTrivia, walkTrivia_slashes, walkTrivia_comment_end hline]
    simp

end Cursor

namespace Gap

theorem append {u v : Bool} {g h : Text} (hg : Gap u g) (hh : Gap v h)
    (hseam : u = true → g.getLast? = some ':' → h.head? ≠ some '=') : Gap (u || v) (g ++ h) := by
  induction hg with
  | nil => exact hh
  | @blank u c g hc hg ih =>
    refine .blank hc (ih fun hu hlast => hseam hu ?_)
    rw [List.getLast?_cons, hlast]
    rfl
  | @comment u line g hline hg ih =>
    rw [List.cons_append, List.cons_append, List.append_assoc, List.cons_append]
    refine .comment hline (ih fun hu hlast => hseam hu ?_)
    simp [List.getLast?_cons, List.getLast?_append, hlast]
  | @unknown u c g hc hnext hg ih =>
    refine .unknown hc (fun hcolon => ?_) (ih fun hu hlast => hseam rfl ?_)
    · cases g with
      | nil => exact hseam rfl (by simp [hcolon])
      | cons d ds => exact hnext hcolon
    · rw [List.getLast?_cons, hlast]
      rfl

theorem append_end {u v : Bool} {g h : Text} (hg : Gap u g) (hh : EndGap v h)
    (hseam : u = true → g.getLast? = some ':' → h.head? ≠ some '=') :
    EndGap (u || v) (g ++ h) := by
  cases hh with
  | closed hh => exact .closed (hg.append hh hseam)
  | @opened h line hh hline =>
    rw [← List.append_assoc]
    refine .opened (hg.append hh fun hu hlast => ?_) hline
    have := hseam hu hlast
    cases h with
    | nil => simp
    | cons d ds => exact this

end Gap

namespace Identifier

theorem isPart_iff {c : Char} : isPart c = true ↔ isStart c = true ∨ c.isDigit = true := by
  simp only [isPart, isStart, Char.isAlphanum, Bool.or_eq_true]
  constructor
  · rintro ((h | h) | h)
    · exact .inl (.inl h)
    · exact .inr h
    · exact .inl (.inr h)
  · rintro ((h | h) | h)
    · exact .inl (.inl h)
    · exact .inr h
    · exact .inl (.inr h)

theorem isPart_eq_false_of_read? {c : Char} (h : Lexeme.read? [c] = none) : isPart c = false := by
  rw [Bool.eq_false_iff, ne_eq, isPart_iff]
  rintro (hc | hc)
  · simp [Lexeme.read?, hc] at h
  · simp [Lexeme.read?, hc, isStart_of_isDigit hc] at h

end Identifier

theorem Gap.isPart_head {u : Bool} {g : Text} (h : Gap u g) :
    ∀ c ∈ g.head?, Identifier.isPart c = false := by
  intro c hc
  cases h with
  | nil => simp at hc
  | blank hblank h =>
    obtain rfl := Option.some.inj hc
    exact Identifier.isPart_eq_false_of_read? (Lexeme.read?_eq_none_of_isWhitespace hblank)
  | comment hline h =>
    obtain rfl := Option.some.inj hc
    decide
  | unknown hunknown hnext h =>
    obtain rfl := Option.some.inj hc
    simp only [Text.isUnknown, Bool.and_eq_true, Option.isNone_iff_eq_none] at hunknown
    exact Identifier.isPart_eq_false_of_read? hunknown.2

theorem EndGap.isPart_head {u : Bool} {g : Text} (h : EndGap u g) :
    ∀ c ∈ g.head?, Identifier.isPart c = false := by
  cases h with
  | closed h => exact h.isPart_head
  | @opened g line h hline =>
    intro c hc
    cases g with
    | nil =>
      obtain rfl := Option.some.inj hc
      decide
    | cons d ds => exact h.isPart_head c hc

/-- Every text is a gap or has a first token. -/
theorem exists_gap (text : Text) :
    (∃ u, EndGap u text) ∨ ∃ u g lexeme rest, text = g ++ (Lexeme.spelling lexeme ++ rest) ∧
      Gap u g ∧ lexeme.Fits rest.head? := by
  induction hn : text.length using Nat.strongRecOn generalizing text with
  | ind n ih =>
    subst hn
    rcases Cursor.exists_gap_walkTrivia {} text with ⟨h, -⟩ | ⟨g, rest, rfl, hg, hrest, -⟩
    · exact .inl ⟨false, h⟩
    · cases hread : Lexeme.read? rest with
      | some result =>
        obtain ⟨lexeme, behind⟩ := result
        rw [← Lexeme.spelling_append_of_read? hread]
        exact .inr ⟨false, g, lexeme, behind, rfl, hg, Lexeme.fits_of_read? hread hrest⟩
      | none =>
        cases rest with
        | nil => exact hrest.elim
        | cons c cs =>
          obtain ⟨hone, hcolon⟩ := Lexeme.read?_singleton_iff.1 hread
          have hc : Text.isUnknown c = true := by simp [Text.isUnknown, hrest.1, hone]
          rcases ih cs.length (by simp; omega) cs rfl with
            ⟨u, h⟩ | ⟨u, h, lexeme, rest, rfl, hh, hfits⟩
          · exact .inl ⟨_, hg.append_end (h.unknown hc hcolon) (by simp)⟩
          · have hstart : Gap true (c :: h) := by
              refine .unknown hc (fun heq => ?_) hh
              cases h with
              | nil => simp
              | cons d ds => exact hcolon heq
            refine .inr ⟨_, g ++ c :: h, lexeme, rest, ?_, hg.append hstart (by simp), hfits⟩
            simp

end AssignLang
