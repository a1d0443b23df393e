import AssignLang.Render.Report
import AssignLang.Text.Edit
import AssignLang.Proofs.Check.Unused
import AssignLang.Proofs.Parse.Nesting
import AssignLang.Proofs.Token.Tiling

/-! Every position that is handed out is a point of the text: line and character are those
at its offset, and no character is cut. Tokens and the scanner's reports get theirs from
the tiling of the text, trees from their tokens, and every other report from a token or a
tree. Spans are nested as the tree is, and each report lies in the file. -/

namespace AssignLang

/-- The point `q` is reached from `p` over a first part of the text. -/
def Position.Within (p : Position) (text : Text) (q : Position) : Prop :=
  ∃ before behind, text = before ++ behind ∧ q = p.after before

/-- The position is the one at its offset, which cuts no character of the text. -/
structure Position.Consistent (text : Text) (p : Position) : Prop where
  eq_positionAt : p = text.positionAt p.offset
  boundary : (text.splitAt? p.offset).isSome = true
  le_size : p.offset ≤ text.size

/-- Both ends of the span are points of the text that stands at `p`, and it runs forwards. -/
structure Span.Within (p : Position) (text : Text) (s : Span) : Prop where
  start : p.Within text s.start
  stop : p.Within text s.stop
  forwards : s.start.offset ≤ s.stop.offset

namespace Position

variable {p q : Position} {s t : Text}

theorem within_self (p : Position) (text : Text) : p.Within text p := ⟨[], text, rfl, rfl⟩

theorem Within.append (h : p.Within s q) (t : Text) : p.Within (s ++ t) q := by
  obtain ⟨before, behind, rfl, rfl⟩ := h
  exact ⟨before, behind ++ t, by simp, rfl⟩

theorem Within.behind (h : (p.after s).Within t q) : p.Within (s ++ t) q := by
  obtain ⟨before, behind, rfl, rfl⟩ := h
  exact ⟨s ++ before, behind, by simp, by simp⟩

theorem within_after (p : Position) (s t : Text) : p.Within (s ++ t) (p.after s) := ⟨s, t, rfl, rfl⟩

theorem within_finish (text : Text) : Within {} text text.finish := ⟨text, [], by simp, rfl⟩

end Position

theorem Text.walkTo_append (p : Position) (before behind : Text) :
    walkTo (p.offset + before.size) p (before ++ behind) = p.after before := by
  induction before generalizing p with
  | nil =>
    cases behind with
    | nil => rfl
    | cons c cs =>
      have hpos := Char.utf8Size_pos c
      rw [List.nil_append, walkTo, if_pos (by simp [hpos])]
      rfl
  | cons c cs ih =>
    have hoffset : p.offset + Text.size (c :: cs) = (p.advance c).offset + Text.size cs := by
      simp [Nat.add_assoc]
    rw [List.cons_append, walkTo, if_neg (by simp), hoffset, ih]
    rfl

theorem Position.Within.consistent {text : Text} {q : Position}
    (h : Position.Within {} text q) : q.Consistent text := by
  obtain ⟨before, behind, rfl, rfl⟩ := h
  have hoffset : (Position.after {} before).offset = before.size := by simp
  refine ⟨?_, ?_, ?_⟩
  · have hwalk := Text.walkTo_append {} before behind
    rw [hoffset, Text.positionAt, ← hwalk]
    simp
  · rw [hoffset, Text.splitAt?_eq_some_iff.2 ⟨rfl, rfl⟩]
    rfl
  · rw [hoffset, Text.size_append]
    omega

namespace Span

variable {p : Position} {s t : Text} {span : Span}

theorem Within.append (h : span.Within p s) (t : Text) : span.Within p (s ++ t) :=
  ⟨h.start.append t, h.stop.append t, h.forwards⟩

theorem Within.behind (h : span.Within (p.after s) t) : span.Within p (s ++ t) :=
  ⟨h.start.behind, h.stop.behind, h.forwards⟩

end Span

namespace Filler

/-- The unknown characters among fillers stand where these do. -/
theorem within_of_mem_unknownSpans {p : Position} {fillers : List Filler} :
    ∀ s ∈ unknownSpans p fillers, s.Within p (text fillers) := by
  induction fillers generalizing p with
  | nil => simp [unknownSpans]
  | cons filler more ih =>
    have hmore : ∀ s ∈ unknownSpans (p.after filler.spelling) more,
        s.Within p (text (filler :: more)) := by
      intro s hs
      rw [text_cons]
      exact (ih s hs).behind
    cases filler with
    | blank c => exact hmore
    | comment line => exact hmore
    | unknown c =>
      rw [unknownSpans, List.forall_mem_cons]
      exact ⟨⟨Position.within_self _ _, Position.within_after p [c] (text more), by simp⟩, hmore⟩

theorem within_of_mem_reports {p : Position} {fillers : List Filler} :
    ∀ d ∈ reports p fillers, d.span.Within p (text fillers) := by
  intro d hd
  have hwithin := @within_of_mem_unknownSpans p fillers
  have hpairwise := (pairwise_unknownSpans p fillers).1
  rw [reports] at hd
  cases hspans : unknownSpans p fillers with
  | nil => simp [hspans] at hd
  | cons first more =>
    rw [hspans] at hd hwithin hpairwise
    obtain rfl := List.mem_singleton.1 hd
    have hmem : more.getLastD first ∈ first :: more := List.getLastD_mem_cons ..
    have hlast := hwithin _ hmem
    refine ⟨(hwithin first List.mem_cons_self).start, hlast.stop, ?_⟩
    change first.start.offset ≤ (more.getLastD first).stop.offset
    rcases List.mem_cons.1 hmem with heq | hmem
    · rw [heq] at hlast ⊢
      exact hlast.forwards
    · have hle := ((List.pairwise_cons.1 hpairwise).1 _ hmem).1
      exact Nat.le_trans hle hlast.forwards

end Filler

/-- All tokens of a tiling, and all its reports, stand in its text. -/
theorem Tiled.within {p : Position} {text : Text} {readings : List Reading}
    {closing : List Diagnostic} (h : Tiled p text readings closing) :
    (∀ r ∈ readings, r.token.span.Within p text ∧ ∀ d ∈ r.reports, d.span.Within p text) ∧
      ∀ d ∈ closing, d.span.Within p text := by
  induction h with
  | finish hgap => exact ⟨by simp, Filler.within_of_mem_reports⟩
  | @token p gap t spelling rest readings closing hgap hspan hspelled hmore ih =>
    have hmoved : ∀ {s : Span}, s.Within t.span.stop rest →
        s.Within p (Filler.text gap ++ (spelling ++ rest)) := by
      intro s hs
      rw [hspan] at hs
      exact hs.behind.behind
    have htoken : t.span.Within p (Filler.text gap ++ (spelling ++ rest)) := by
      rw [hspan]
      exact ⟨Position.within_after _ _ _, (Position.within_after _ _ _).behind, by simp⟩
    obtain ⟨hreadings, hclosing⟩ := ih
    refine ⟨List.forall_mem_cons.2 ⟨⟨htoken, fun d hd => ?_⟩, fun r hr => ?_⟩,
      fun d hd => hmoved (hclosing d hd)⟩
    · rcases List.mem_append.1 hd with hd | hd
      · exact (Filler.within_of_mem_reports d hd).append _
      · by_cases hopen : t.IsOpen spelling
        · rw [hopen.openReports_eq] at hd
          rwa [List.mem_singleton.1 hd]
        · rw [Token.openReports_eq_nil hopen] at hd
          simp at hd
    · obtain ⟨hwithin, hreports⟩ := hreadings r hr
      exact ⟨hmoved hwithin, fun d hd => hmoved (hreports d hd)⟩

namespace ParseState

/-- All spans of tokens and reports in the state are such, and so is that of its end. -/
structure All (P : Span → Prop) (s : ParseState) : Prop where
  ahead : ∀ r ∈ s.ahead, P r.token.span ∧ ∀ d ∈ r.reports, P d.span
  finish : P (.empty s.finish)
  closing : ∀ d ∈ s.closing, P d.span
  log : ∀ d ∈ s.log, P d.span

variable {P : Span → Prop} {s t : ParseState}

theorem All.arrive (h : s.All P) : s.arrive.All P := by
  have hlog : ∀ reports : List Diagnostic, (∀ d ∈ reports, P d.span) →
      ∀ d ∈ reports.reverse ++ s.log, P d.span := by
    intro reports hreports d hd
    rcases List.mem_append.1 hd with hd | hd
    · exact hreports d (List.mem_reverse.1 hd)
    · exact h.log d hd
  unfold ParseState.arrive
  split
  · exact ⟨h.ahead, h.finish, h.closing, hlog _ h.closing⟩
  · rename_i r more hs
    exact ⟨h.ahead, h.finish, h.closing, hlog _ (h.ahead r (by simp [hs])).2⟩

theorem All.advance (h : s.All P) : s.advance.All P := by
  unfold ParseState.advance
  split
  · exact h
  · rename_i r more hs
    refine All.arrive ⟨fun r' hr' => h.ahead r' ?_, h.finish, h.closing, h.log⟩
    rw [hs]
    exact List.mem_cons_of_mem r hr'

theorem All.reject (h : s.All P) (wanted : TokenKind) : (s.reject wanted).All P := by
  have hspan : P s.span := by
    unfold ParseState.span
    split
    · exact h.finish
    · rename_i r more hs
      exact (h.ahead r (by simp [hs])).1
  exact ⟨h.ahead, h.finish, h.closing, List.forall_mem_cons.2 ⟨hspan, h.log⟩⟩

theorem Moves.all (hmoves : Moves s t) (h : s.All P) : t.All P := by
  induction hmoves with
  | refl => exact h
  | advance _ ih => exact ih.advance
  | reject wanted _ ih => exact ih.reject wanted

theorem finish_arrive (s : ParseState) : s.arrive.finish = s.finish := by
  unfold arrive; split <;> rfl

theorem Moves.finish_eq (hmoves : Moves s t) : t.finish = s.finish := by
  induction hmoves with
  | refl => rfl
  | @advance t _ ih =>
    rw [← ih]
    unfold ParseState.advance
    split
    · rfl
    · rw [finish_arrive]
  | reject wanted _ ih => exact ih

end ParseState

namespace File

def spans (file : File) : List Span := file.span :: file.assignments.flatMap Assignment.spans

structure Nested (file : File) : Prop where
  inside : ∀ a ∈ file.assignments, a.span.Inside file.span ∧ a.Nested
  order : file.assignments.Pairwise fun a b => a.span.stop.offset ≤ b.span.start.offset

end File

/-- All spans that the analysis of a text hands out: those of the tokens, the end of the text
included, of the tree, of the diagnostics and of the definitions. -/
def emittedSpans (config : Config) (text : Text) : List Span :=
  (TokenStream.ofText text).tokens.map Token.span ++
    .empty (TokenStream.ofText text).finish :: ((analyze config text).file.spans ++
      ((analyze config text).diagnostics.map (·.span) ++
        (analyze config text).definitions.toList.map (·.2.span)))

theorem Span.Inside.trans {s t u : Span} (h : s.Inside t) (h' : t.Inside u) : s.Inside u :=
  ⟨Nat.le_trans h'.start h.start, h.forwards, Nat.le_trans h.stop h'.stop⟩

theorem Expr.Nested.inside {e : Expr} (h : e.Nested)
    (hforwards : e.span.start.offset ≤ e.span.stop.offset) : ∀ s ∈ e.spans, s.Inside e.span := by
  have hself : e.span.Inside e.span := ⟨Nat.le_refl _, hforwards, Nat.le_refl _⟩
  induction e with
  | integer | string | reference => exact fun s hs => List.mem_singleton.1 hs ▸ hself
  | operation span op left right ihl ihr =>
    obtain ⟨hl, hr, -, hleft, hright⟩ := h
    refine List.forall_mem_cons.2 ⟨hself, fun s hs => ?_⟩
    rcases List.mem_append.1 hs with hs | hs
    · exact (ihl hleft hl.forwards ⟨Nat.le_refl _, hl.forwards, Nat.le_refl _⟩ s hs).trans hl
    · exact (ihr hright hr.forwards ⟨Nat.le_refl _, hr.forwards, Nat.le_refl _⟩ s hs).trans hr
  | broken span op left ih =>
    obtain ⟨hl, hleft⟩ := h
    refine List.forall_mem_cons.2 ⟨hself, fun s hs => ?_⟩
    exact (ih hleft hl.forwards ⟨Nat.le_refl _, hl.forwards, Nat.le_refl _⟩ s hs).trans hl

theorem Assignment.Nested.inside {a : Assignment} (h : a.Nested)
    (hforwards : a.span.start.offset ≤ a.span.stop.offset) : ∀ s ∈ a.spans, s.Inside a.span := by
  refine List.forall_mem_cons.2 ⟨⟨Nat.le_refl _, hforwards, Nat.le_refl _⟩,
    List.forall_mem_cons.2 ⟨h.target, ?_⟩⟩
  cases hvalue : a.value? with
  | none => simp
  | some value =>
    obtain ⟨hinside, -, hnested⟩ := h.value value hvalue
    exact fun s hs => (hnested.inside hinside.forwards s hs).trans hinside

namespace Definitions

theorem span_of_mem_complaints {defs : Definitions} {e : Expr} :
    ∀ d ∈ defs.complaints e, d.span ∈ e.spans := by
  induction e with
  | integer | string => simp [complaints]
  | reference ident =>
    intro d hd
    rw [complaints, complaintsOf] at hd
    split at hd
    · simp at hd
    · rw [List.mem_singleton.1 hd]
      exact List.mem_singleton_self _
  | operation span op left right ihl ihr =>
    intro d hd
    rw [complaints, List.mem_append, List.mem_append] at hd
    rcases hd with (hd | hd) | hd
    · exact List.mem_cons_of_mem _ (List.mem_append_left _ (ihl d hd))
    · exact List.mem_cons_of_mem _ (List.mem_append_right _ (ihr d hd))
    · rw [complaintsOf] at hd
      split at hd
      · simp at hd
      · rw [List.mem_singleton.1 hd]
        exact List.mem_cons_self
  | broken span op left ih => exact fun d hd => List.mem_cons_of_mem _ (ih d hd)

theorem span_of_mem_tableComplaints {as : List Assignment} :
    ∀ d ∈ tableComplaints as, ∃ a ∈ as, d.span ∈ a.spans := by
  induction as using List.reverseRecOn with
  | nil => simp
  | append_singleton as a ih =>
    intro d hd
    rw [tableComplaints_concat, List.mem_append] at hd
    rcases hd with hd | hd
    · obtain ⟨b, hb, hspan⟩ := ih d hd
      exact ⟨b, List.mem_append_left _ hb, hspan⟩
    · refine ⟨a, List.mem_append_right _ (List.mem_singleton_self a), ?_⟩
      rw [valueComplaints] at hd
      rw [Assignment.spans]
      cases hvalue : a.value? with
      | none => simp [hvalue] at hd
      | some value =>
        rw [hvalue] at hd
        exact List.mem_cons_of_mem _ (List.mem_cons_of_mem _ (span_of_mem_complaints d hd))

end Definitions

section Text

variable (text : Text)

theorem ParseState.all_ofText : (ofStream (.ofText text)).All (Span.Within {} text) := by
  obtain ⟨hreadings, hclosing⟩ := (TokenStream.tiled text).within
  refine All.arrive ⟨hreadings, ?_, hclosing, by simp⟩
  rw [TokenStream.finish_ofText]
  exact ⟨Position.within_finish _, Position.within_finish _, Nat.le_refl _⟩

theorem File.span_parse : (File.parse text).file.span = ⟨{}, text.finish⟩ := by
  have hmoves := ParseState.moves_statements [] (.ofStream (.ofText text))
  have hstart : (ParseState.ofStream (.ofText text)).finish = text.finish :=
    (ParseState.finish_arrive _).trans (TokenStream.finish_ofText text)
  exact congrArg (Span.mk {}) (hmoves.finish_eq.trans hstart)

theorem Span.Within.inside_file {s : Span} (h : s.Within {} text) :
    s.Inside (File.parse text).file.span := by
  rw [File.span_parse]
  refine ⟨Nat.zero_le _, h.forwards, ?_⟩
  have hle := h.stop.consistent.le_size
  rwa [Text.finish, Position.offset_after, Nat.zero_add]

theorem File.within_of_mem_reports : ∀ d ∈ (File.parse text).reports, d.span.Within {} text := by
  have hall := (ParseState.moves_statements [] (.ofStream (.ofText text))).all
    (ParseState.all_ofText text)
  exact fun d hd => hall.log d (List.mem_reverse.1 hd)

theorem TokenStream.within_of_mem_tokens :
    ∀ t ∈ (ofText text).tokens, t.span.Within {} text := by
  intro t ht
  obtain ⟨r, hr, rfl⟩ := List.mem_map.1 ht
  exact ((tiled text).within.1 r hr).1

theorem File.nested_parse : (File.parse text).file.Nested ∧
    ∀ a ∈ (File.parse text).file.assignments, ∀ s ∈ a.spans, s.Within {} text := by
  have hstatements := Recovered.readStatements_eq_iff.1 (File.read_parse text).1.symm
  obtain ⟨hpairwise, hall⟩ := hstatements.placed (TokenStream.row text)
  have hwithin : ∀ a ∈ (File.parse text).file.assignments, ∀ s ∈ a.spans, s.Within {} text := by
    intro a ha s hs
    obtain ⟨hnested, -, hlt, -, hspans⟩ := hall a ha
    obtain ⟨⟨t, ht, hstart⟩, u, hu, hstop⟩ := hspans s hs
    have hforwards := (hnested.inside (Nat.le_of_lt hlt) s hs).forwards
    refine ⟨?_, ?_, hforwards⟩
    · rw [hstart]
      exact (TokenStream.within_of_mem_tokens text t ht).start
    · rw [hstop]
      exact (TokenStream.within_of_mem_tokens text u hu).stop
  refine ⟨⟨fun a ha => ⟨?_, (hall a ha).1⟩, hpairwise⟩, hwithin⟩
  exact (hwithin a ha a.span List.mem_cons_self).inside_file

theorem within_of_mem_diagnostics (config : Config) :
    ∀ d ∈ (analyze config text).diagnostics, d.span.Within {} text := by
  have hassignment := (File.nested_parse text).2
  have hown : ∀ a ∈ (File.parse text).file.assignments, a.span.Within {} text :=
    fun a ha => hassignment a ha a.span List.mem_cons_self
  intro d hd
  rcases List.mem_append.1 hd with hd | hd
  · exact File.within_of_mem_reports text d hd
  rcases List.mem_append.1 hd with hd | hd
  rcases List.mem_append.1 hd with hd | hd
  · obtain ⟨a, ha, hspan⟩ := Definitions.span_of_mem_tableComplaints d hd
    exact hassignment a ha d.span hspan
  · rw [File.missingReports] at hd
    split at hd
    · simp at hd
    · rw [List.mem_singleton.1 hd, File.missingSpan]
      cases hlast : (File.parse text).file.assignments.getLast? with
      | none =>
        change Span.Within {} text (File.parse text).file.span
        rw [File.span_parse]
        exact ⟨Position.within_self _ _, Position.within_finish _, Nat.zero_le _⟩
      | some a => exact hown a (List.mem_of_getLast? hlast)
  · rw [File.unusedReports] at hd
    split at hd
    · obtain ⟨span, hspan, rfl⟩ := List.mem_map.1 hd
      obtain ⟨front, a, behind, hunused, rfl⟩ := mem_unusedSpans_iff.1 hspan
      exact hown a (by rw [hunused.split]; simp)
    · simp at hd

theorem within_of_mem_definitions (config : Config) :
    ∀ entry ∈ (analyze config text).definitions.toList, entry.2.span.Within {} text := by
  rintro ⟨name, d⟩ hd
  rw [Std.TreeMap.mem_toList_iff_getElem?_eq_some] at hd
  obtain ⟨front, a, behind, hlast, rfl⟩ := Definitions.getElem?_table_eq_some_iff.1 hd
  exact (File.nested_parse text).2 a (by rw [hlast.split]; simp) a.span List.mem_cons_self

end Text

/-- Every position that is handed out is the one at its offset, and all spans are nested. -/
theorem positions_consistent (config : Config) (text : Text) :
    (∀ s ∈ emittedSpans config text, s.start.Consistent text ∧ s.stop.Consistent text) ∧
      (analyze config text).file.span.start = {} ∧
      (analyze config text).file.span.stop.offset = text.size ∧
      (∀ d ∈ (analyze config text).diagnostics,
        d.span.Inside (analyze config text).file.span ∧ d.notice.region.stop ≤ text.size) ∧
      (analyze config text).file.Nested := by
  have hfile : (analyze config text).file.span = ⟨{}, text.finish⟩ := File.span_parse text
  obtain ⟨hnested, hassignments⟩ := File.nested_parse text
  have hdiagnostics := within_of_mem_diagnostics text config
  have hsound : ∀ s ∈ emittedSpans config text, s.Within {} text := by
    intro s hs
    rcases List.mem_append.1 hs with hs | hs
    · obtain ⟨t, ht, rfl⟩ := List.mem_map.1 hs
      exact TokenStream.within_of_mem_tokens text t ht
    rcases List.mem_cons.1 hs with rfl | hs
    · rw [TokenStream.finish_ofText]
      exact ⟨Position.within_finish _, Position.within_finish _, Nat.le_refl _⟩
    rcases List.mem_append.1 hs with hs | hs
    · rcases List.mem_cons.1 hs with rfl | hs
      · rw [hfile]
        exact ⟨Position.within_self _ _, Position.within_finish _, Nat.zero_le _⟩
      · obtain ⟨a, ha, hs⟩ := List.mem_flatMap.1 hs
        exact hassignments a ha s hs
    rcases List.mem_append.1 hs with hs | hs
    · obtain ⟨d, hd, rfl⟩ := List.mem_map.1 hs
      exact hdiagnostics d hd
    · obtain ⟨entry, hentry, rfl⟩ := List.mem_map.1 hs
      exact within_of_mem_definitions text config entry hentry
  refine ⟨fun s hs => ⟨(hsound s hs).start.consistent, (hsound s hs).stop.consistent⟩, ?_, ?_,
    fun d hd => ⟨(hdiagnostics d hd).inside_file, ?_⟩, hnested⟩
  · rw [hfile]
  · rw [hfile, Text.finish, Position.offset_after, Nat.zero_add]
  · have hle := (hdiagnostics d hd).stop.consistent.le_size
    have hforwards := (hdiagnostics d hd).forwards
    change d.span.start.offset + (d.span.stop.offset - d.span.start.offset) ≤ text.size
    omega

end AssignLang
