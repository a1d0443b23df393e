import Mathlib.Algebra.GroupWithZero.Nat
import Mathlib.Logic.Function.Iterate
import AssignLang.Proofs.Locate
import AssignLang.Proofs.Removal
import AssignLang.Proofs.Scoping

/-! Quick fixes on any text. What a fix deletes is the span of an assignment, and also the
assignments that recovery makes up cover at least one character and stand one behind the
other. So fixes found together do not get in each other's way. After a fix the rest of the
text can be read in another way, with other hints, but it is shorter, so fixing stops. -/

namespace AssignLang

namespace Span

/-- Some offset lies in both spans, their ends included. -/
def Meets (s t : Span) : Prop :=
  ∃ offset, s.start.offset ≤ offset ∧ offset ≤ s.stop.offset ∧
    t.start.offset ≤ offset ∧ offset ≤ t.stop.offset

theorem meets_iff {s t : Span} : s.Meets t ↔
    max s.start.offset t.start.offset ≤ min s.stop.offset t.stop.offset := by
  constructor
  · rintro ⟨offset, hs, hs', ht, ht'⟩
    omega
  · intro h
    exact ⟨max s.start.offset t.start.offset, by omega, by omega, by omega, by omega⟩

instance (s t : Span) : Decidable (s.Meets t) := decidable_of_iff _ meets_iff.symm

/-- A character that starts at the offset is one of those that the span covers. -/
def holds (s : Span) (offset : Nat) : Bool :=
  s.start.offset ≤ offset && offset < s.stop.offset

theorem holds_iff {s : Span} {offset : Nat} :
    s.holds offset = true ↔ s.start.offset ≤ offset ∧ offset < s.stop.offset := by
  simp [holds]

/-- The span covers characters of the text, at least one, and cuts none. -/
structure Cuts (s : Span) (text : Text) : Prop where
  nonempty : s.start.offset < s.stop.offset
  start : text.IsBoundary s.start.offset
  stop : text.IsBoundary s.stop.offset

def Disjoint (s t : Span) : Prop :=
  s.stop.offset ≤ t.start.offset ∨ t.stop.offset ≤ s.start.offset

theorem Disjoint.symm {s t : Span} (h : s.Disjoint t) : t.Disjoint s := Or.symm h

theorem Cuts.exists_parts {s : Span} {text : Text} (h : s.Cuts text) : ∃ u x v,
    text = u ++ (x ++ v) ∧ s.start.offset = u.size ∧ s.stop.offset = u.size + x.size := by
  obtain ⟨u, rest, rfl, hu⟩ := h.start
  obtain ⟨w, v, htext, hw⟩ := h.stop
  have hlt := h.nonempty
  obtain ⟨x, rfl, rfl⟩ := Text.append_eq_append_of_size_le htext (by omega)
  exact ⟨u, x, v, rfl, hu.symm, by rw [← hw, Text.size_append]⟩

end Span

namespace Text

theorem IsBoundary.le_size {text : Text} {offset : Nat} (h : text.IsBoundary offset) :
    offset ≤ text.size := by
  obtain ⟨before, behind, rfl, rfl⟩ := h
  simp

theorem IsBoundary.left {u w : Text} {offset : Nat} (h : IsBoundary (u ++ w) offset)
    (hle : offset ≤ u.size) : u.IsBoundary offset := by
  obtain ⟨before, behind, htext, rfl⟩ := h
  obtain ⟨m, rfl, -⟩ := append_eq_append_of_size_le htext.symm hle
  exact ⟨before, m, rfl, rfl⟩

/-- The text, whose first character is at `offset`, without the characters in the spans. This
is what deleting all spans at once leaves. -/
def without (spans : List Span) (offset : Nat) : Text → Text
  | [] => []
  | c :: cs =>
    if spans.any (·.holds offset) then without spans (offset + c.utf8Size) cs
    else c :: without spans (offset + c.utf8Size) cs

variable {spans spans' : List Span} {offset : Nat} {s t u x v : Text}

theorem without_append : without spans offset (s ++ t) =
    without spans offset s ++ without spans (offset + s.size) t := by
  induction s generalizing offset with
  | nil => simp [without]
  | cons c cs ih =>
    rw [List.cons_append, without, without, ih, size_cons, ← Nat.add_assoc]
    split <;> rfl

theorem without_congr (h : ∀ i, offset ≤ i → i < offset + t.size →
    (spans.any (·.holds i) = spans'.any (·.holds i))) :
    without spans offset t = without spans' offset t := by
  induction t generalizing offset with
  | nil => rfl
  | cons c cs ih =>
    have hpos := Char.utf8Size_pos c
    rw [size_cons] at h
    have hfirst := h offset (Nat.le_refl _) (by omega)
    have hrest : without spans (offset + c.utf8Size) cs =
        without spans' (offset + c.utf8Size) cs :=
      ih fun i hi hi' => h i (by omega) (by omega)
    rw [without, without, hfirst, hrest]

theorem without_nil : without [] offset t = t := by
  induction t generalizing offset with
  | nil => rfl
  | cons c cs ih => simp [without, ih]

theorem without_of_mem_iff (h : ∀ span, span ∈ spans ↔ span ∈ spans') :
    without spans offset t = without spans' offset t := by
  refine without_congr fun i _ _ => ?_
  rw [Bool.eq_iff_iff, List.any_eq_true, List.any_eq_true]
  simp only [h]

theorem without_cons_of_clear {span : Span}
    (h : span.stop.offset ≤ offset ∨ offset + t.size ≤ span.start.offset) :
    without (span :: spans) offset t = without spans offset t := by
  refine without_congr fun i hi hi' => ?_
  have hclear : span.holds i = false := by
    rw [← Bool.not_eq_true, Span.holds_iff]
    omega
  rw [List.any_cons, hclear, Bool.false_or]

theorem without_of_clear (h : ∀ span ∈ spans,
    span.stop.offset ≤ offset ∨ offset + t.size ≤ span.start.offset) :
    without spans offset t = t := by
  induction spans with
  | nil => exact without_nil
  | cons span spans ih =>
    rw [without_cons_of_clear (h span List.mem_cons_self)]
    exact ih fun other hother => h other (List.mem_cons_of_mem _ hother)

theorem without_of_covered {span : Span} (hmem : span ∈ spans)
    (hstart : span.start.offset ≤ offset) (hstop : offset + t.size ≤ span.stop.offset) :
    without spans offset t = [] := by
  induction t generalizing offset with
  | nil => rfl
  | cons c cs ih =>
    have hpos := Char.utf8Size_pos c
    rw [size_cons] at hstop
    have hholds : spans.any (·.holds offset) = true :=
      List.any_eq_true.2 ⟨span, hmem, Span.holds_iff.2 ⟨hstart, by omega⟩⟩
    rw [without, if_pos hholds]
    exact ih (by omega) (by omega)

section Parts

variable {span : Span} {done : List Span}

theorem without_parts (hstart : span.start.offset = u.size)
    (hstop : span.stop.offset = u.size + x.size) (hdone : ∀ s ∈ done, span.Disjoint s) :
    without done 0 (u ++ (x ++ v)) =
        without done 0 u ++ (x ++ without done (u.size + x.size) v) ∧
      without (span :: done) 0 (u ++ (x ++ v)) =
        without done 0 u ++ without done (u.size + x.size) v := by
  simp only [without_append, Nat.zero_add]
  constructor
  · rw [without_of_clear (t := x) fun s hs => ?_]
    have hdisjoint := hdone s hs
    rw [Span.Disjoint] at hdisjoint
    omega
  · rw [without_cons_of_clear (t := u) (by omega),
      without_of_covered (t := x) List.mem_cons_self (by omega) (by omega),
      without_cons_of_clear (t := v) (by omega), List.nil_append]

end Parts

end Text

namespace QuickFix

def before (done : List QuickFix) (offset : Nat) : List QuickFix :=
  done.filter (·.span.stop.offset ≤ offset)

/-- Where an offset is after fixes were applied that do not touch it. -/
def movedOffset (done : List QuickFix) (offset : Nat) : Nat :=
  offset + ((before done offset).map (·.replacement.size)).sum -
    ((before done offset).map (·.span.length)).sum

/-- Applies fixes for one text in turn, after the fixes `done` have been applied to it. -/
def applyEach (done : List QuickFix) : List QuickFix → Text → Option Text
  | [], text => some text
  | fix :: rest, text => do
    let edited ← text.replace? (movedOffset done fix.span.start.offset)
      (movedOffset done fix.span.stop.offset) fix.replacement
    applyEach (fix :: done) rest edited

/-- The fix deletes characters of the text, and nothing else. -/
structure Deletes (fix : QuickFix) (text : Text) : Prop where
  cuts : fix.span.Cuts text
  replacement : fix.replacement = []

theorem before_cons_of_le {fix : QuickFix} {offset : Nat} (h : fix.span.stop.offset ≤ offset)
    (done : List QuickFix) : before (fix :: done) offset = fix :: before done offset :=
  List.filter_cons_of_pos (by simpa using h)

theorem before_cons_of_lt {fix : QuickFix} {offset : Nat} (h : offset < fix.span.stop.offset)
    (done : List QuickFix) : before (fix :: done) offset = before done offset :=
  List.filter_cons_of_neg (by simpa using h)

section Moved

variable {done : List QuickFix} {u w : Text}

theorem sum_replacement_before (hdone : ∀ fix ∈ done, fix.replacement = []) (offset : Nat) :
    ((before done offset).map (·.replacement.size)).sum = 0 := by
  rw [List.sum_eq_zero_iff_forall_eq_nat, List.forall_mem_map]
  intro fix hfix
  rw [hdone fix (List.mem_filter.1 hfix).1, Text.size_nil]

theorem size_without_add_sum (hdone : ∀ fix ∈ done, fix.Deletes (u ++ w))
    (hdisjoint : done.Pairwise fun f g => f.span.Disjoint g.span)
    (hside : ∀ fix ∈ done, fix.span.stop.offset ≤ u.size ∨ u.size ≤ fix.span.start.offset) :
    (u.without (done.map (·.span)) 0).size +
      ((before done u.size).map (·.span.length)).sum = u.size := by
  induction done with
  | nil => simp [Text.without_nil, before]
  | cons fix done ih =>
    obtain ⟨hfix, hrest⟩ := List.forall_mem_cons.1 hdone
    obtain ⟨hclear, hdisjoint⟩ := List.pairwise_cons.1 hdisjoint
    obtain ⟨hfixside, hside⟩ := List.forall_mem_cons.1 hside
    have hsum := ih hrest hdisjoint hside
    have hlt := hfix.cuts.nonempty
    rw [List.map_cons]
    rcases hfixside with hle | hge
    · -- the span is one of `u`, and still there when the others are gone
      have hcuts : fix.span.Cuts u :=
        ⟨hlt, hfix.cuts.start.left (by omega), hfix.cuts.stop.left hle⟩
      rw [before_cons_of_le hle, List.map_cons, List.sum_cons]
      obtain ⟨s, x, t, rfl, hstart, hstop⟩ := hcuts.exists_parts
      have hspans : ∀ span ∈ done.map (·.span), fix.span.Disjoint span :=
        List.forall_mem_map.2 hclear
      obtain ⟨hbefore, hafter⟩ := Text.without_parts (v := t) hstart hstop hspans
      rw [hbefore, Text.size_append, Text.size_append] at hsum
      rw [hafter, Text.size_append, Span.length, hstart, hstop]
      omega
    · rw [before_cons_of_lt (by omega), Text.without_cons_of_clear (.inr (by omega))]
      exact hsum

theorem movedOffset_size (hdone : ∀ fix ∈ done, fix.Deletes (u ++ w))
    (hdisjoint : done.Pairwise fun f g => f.span.Disjoint g.span)
    (hside : ∀ fix ∈ done, fix.span.stop.offset ≤ u.size ∨ u.size ≤ fix.span.start.offset) :
    movedOffset done u.size = (u.without (done.map (·.span)) 0).size := by
  have hsum := size_without_add_sum hdone hdisjoint hside
  rw [movedOffset, sum_replacement_before fun fix hfix => (hdone fix hfix).replacement]
  omega

end Moved

section Run

variable {text : Text} {fix : QuickFix} {done : List QuickFix}

theorem replace?_without (hfix : fix.Deletes text) (hdone : ∀ d ∈ done, d.Deletes text)
    (hclear : ∀ d ∈ done, fix.span.Disjoint d.span)
    (hdisjoint : done.Pairwise fun f g => f.span.Disjoint g.span) :
    (text.without (done.map (·.span)) 0).replace? (movedOffset done fix.span.start.offset)
        (movedOffset done fix.span.stop.offset) fix.replacement =
      some (text.without ((fix :: done).map (·.span)) 0) := by
  have hlt := hfix.cuts.nonempty
  obtain ⟨u, x, v, rfl, hstart, hstop⟩ := hfix.cuts.exists_parts
  have hspans : ∀ span ∈ done.map (·.span), fix.span.Disjoint span :=
    List.forall_mem_map.2 hclear
  obtain ⟨hbefore, hafter⟩ := Text.without_parts (v := v) hstart hstop hspans
  have hmovedStart : movedOffset done fix.span.start.offset =
      (u.without (done.map (·.span)) 0).size := by
    rw [hstart]
    refine movedOffset_size hdone hdisjoint fun d hd => ?_
    have hdisjoint := hclear d hd
    rw [Span.Disjoint] at hdisjoint
    omega
  have hmovedStop : movedOffset done fix.span.stop.offset =
      (u.without (done.map (·.span)) 0).size + x.size := by
    have hux := (Text.without_parts (v := []) hstart hstop hspans).1
    rw [List.append_nil, Text.without, List.append_nil] at hux
    rw [hstop, ← Text.size_append, ← Text.size_append, ← hux]
    refine movedOffset_size (w := v) (by simpa using hdone) hdisjoint fun d hd => ?_
    have hdisjoint := hclear d hd
    rw [Span.Disjoint] at hdisjoint
    rw [Text.size_append]
    omega
  rw [List.map_cons, hmovedStart, hmovedStop, hbefore, hafter, hfix.replacement,
    Text.replace?_append, List.append_nil]

theorem applyEach_without (done rest : List QuickFix) (h : ∀ f ∈ done ++ rest, f.Deletes text)
    (hdisjoint : (done ++ rest).Pairwise fun f g => f.span.Disjoint g.span) :
    applyEach done rest (text.without (done.map (·.span)) 0) =
      some (text.without ((done ++ rest).map (·.span)) 0) := by
  induction rest generalizing done with
  | nil => rw [applyEach, List.append_nil]
  | cons fix rest ih =>
    have hperm : (done ++ fix :: rest).Perm (fix :: done ++ rest) := List.perm_middle
    have hmoved := hperm.pairwise hdisjoint fun hfg => hfg.symm
    have hdeletes : ∀ f ∈ fix :: done ++ rest, f.Deletes text :=
      fun f hf => h f (hperm.mem_iff.2 hf)
    obtain ⟨hfix, hothers⟩ := List.forall_mem_cons.1 hdeletes
    obtain ⟨hclear, hpairwise⟩ := List.pairwise_cons.1 hmoved
    have hstep := replace?_without hfix (fun d hd => hothers d (List.mem_append_left _ hd))
      (fun d hd => hclear d (List.mem_append_left _ hd)) (List.pairwise_append.1 hpairwise).1
    rw [applyEach, hstep]
    simp only [Option.bind_eq_bind, Option.bind_some]
    rw [ih (fix :: done) hdeletes hmoved]
    exact congrArg some (Text.without_of_mem_iff fun span => (hperm.map _).mem_iff.symm)

end Run

end QuickFix

/-- Edits of a text that do not get in each other's way. -/
structure Independent (text : Text) (fixes : List QuickFix) : Prop where
  /-- They come in the order of the text, and no two cover the same character. -/
  order : fixes.Pairwise fun f g => f.span.stop.offset ≤ g.span.start.offset
  /-- Each covers at least one byte of the text, and cuts no character. -/
  spans : ∀ fix ∈ fixes, fix.span.start.offset < fix.span.stop.offset ∧
    fix.span.stop.offset ≤ text.size ∧ text.IsBoundary fix.span.start.offset ∧
    text.IsBoundary fix.span.stop.offset
  /-- Each can be made alone. -/
  apply : ∀ fix ∈ fixes,
    text.replace? fix.span.start.offset fix.span.stop.offset fix.replacement =
      some (fix.apply text)
  /-- Made in turn, in whatever order, they come to what all at once come to. -/
  together : ∀ order : List QuickFix, order.Perm fixes →
    QuickFix.applyEach [] order text = some (text.without (fixes.map (·.span)) 0)

theorem QuickFix.Deletes.apply {text : Text} {fix : QuickFix} (h : fix.Deletes text) :
    text.replace? fix.span.start.offset fix.span.stop.offset fix.replacement =
        some (fix.apply text) ∧ (fix.apply text).length < text.length := by
  have hlt := h.cuts.nonempty
  obtain ⟨u, x, v, rfl, hstart, hstop⟩ := h.cuts.exists_parts
  obtain ⟨hreplace, happly⟩ := QuickFix.apply_append (v := v) h.replacement hstart hstop
  refine ⟨happly ▸ hreplace, ?_⟩
  have hpos : 0 < x.length := by
    cases x with
    | nil => simp only [Text.size_nil] at hstop; omega
    | cons c cs => simp
  rw [happly]
  simp only [List.length_append]
  omega

theorem independent_of_deletes {text : Text} {fixes : List QuickFix}
    (hdeletes : ∀ fix ∈ fixes, fix.Deletes text)
    (horder : fixes.Pairwise fun f g => f.span.stop.offset ≤ g.span.start.offset) :
    Independent text fixes where
  order := horder
  spans fix hfix :=
    have hcuts := (hdeletes fix hfix).cuts
    ⟨hcuts.nonempty, hcuts.stop.le_size, hcuts.start, hcuts.stop⟩
  apply fix hfix := (hdeletes fix hfix).apply.1
  together order hperm := by
    have hdisjoint : fixes.Pairwise fun f g => f.span.Disjoint g.span := horder.imp .inl
    have heach := QuickFix.applyEach_without [] order
      (fun f hf => hdeletes f (hperm.mem_iff.1 hf))
      (hperm.symm.pairwise hdisjoint fun hfg => hfg.symm)
    rw [List.map_nil, Text.without_nil] at heach
    rw [heach]
    exact congrArg some (Text.without_of_mem_iff fun span => (hperm.map _).mem_iff)

section Hints

variable {text : Text} {selection : Span}

theorem File.cuts_assignment (text : Text) :
    ∀ a ∈ (File.parse text).file.assignments, a.span.Cuts text := by
  intro a ha
  have hwithin := (File.nested_parse text).2 a ha a.span List.mem_cons_self
  exact ⟨File.nonempty_assignment text a ha, hwithin.start.isBoundary, hwithin.stop.isBoundary⟩

theorem File.stop_le_start (text : Text) {a b : Assignment}
    (ha : a ∈ (File.parse text).file.assignments) (hb : b ∈ (File.parse text).file.assignments)
    (hlt : a.span.start.offset < b.span.start.offset) :
    a.span.stop.offset ≤ b.span.start.offset := by
  have hsymm : Std.Symm fun a b : Assignment => a.span.Disjoint b.span := ⟨fun _ _ h => h.symm⟩
  have hdisjoint : (File.parse text).file.assignments.Pairwise
      fun a b => a.span.Disjoint b.span := (File.nested_parse text).1.order.imp .inl
  rcases hdisjoint.forall ha hb (by rintro rfl; omega) with hle | hle
  · exact hle
  · have := File.nonempty_assignment text b hb
    omega

theorem exists_assignment_of_hint {hint : Diagnostic} (h : hint ∈ (analyze {} text).hints) :
    hint.cause = .unusedDefinition ∧
      ∃ a ∈ (File.parse text).file.assignments, hint.span = a.span := by
  obtain ⟨-, front, a, behind, hunused, rfl⟩ := mem_hints_iff.1 h
  exact ⟨rfl, a, by rw [hunused.split]; simp, rfl⟩

theorem pairwise_hints (text : Text) : (analyze {} text).hints.Pairwise
    fun d e => d.span.stop.offset ≤ e.span.start.offset := by
  have hstart : (analyze {} text).hints.Pairwise
      fun d e => d.span.start.offset < e.span.start.offset := by
    rw [hints_analyze, File.unusedReports, if_pos rfl, List.pairwise_map]
    exact pairwise_unusedSpans (File.pairwise_start text) (List.Perm.refl _) _
  refine hstart.imp_of_mem fun {d e} hd he hlt => ?_
  obtain ⟨-, a, ha, hda⟩ := exists_assignment_of_hint hd
  obtain ⟨-, b, hb, heb⟩ := exists_assignment_of_hint he
  rw [hda, heb] at hlt ⊢
  exact File.stop_le_start text ha hb hlt

theorem quickFixes_eq_map (h : selection.start.offset ≤ selection.stop.offset) :
    quickFixes text selection =
      ((analyze {} text).hints.filter (·.span.Meets selection)).map
        fun hint => ⟨"Remove unused definition", hint.span, []⟩ := by
  have hfilter : (analyze {} text).hints.filter (·.span.overlaps selection) =
      (analyze {} text).hints.filter (·.span.Meets selection) := by
    refine List.filter_congr fun hint hhint => ?_
    obtain ⟨-, a, ha, hspan⟩ := exists_assignment_of_hint hhint
    have hlt := File.nonempty_assignment text a ha
    rw [← hspan] at hlt
    rw [Bool.eq_iff_iff, decide_eq_true_eq, Span.overlaps_iff (Nat.le_of_lt hlt) h,
      Span.meets_iff]
    omega
  rw [quickFixes, Analysis.quickFixes, hfilter, ← List.filterMap_eq_map]
  refine List.filterMap_congr fun hint hhint => ?_
  obtain ⟨hcause, -⟩ := exists_assignment_of_hint (List.mem_filter.1 hhint).1
  rw [Diagnostic.fix?, hcause]
  rfl

theorem deletes_of_mem_quickFixes {fix : QuickFix} (h : fix ∈ quickFixes text selection) :
    fix.Deletes text := by
  obtain ⟨front, a, behind, hunused, -, rfl⟩ := mem_quickFixes_iff.1 h
  exact ⟨File.cuts_assignment text a (by rw [hunused.split]; simp), rfl⟩

end Hints

theorem exists_iterate_applyFirstFix (text : Text) : ∃ n ≤ text.length,
    quickFixes (applyFirstFix^[n] text) (applyFirstFix^[n] text).wholeSpan = [] := by
  induction hlength : text.length using Nat.strongRecOn generalizing text with
  | ind length ih =>
    subst hlength
    cases hfixes : quickFixes text text.wholeSpan with
    | nil => exact ⟨0, Nat.zero_le _, hfixes⟩
    | cons fix rest =>
      have hfirst : applyFirstFix text = fix.apply text := by rw [applyFirstFix, hfixes]
      have hdeletes : fix.Deletes text :=
        deletes_of_mem_quickFixes (hfixes ▸ List.mem_cons_self)
      have hlt := hdeletes.apply.2
      obtain ⟨n, hn, hend⟩ := ih _ hlt (fix.apply text) rfl
      refine ⟨n + 1, by omega, ?_⟩
      rw [Function.iterate_succ_apply, hfirst]
      exact hend

/-- The fixes for any text, broken or not: there is one for each hint that the selection
meets, they are independent of each other, and to apply the first one again and again comes
to an end. -/
theorem quickFixes_independent (text : Text) (selection : Span)
    (h : selection.start.offset ≤ selection.stop.offset) :
    quickFixes text selection =
        ((analyze {} text).hints.filter (·.span.Meets selection)).map
          (fun hint => ⟨"Remove unused definition", hint.span, []⟩) ∧
      Independent text (quickFixes text selection) ∧
      ∃ n ≤ text.length,
        quickFixes (applyFirstFix^[n] text) (applyFirstFix^[n] text).wholeSpan = [] := by
  refine ⟨quickFixes_eq_map h, ?_, exists_iterate_applyFirstFix text⟩
  refine independent_of_deletes (fun fix hfix => deletes_of_mem_quickFixes hfix) ?_
  rw [quickFixes_eq_map h, List.pairwise_map]
  exact (pairwise_hints text).sublist List.filter_sublist

theorem quickFixes_independent_broken :
    ⟨"Remove unused definition", ⟨⟨0, 0, 0⟩, ⟨1, 0, 1⟩⟩, []⟩ ∈
        quickFixes "a :=\nb := \"é\" +".toList ⟨{}, ⟨16, 1, 10⟩⟩ ∧
      ⟨"Remove unused definition", ⟨⟨5, 1, 0⟩, ⟨14, 1, 8⟩⟩, []⟩ ∈
        quickFixes "a :=\nb := \"é\" +".toList ⟨{}, ⟨16, 1, 10⟩⟩ ∧
      Independent "a :=\nb := \"é\" +".toList
        (quickFixes "a :=\nb := \"é\" +".toList ⟨{}, ⟨16, 1, 10⟩⟩) := by
  let as := (File.parse "a :=\nb := \"é\" +".toList).file.assignments
  refine ⟨mem_quickFixes_iff.2 ⟨[], as[0]!, as.drop 1, ⟨?_, ?_, ?_, ?_⟩, ?_, ?_⟩,
    mem_quickFixes_iff.2 ⟨as.take 1, as[1]!, [], ⟨?_, ?_, ?_, ?_⟩, ?_, ?_⟩,
    (quickFixes_independent _ _ (by decide)).2.1⟩
  all_goals decide +kernel

end AssignLang
