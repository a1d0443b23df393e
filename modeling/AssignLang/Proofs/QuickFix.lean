import Mathlib.Logic.Relation
import AssignLang.QuickFix
import AssignLang.Proofs.Check.Unused
import AssignLang.Proofs.Cut

/-! Quick fixes on texts without errors. Each takes out the statement of an unused
definition and leaves a text without errors. Of two fixes either one leaves the other on
offer, and both orders give the same text, so it does not matter in which order fixes are
applied: in the end nothing is left to report, and the text is always the same. -/

namespace AssignLang

/-- The assignment `a` of the text can go. -/
def Removable (text : Text) (front : List Assignment) (a : Assignment)
    (behind : List Assignment) : Prop :=
  Unused ({} : Config).outputVariable (File.parse text).file.assignments front a behind

theorem mem_quickFixes_iff {text : Text} {selection : Span} {fix : QuickFix} :
    fix ∈ quickFixes text selection ↔ ∃ front a behind, Removable text front a behind ∧
      a.span.overlaps selection = true ∧ fix = ⟨"Remove unused definition", a.span, []⟩ := by
  rw [quickFixes, Analysis.quickFixes, List.mem_filterMap]
  simp only [List.mem_filter, mem_hints_iff, true_and]
  constructor
  · rintro ⟨d, ⟨⟨front, a, behind, hunused, rfl⟩, hoverlaps⟩, hfix⟩
    exact ⟨front, a, behind, hunused, hoverlaps, (Option.some.inj hfix).symm⟩
  · rintro ⟨front, a, behind, hunused, hoverlaps, rfl⟩
    exact ⟨⟨a.span, .unusedDefinition⟩, ⟨⟨front, a, behind, hunused, rfl⟩, hoverlaps⟩, rfl⟩

/-- One of the fixes on offer for the whole text is applied. -/
def FixStep (text edited : Text) : Prop :=
  ∃ fix ∈ quickFixes text text.wholeSpan,
    text.replace? fix.span.start.offset fix.span.stop.offset fix.replacement = some edited

theorem fixStep_of_unused {text u x v : Text} {front behind : List Assignment} {a : Assignment}
    (h : Removable text front a behind)
    (htext : text = u ++ (x ++ v)) (hstart : a.span.start.offset = u.size)
    (hstop : a.span.stop.offset = u.size + x.size) : FixStep text (u ++ v) := by
  have hoverlaps : a.span.overlaps text.wholeSpan = true := by
    have hcontains : text.wholeSpan.contains a.span.start = true := by
      rw [Span.contains_iff, hstart, Text.wholeSpan, Text.finish, Position.offset_after, htext]
      simp
    simp [Span.overlaps, hcontains]
  refine ⟨_, mem_quickFixes_iff.2 ⟨front, a, behind, h, hoverlaps, rfl⟩, ?_⟩
  rw [hstart, hstop, htext, Text.replace?_append, List.append_nil]

theorem Cut.replace? {text u x v : Text} {front behind moved : List Assignment} {a : Assignment}
    (h : Cut text front a behind u x v moved) :
    text.replace? a.span.start.offset a.span.stop.offset [] = some (u ++ v) := by
  rw [h.start, h.stop, h.text_eq, Text.replace?_append, List.append_nil]

theorem Assignment.forget_of_offset {a b : Assignment} {m n : Nat}
    (h : a.relocate (.offset m) = b.relocate (.offset n)) :
    a.relocate .forget = b.relocate .forget := by
  have hforget := congrArg (Assignment.relocate .forget) h
  rwa [relocate_relocate, relocate_relocate, Relocation.forget_comp,
    Relocation.forget_comp] at hforget

theorem exists_forget_of_offset {as bs : List Assignment} {m n : Nat}
    (h : as.map (Assignment.relocate (.offset m)) = bs.map (Assignment.relocate (.offset n))) :
    ∀ a ∈ as, ∃ b ∈ bs, a.relocate .forget = b.relocate .forget := by
  intro a ha
  have hmem := List.mem_map_of_mem (f := Assignment.relocate (.offset m)) ha
  rw [h] at hmem
  obtain ⟨b, hb, hba⟩ := List.mem_map.1 hmem
  exact ⟨b, hb, Assignment.forget_of_offset hba.symm⟩

/-- What is left after a cut is what was there, apart from spans and the assignment. -/
theorem Cut.forget {text u x v : Text} {front behind moved : List Assignment} {a : Assignment}
    (h : Cut text front a behind u x v moved) :
    (File.parse (u ++ v)).file.assignments.map (Assignment.relocate .forget) =
      (front ++ behind).map (Assignment.relocate .forget) := by
  have hmap := congrArg (List.map (Assignment.relocate .forget)) h.moved
  simp only [List.map_map, Function.comp_def, Assignment.relocate_relocate,
    Relocation.forget_comp] at hmap
  rw [h.assignments, List.map_append, List.map_append, hmap]

theorem exists_assigned_iff {as : List Assignment} {name : String} :
    (∃ a ∈ as, a.target.name = name) ↔ ((Definitions.table as).kind? name).isSome = true := by
  rw [← contains_table_iff, Std.TreeMap.contains_eq_isSome_getElem?, Definitions.kind?,
    Option.isSome_map]

section Step

variable {text : Text} {front behind : List Assignment} {a : Assignment}

/-- Without an unused definition all other names have the kinds they had. -/
theorem Cut.kind? {u x v : Text} {moved : List Assignment}
    (hcut : Cut text front a behind u x v moved)
    (h : Removable text front a behind)
    {name : String} (hname : name ≠ a.target.name) :
    (Definitions.table (File.parse (u ++ v)).file.assignments).kind? name =
      (Definitions.table (File.parse text).file.assignments).kind? name := by
  rw [kind?_table_of_forget hcut.forget, h.split, kind?_table_remove h.unread hname]

/-- A text without errors has none after an unused definition is cut out. -/
theorem Cut.hasErrors {u x v : Text} {moved : List Assignment}
    (hcut : Cut text front a behind u x v moved)
    (h : Removable text front a behind)
    (herrors : (analyze {} text).hasErrors = false) :
    (analyze {} (u ++ v)).hasErrors = false := by
  obtain ⟨-, hcomplaints, houtput⟩ := (hasErrors_iff_reports {} text).1 herrors
  rw [hasErrors_iff_reports]
  refine ⟨hcut.quiet, ?_, ?_⟩
  · have hsublist : (Definitions.tableComplaints (front ++ behind)).Sublist
        (Definitions.tableComplaints (front ++ a :: behind)) := tableComplaints_remove h.unread
    rw [← h.split, hcomplaints] at hsublist
    rw [tableComplaints_of_forget hcut.forget]
    exact List.eq_nil_of_sublist_nil hsublist
  · rw [exists_assigned_iff] at houtput ⊢
    rw [hcut.kind? h h.inner.symm]
    exact houtput

theorem FixStep.exists_cut {edited : Text} (herrors : (analyze {} text).hasErrors = false)
    (h : FixStep text edited) : ∃ front a behind u x v moved,
      Removable text front a behind ∧ Cut text front a behind u x v moved ∧ edited = u ++ v := by
  obtain ⟨fix, hfix, hreplace⟩ := h
  obtain ⟨front, a, behind, hunused, -, rfl⟩ := mem_quickFixes_iff.1 hfix
  obtain ⟨hquiet, -⟩ := (hasErrors_iff_reports {} text).1 herrors
  obtain ⟨u, x, v, moved, hcut⟩ := AssignLang.exists_cut hquiet hunused.split
  rw [hcut.replace?] at hreplace
  exact ⟨front, a, behind, u, x, v, moved, hunused, hcut, (Option.some.inj hreplace).symm⟩

/-- Of two unused definitions, each can be cut out after the other. -/
theorem exists_common_step {mid rest moved moved' : List Assignment} {b : Assignment}
    {u x v u' y v' : Text}
    (ha : Removable text front a (mid ++ b :: rest))
    (hb : Removable text (front ++ a :: mid) b rest)
    (hcut : Cut text front a (mid ++ b :: rest) u x v moved)
    (hcut' : Cut text (front ++ a :: mid) b rest u' y v' moved') :
    ∃ common, FixStep (u ++ v) common ∧ FixStep (u' ++ v') common := by
  -- the first statement lies before the second, so the text is `u ++ x ++ m ++ y ++ v'`
  obtain ⟨m, rfl, rfl⟩ : ∃ m, u' = (u ++ x) ++ m ∧ v = m ++ (y ++ v') := by
    apply Text.append_eq_append_of_size_le
    · rw [List.append_assoc, ← hcut.text_eq, hcut'.text_eq]
    · rw [Text.size_append, ← hcut.stop, ← hcut'.start]
      exact hcut.behind b (by simp)
  have hmoved := hcut.moved
  rw [List.map_append, List.map_cons] at hmoved
  obtain ⟨mid', more, rfl, -, hmore⟩ := List.map_eq_append_iff.1 hmoved
  obtain ⟨b', rest', rfl, hb', hrest⟩ := List.map_eq_cons_iff.1 hmore
  refine ⟨(u ++ m) ++ v', ?_, ?_⟩
  · have hunused : Removable (u ++ (m ++ (y ++ v'))) (front ++ mid') b' rest' := by
      rw [Removable, hcut.assignments, ← List.append_assoc]
      exact hb.of_forget (Assignment.forget_of_offset hb') (exists_forget_of_offset hrest)
    have hstart : b'.span.start.offset + x.size = b.span.start.offset :=
      congrArg (fun c : Assignment => c.span.start.offset) hb'
    have hstop : b'.span.stop.offset + x.size = b.span.stop.offset :=
      congrArg (fun c : Assignment => c.span.stop.offset) hb'
    rw [hcut'.start, Text.size_append, Text.size_append] at hstart
    rw [hcut'.stop, Text.size_append, Text.size_append] at hstop
    refine fixStep_of_unused hunused (List.append_assoc u m (y ++ v')).symm ?_ ?_
    · rw [Text.size_append]
      omega
    · rw [Text.size_append]
      omega
  · have hunused : Removable (u ++ x ++ m ++ v') front a (mid ++ moved') := by
      rw [Removable, hcut'.assignments, List.append_assoc, List.cons_append]
      refine ha.of_forget rfl fun c hc => ?_
      rcases List.mem_append.1 hc with hc | hc
      · exact ⟨c, List.mem_append_left _ hc, rfl⟩
      · obtain ⟨d, hd, hcd⟩ := exists_forget_of_offset hcut'.moved c hc
        exact ⟨d, by simp [hd], hcd⟩
    have hstep := fixStep_of_unused (u := u) (x := x) (v := m ++ v') hunused (by simp) hcut.start
      hcut.stop
    rwa [← List.append_assoc] at hstep

theorem exists_common_step_of_split {s t : Text} {front' behind' l : List Assignment}
    {b : Assignment}
    (ha : Removable text front a behind)
    (hb : Removable text front' b behind')
    {u x v u' y v' : Text} {moved moved' : List Assignment}
    (hcut : Cut text front a behind u x v moved)
    (hcut' : Cut text front' b behind' u' y v' moved') (hs : s = u ++ v) (ht : t = u' ++ v')
    (hfront : front' = front ++ l) (hl : a :: behind = l ++ b :: behind') :
    s = t ∨ ∃ common, FixStep s common ∧ FixStep t common := by
  subst hs ht hfront
  cases l with
  | nil =>
    obtain ⟨rfl, rfl⟩ := List.cons.inj hl
    exact .inl (Option.some.inj (hcut.replace?.symm.trans hcut'.replace?))
  | cons c mid =>
    obtain ⟨rfl, rfl⟩ := List.cons.inj hl
    exact .inr (exists_common_step ha hb hcut hcut')

end Step

namespace FixStep

variable {text edited : Text}

theorem diamond {s t : Text} (herrors : (analyze {} text).hasErrors = false)
    (hs : FixStep text s) (ht : FixStep text t) :
    s = t ∨ ∃ common, FixStep s common ∧ FixStep t common := by
  obtain ⟨front, a, behind, u, x, v, moved, ha, hcut, hs⟩ := hs.exists_cut herrors
  obtain ⟨front', b, behind', u', y, v', moved', hb, hcut', ht⟩ := ht.exists_cut herrors
  rcases List.append_eq_append_iff.1 (ha.split.symm.trans hb.split) with
    ⟨l, hfront, hl⟩ | ⟨l, hfront, hl⟩
  · exact exists_common_step_of_split ha hb hcut hcut' hs ht hfront hl
  · rcases exists_common_step_of_split hb ha hcut' hcut ht hs hfront hl with
      heq | ⟨common, htc, hsc⟩
    · exact .inl heq.symm
    · exact .inr ⟨common, hsc, htc⟩

theorem hasErrors (h : FixStep text edited) (herrors : (analyze {} text).hasErrors = false) :
    (analyze {} edited).hasErrors = false := by
  obtain ⟨front, a, behind, u, x, v, moved, hunused, hcut, rfl⟩ := h.exists_cut herrors
  exact hcut.hasErrors hunused herrors

theorem length_lt (h : FixStep text edited) (herrors : (analyze {} text).hasErrors = false) :
    edited.length < text.length := by
  obtain ⟨front, a, behind, u, x, v, moved, -, hcut, rfl⟩ := h.exists_cut herrors
  have hpos := List.length_pos_iff.2 hcut.body
  rw [hcut.text_eq, List.length_append, List.length_append, List.length_append]
  omega

theorem acc (herrors : (analyze {} text).hasErrors = false) :
    Acc (fun edited text => FixStep text edited) text := by
  induction hn : text.length using Nat.strongRecOn generalizing text with
  | ind n ih =>
    subst hn
    apply Acc.intro
    intro edited hstep
    exact ih edited.length (hstep.length_lt herrors) (hstep.hasErrors herrors) rfl

theorem exists_of_hints {d : Diagnostic} (herrors : (analyze {} text).hasErrors = false)
    (h : d ∈ (analyze {} text).hints) : ∃ edited, FixStep text edited := by
  obtain ⟨-, front, a, behind, hunused, -⟩ := mem_hints_iff.1 h
  obtain ⟨hquiet, -⟩ := (hasErrors_iff_reports {} text).1 herrors
  obtain ⟨u, x, v, moved, hcut⟩ := AssignLang.exists_cut hquiet hunused.split
  exact ⟨u ++ v, fixStep_of_unused hunused hcut.text_eq hcut.start hcut.stop⟩

end FixStep

open Relation

theorem hasErrors_of_steps {text other : Text} (herrors : (analyze {} text).hasErrors = false)
    (h : ReflTransGen FixStep text other) : (analyze {} other).hasErrors = false := by
  induction h with
  | refl => exact herrors
  | tail _ hstep ih => exact hstep.hasErrors ih

theorem exists_steps_to_end {text : Text} (herrors : (analyze {} text).hasErrors = false) :
    ∃ final, ReflTransGen FixStep text final ∧ (analyze {} final).diagnostics = [] := by
  have hacc := FixStep.acc herrors
  induction hacc with
  | intro text _ ih =>
    by_cases hhints : (analyze {} text).hints = []
    · exact ⟨text, .refl, diagnostics_eq_nil herrors hhints⟩
    · obtain ⟨d, hd⟩ := List.exists_mem_of_ne_nil _ hhints
      obtain ⟨edited, hstep⟩ := FixStep.exists_of_hints herrors hd
      obtain ⟨final, hfinal, hnone⟩ := ih edited hstep (hstep.hasErrors herrors)
      exact ⟨final, hfinal.head hstep, hnone⟩

def SoundStep (text edited : Text) : Prop :=
  (analyze {} text).hasErrors = false ∧ FixStep text edited

theorem soundSteps_of_steps {text other : Text} (herrors : (analyze {} text).hasErrors = false)
    (h : ReflTransGen FixStep text other) : ReflTransGen SoundStep text other := by
  induction h with
  | refl => exact .refl
  | tail hsteps hstep ih => exact ih.tail ⟨hasErrors_of_steps herrors hsteps, hstep⟩

theorem join_of_steps {text s t : Text} (herrors : (analyze {} text).hasErrors = false)
    (hs : ReflTransGen FixStep text s) (ht : ReflTransGen FixStep text t) :
    Join (ReflTransGen FixStep) s t := by
  have hjoin : Join (ReflTransGen SoundStep) s t := by
    refine church_rosser ?_ (soundSteps_of_steps herrors hs) (soundSteps_of_steps herrors ht)
    rintro a b c ⟨ha, hab⟩ ⟨-, hac⟩
    rcases hab.diamond ha hac with rfl | ⟨d, hbd, hcd⟩
    · exact ⟨b, .refl, .refl⟩
    · exact ⟨d, .single ⟨hab.hasErrors ha, hbd⟩, .single ⟨hac.hasErrors ha, hcd⟩⟩
  obtain ⟨d, hsd, htd⟩ := hjoin
  have hmono : ∀ a b, SoundStep a b → FixStep a b := fun _ _ h => h.2
  exact ⟨d, ReflTransGen.mono hmono _ _ hsd, ReflTransGen.mono hmono _ _ htd⟩

theorem eq_of_steps_of_no_fix {text other : Text} (h : quickFixes text text.wholeSpan = [])
    (hsteps : ReflTransGen FixStep text other) : other = text := by
  rcases ReflTransGen.cases_head hsteps with rfl | ⟨next, ⟨fix, hfix, -⟩, -⟩
  · rfl
  · rw [h] at hfix
    simp at hfix

theorem quickFixes_eq_nil_of_diagnostics {text : Text} (h : (analyze {} text).diagnostics = [])
    (selection : Span) : quickFixes text selection = [] := by
  rw [quickFixes, Analysis.quickFixes, Analysis.hints, h]
  rfl

/-- On a text without errors every fix is safe, and fixes applied in whatever order end in
one text, with nothing left to report. -/
theorem quickFixes_confluent (text : Text) (herrors : (analyze {} text).hasErrors = false) :
    (∀ selection, ∀ fix ∈ quickFixes text selection, ∃ i a edited,
        (analyze {} text).file.assignments[i]? = some a ∧
        fix.span = a.span ∧ fix.replacement = [] ∧
        text.replace? fix.span.start.offset fix.span.stop.offset [] = some edited ∧
        (analyze {} edited).hasErrors = false ∧
        (analyze {} edited).file.assignments.map (Assignment.relocate .forget) =
          ((analyze {} text).file.assignments.eraseIdx i).map (Assignment.relocate .forget) ∧
        ∀ name, name ≠ a.target.name →
          (analyze {} edited).definitions[name]?.map (·.kind) =
            (analyze {} text).definitions[name]?.map (·.kind)) ∧
      Acc (fun edited text => FixStep text edited) text ∧
      ∃ final, ReflTransGen FixStep text final ∧ (analyze {} final).diagnostics = [] ∧
        ∀ other, ReflTransGen FixStep text other → ReflTransGen FixStep other final ∧
          (quickFixes other other.wholeSpan = [] → other = final) := by
  refine ⟨fun selection fix hfix => ?_, FixStep.acc herrors, ?_⟩
  · obtain ⟨front, a, behind, hunused, -, rfl⟩ := mem_quickFixes_iff.1 hfix
    obtain ⟨hquiet, -⟩ := (hasErrors_iff_reports {} text).1 herrors
    obtain ⟨u, x, v, moved, hcut⟩ := exists_cut hquiet hunused.split
    have hsplit : (analyze {} text).file.assignments = front ++ a :: behind := hunused.split
    refine ⟨front.length, a, u ++ v, ?_, rfl, rfl, hcut.replace?, hcut.hasErrors hunused herrors,
      ?_, fun name hname => hcut.kind? hunused hname⟩
    · rw [hsplit, List.getElem?_append_right (Nat.le_refl _), Nat.sub_self]
      rfl
    · rw [hsplit, List.eraseIdx_append_of_length_le (Nat.le_refl _), Nat.sub_self]
      exact hcut.forget
  · obtain ⟨final, hfinal, hnone⟩ := exists_steps_to_end herrors
    refine ⟨final, hfinal, hnone, fun other hother => ?_⟩
    obtain ⟨common, hcommon, hcommon'⟩ := join_of_steps herrors hother hfinal
    obtain rfl := eq_of_steps_of_no_fix (quickFixes_eq_nil_of_diagnostics hnone _) hcommon'
    exact ⟨hcommon, fun hend => (eq_of_steps_of_no_fix hend hcommon).symm⟩

theorem quickFixes_confluent_chain :
    (analyze {} "a := 1\nb := a\nmessage := 2".toList).hasErrors = false ∧
      (quickFixes "a := 1\nb := a\nmessage := 2".toList ⟨{}, ⟨26, 2, 12⟩⟩).length = 1 ∧
      Acc (fun edited text => FixStep text edited) "a := 1\nb := a\nmessage := 2".toList ∧
      ∃ final, ReflTransGen FixStep "a := 1\nb := a\nmessage := 2".toList final ∧
        (analyze {} final).diagnostics = [] ∧
        ∀ other, ReflTransGen FixStep "a := 1\nb := a\nmessage := 2".toList other →
          ReflTransGen FixStep other final ∧
          (quickFixes other other.wholeSpan = [] → other = final) :=
  ⟨by decide +kernel, by decide +kernel,
    (quickFixes_confluent "a := 1\nb := a\nmessage := 2".toList (by decide +kernel)).2⟩

end AssignLang
