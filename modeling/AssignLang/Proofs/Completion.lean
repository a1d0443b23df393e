import AssignLang.Completion
import AssignLang.Proofs.Token.Exchange

/-! Accepting a completion. A name is offered for the one reference under the cursor. With
the name in its place the text has the same tokens and the same tree apart from that name,
and the name is defined in front of the reference with a kind that fits there. -/

namespace AssignLang

/-- The identifier `i` ends before `j` starts, with something between them. -/
def Ident.Apart (i j : Ident) : Prop := i.span.stop.offset < j.span.start.offset

/-- The operation right above a reference to `ident`. -/
inductive Expr.Under (op : Operator) (ident : Ident) : Expr → Prop
  | left {span : Span} {right : Expr} :
      Under op ident (.operation span op (.reference ident) right)
  | right {span : Span} {left : Expr} :
      Under op ident (.operation span op left (.reference ident))
  | broken {span : Span} : Under op ident (.broken span op (.reference ident))
  | inLeft {span : Span} {other : Operator} {left right : Expr} (h : Under op ident left) :
      Under op ident (.operation span other left right)
  | inRight {span : Span} {other : Operator} {left right : Expr} (h : Under op ident right) :
      Under op ident (.operation span other left right)
  | inBroken {span : Span} {other : Operator} {left : Expr} (h : Under op ident left) :
      Under op ident (.broken span other left)

section Names

variable (text : Text)

/-- A name token is a valid identifier, which does not go on behind it. -/
theorem TokenStream.spelled_of_target? {t : Token} {i : Ident} (ht : t ∈ (ofText text).tokens)
    (hi : t.target? = some i) : ∃ before behind, text = before ++ (i.name.toList ++ behind) ∧
      i.span = ⟨Position.after {} before, Position.after {} (before ++ i.name.toList)⟩ ∧
      Identifier.isValid i.name.toList = true ∧
      ∀ c ∈ behind.head?, Identifier.isPart c = false := by
  obtain ⟨r, hr, rfl⟩ := List.mem_map.1 ht
  obtain ⟨before, spelling, behind, htext, hspan, hspelled, -⟩ := (tiled text).exists_spelling hr
  have hname : spelling = i.name.toList ∧ Identifier.isValid spelling = true ∧
      ∀ c ∈ behind.head?, Identifier.isPart c = false := by
    unfold Token.target? at hi
    split at hi
    · rename_i name hterminal
      obtain rfl := Option.some.inj hi
      rwa [hterminal] at hspelled
    · rename_i name hterminal
      obtain rfl := Option.some.inj hi
      rwa [hterminal] at hspelled
    all_goals simp at hi
  obtain ⟨rfl, hvalid, hnext⟩ := hname
  rw [Token.span_of_target? hi]
  exact ⟨before, behind, htext, hspan, hvalid, hnext⟩

theorem TokenStream.pairwise_apart :
    ((ofText text).tokens.filterMap Token.target?).Pairwise Ident.Apart := by
  have hrow := TokenStream.row text
  rw [List.pairwise_filterMap]
  refine hrow.pairwise.imp_of_mem fun {t u} ht hu hle i hi j hj => ?_
  obtain ⟨before, behind, htext, hspan, -, hnext⟩ := spelled_of_target? text ht hi
  obtain ⟨before', behind', htext', hspan', hvalid, -⟩ := spelled_of_target? text hu hj
  rw [← Token.span_of_target? hi, ← Token.span_of_target? hj] at hle
  refine Nat.lt_of_le_of_ne hle fun heq => ?_
  -- the second name would go on from the first
  rw [hspan, hspan', Position.offset_after, Position.offset_after] at heq
  have hparts : (before ++ i.name.toList) ++ behind = before' ++ (j.name.toList ++ behind') := by
    rw [List.append_assoc, ← htext, htext']
  obtain ⟨m, hm, rfl⟩ := Text.append_eq_append_of_size_le hparts (by omega)
  have hsize := congrArg Text.size hm
  rw [Text.size_append] at hsize
  obtain rfl : m = [] := Text.size_eq_zero.1 (by omega)
  obtain ⟨c, cs, hcs, hc⟩ := head?_word hvalid
  have hpart := hnext c (by rw [hcs]; rfl)
  rw [Identifier.isPart_of_isStart hc] at hpart
  simp at hpart

theorem File.pairwise_apart :
    ((File.parse text).file.assignments.flatMap Assignment.idents).Pairwise Ident.Apart := by
  have hstatements := Recovered.readStatements_eq_iff.1 (File.read_parse text).1.symm
  exact (TokenStream.pairwise_apart text).sublist hstatements.idents_sublist

theorem File.exists_token_of_mem_idents {i : Ident}
    (h : i ∈ (File.parse text).file.assignments.flatMap Assignment.idents) :
    ∃ t ∈ (TokenStream.ofText text).tokens, t.target? = some i := by
  have hstatements := Recovered.readStatements_eq_iff.1 (File.read_parse text).1.symm
  exact List.mem_filterMap.1 (hstatements.idents_sublist.subset h)

theorem File.isValid_of_mem_idents {i : Ident}
    (h : i ∈ (File.parse text).file.assignments.flatMap Assignment.idents) :
    Identifier.isValid i.name.toList = true := by
  obtain ⟨t, ht, htarget⟩ := exists_token_of_mem_idents text h
  obtain ⟨-, -, -, -, hvalid, -⟩ := TokenStream.spelled_of_target? text ht htarget
  exact hvalid

theorem File.start_lt_stop {i : Ident}
    (h : i ∈ (File.parse text).file.assignments.flatMap Assignment.idents) :
    i.span.start.offset < i.span.stop.offset := by
  obtain ⟨t, ht, hi⟩ := exists_token_of_mem_idents text h
  rw [Token.span_of_target? hi]
  exact ((TokenStream.row text).mem ht).2.1

end Names

namespace Expr

variable {e : Expr} {p : Position} {wanted w : Kind} {ident : Ident}

theorem referenceAt?_spec (h : e.referenceAt? p wanted = some (ident, w)) :
    ident ∈ e.references ∧ ident.span.contains p = true := by
  induction e generalizing wanted with
  | integer | string => simp [referenceAt?] at h
  | reference i =>
    simp only [referenceAt?, Option.ite_none_right_eq_some] at h
    obtain ⟨hcontains, h⟩ := h
    obtain ⟨rfl, -⟩ := Prod.mk.inj (Option.some.inj h)
    exact ⟨List.mem_singleton_self _, hcontains⟩
  | operation span op left right ihl ihr =>
    simp only [referenceAt?, Option.ite_none_right_eq_some] at h
    obtain ⟨-, h⟩ := h
    split at h
    · obtain ⟨hmem, hcontains⟩ := ihl h
      exact ⟨List.mem_append_left _ hmem, hcontains⟩
    · obtain ⟨hmem, hcontains⟩ := ihr h
      exact ⟨List.mem_append_right _ hmem, hcontains⟩
  | broken span op left ih =>
    simp only [referenceAt?, Option.ite_none_right_eq_some] at h
    exact ih h.2

theorem Under.mem_references {op : Operator} (h : e.Under op ident) : ident ∈ e.references := by
  induction h with
  | left | right | broken => simp [references]
  | inLeft _ ih => exact List.mem_append_left _ ih
  | inRight _ ih => exact List.mem_append_right _ ih
  | inBroken _ ih => exact ih

theorem wanted_of_reference (h : (Expr.reference ident).referenceAt? p wanted = some (ident, w)) :
    w = wanted := by
  simp only [referenceAt?, Option.ite_none_right_eq_some, Option.some.injEq, Prod.mk.injEq] at h
  exact h.2.2.symm

/-- The operation right above the reference under the cursor says what is wanted. -/
theorem wanted_of_under {op : Operator} (h : e.referenceAt? p wanted = some (ident, w))
    (hapart : e.references.Nodup) (hunder : e.Under op ident) : w = op.operandKind := by
  induction e generalizing wanted with
  | integer | string | reference => cases hunder
  | operation span top left right ihl ihr =>
    simp only [referenceAt?, Option.ite_none_right_eq_some] at h
    obtain ⟨-, h⟩ := h
    obtain ⟨hl, hr, hdisjoint⟩ := List.nodup_append.1 hapart
    -- the reference is on one side only
    split at h
    · have hleft := (referenceAt?_spec h).1
      cases hunder with
      | left => exact wanted_of_reference h
      | right => exact absurd rfl (hdisjoint _ hleft _ (List.mem_singleton_self _))
      | inLeft hunder => exact ihl h hl hunder
      | inRight hunder => exact absurd rfl (hdisjoint _ hleft _ hunder.mem_references)
    · have hright := (referenceAt?_spec h).1
      cases hunder with
      | left => exact absurd rfl (hdisjoint _ (List.mem_singleton_self _) _ hright)
      | right => exact wanted_of_reference h
      | inLeft hunder => exact absurd rfl (hdisjoint _ hunder.mem_references _ hright)
      | inRight hunder => exact ihr h hr hunder
  | broken span top left ih =>
    simp only [referenceAt?, Option.ite_none_right_eq_some] at h
    cases hunder with
    | broken => exact wanted_of_reference h.2
    | inBroken hunder => exact ih h.2 hapart hunder

end Expr

namespace Definitions

theorem exists_of_mem_offers {defs : Definitions} {typed : Text} {wanted : Kind} {name : String}
    (h : name ∈ defs.offers typed wanted) :
    ∃ kind, defs.kind? name = some kind ∧ kind.satisfies wanted = true := by
  obtain ⟨⟨name, d⟩, hd, rfl⟩ := List.mem_map.1 h
  obtain ⟨hmem, hfits⟩ := List.mem_filter.1 hd
  rw [Std.TreeMap.mem_toList_iff_getElem?_eq_some] at hmem
  simp only [Bool.and_eq_true] at hfits
  exact ⟨d.kind, by rw [kind?, hmem]; rfl, hfits.2⟩

theorem exists_of_mem_completeValue {defs : Definitions} {p : Position} {value : Expr}
    {name : String} (h : name ∈ defs.completeValue p value) :
    ∃ ident wanted kind, value.referenceAt? p .unknown = some (ident, wanted) ∧
      defs.kind? name = some kind ∧ kind.satisfies wanted = true := by
  unfold completeValue at h
  split at h
  · simp at h
  · rename_i ident wanted href
    obtain ⟨kind, hkind, hfits⟩ := exists_of_mem_offers h
    exact ⟨ident, wanted, kind, href, hkind, hfits⟩

theorem exists_of_mem_complete {p : Position} {front rest : List Assignment} {name : String}
    (h : name ∈ complete p (table front) rest) :
    ∃ mid a behind value, rest = mid ++ a :: behind ∧ a.value? = some value ∧
      name ∈ (table (front ++ mid)).completeValue p value := by
  induction rest generalizing front with
  | nil => simp [complete] at h
  | cons a rest ih =>
    rw [complete] at h
    split at h
    · cases hvalue : a.value? with
      | none => simp [hvalue] at h
      | some value =>
        rw [hvalue] at h
        exact ⟨[], a, rest, value, rfl, hvalue, by rwa [List.append_nil]⟩
    · rw [define_eq, ← table_concat] at h
      obtain ⟨mid, b, behind, value, rfl, hvalue, hname⟩ := ih h
      exact ⟨a :: mid, b, behind, value, rfl, hvalue, by simpa using hname⟩

end Definitions

/-- Identifiers on different sides of a place in the tree are apart. -/
theorem apart_of_split {front behind : List Assignment} {a : Assignment}
    (h : ((front ++ a :: behind).flatMap Assignment.idents).Pairwise Ident.Apart) :
    (∀ b ∈ front, ∀ i ∈ b.idents, ∀ j ∈ a.idents, i.Apart j) ∧ a.idents.Pairwise Ident.Apart ∧
      ∀ b ∈ behind, ∀ i ∈ a.idents, ∀ j ∈ b.idents, i.Apart j := by
  rw [List.flatMap_append, List.flatMap_cons] at h
  obtain ⟨-, hrest, hfront⟩ := List.pairwise_append.1 h
  obtain ⟨ha, -, hbehind⟩ := List.pairwise_append.1 hrest
  refine ⟨fun b hb i hi j hj => ?_, ha, fun b hb i hi j hj => ?_⟩
  · exact hfront i (List.mem_flatMap.2 ⟨b, hb, hi⟩) j (List.mem_append_left _ hj)
  · exact hbehind i hi j (List.mem_flatMap.2 ⟨b, hb, hj⟩)

theorem mem_idents_of_split {front behind : List Assignment} {a : Assignment} {i : Ident}
    (h : i ∈ a.idents) : i ∈ (front ++ a :: behind).flatMap Assignment.idents :=
  List.mem_flatMap.2 ⟨a, by simp, h⟩

theorem Ident.Apart.span_ne {i j : Ident} (h : i.Apart j)
    (hlt : i.span.start.offset < i.span.stop.offset) : i.span ≠ j.span := by
  intro heq
  rw [Ident.Apart, ← heq] at h
  omega

theorem filter_contains {idents : List Ident} {ident : Ident} {p : Position}
    (hapart : idents.Pairwise Ident.Apart) (hmem : ident ∈ idents)
    (hcontains : ident.span.contains p = true) :
    idents.filter (·.span.contains p) = [ident] := by
  obtain ⟨front, behind, rfl⟩ := List.append_of_mem hmem
  obtain ⟨-, hrest, hfront⟩ := List.pairwise_append.1 hapart
  obtain ⟨hbehind, -⟩ := List.pairwise_cons.1 hrest
  have hpoint := Span.contains_iff.1 hcontains
  have hnone : ∀ i ∈ front, ¬ i.span.contains p = true := by
    intro i hi hc
    have hlt : i.span.stop.offset < _ := hfront i hi ident List.mem_cons_self
    have := Span.contains_iff.1 hc
    omega
  have hnone' : ∀ i ∈ behind, ¬ i.span.contains p = true := by
    intro i hi hc
    have hlt : ident.span.stop.offset < _ := hbehind i hi
    have := Span.contains_iff.1 hc
    omega
  rw [List.filter_append, List.filter_cons, if_pos hcontains, List.filter_eq_nil_iff.2 hnone,
    List.filter_eq_nil_iff.2 hnone', List.nil_append]

theorem references_sublist (as : List Assignment) :
    (as.flatMap Assignment.references).Sublist (as.flatMap Assignment.idents) := by
  induction as with
  | nil => exact List.Sublist.refl _
  | cons a as ih => exact ((List.sublist_cons_self _ _).append ih)

namespace Definitions

theorem reference_of_mem_complaints {defs : Definitions} {e : Expr} {d : Diagnostic}
    {other : String} (hd : d ∈ defs.complaints e) (hcause : d.cause = .unknownVariable other) :
    ∃ i ∈ e.references, d.span = i.span ∧ defs.kind? i.name = none := by
  induction e with
  | integer | string => simp [complaints] at hd
  | reference i =>
    rw [complaints, complaintsOf] at hd
    split at hd
    · simp at hd
    · rename_i hnone
      rw [List.mem_singleton.1 hd]
      exact ⟨i, List.mem_singleton_self i, rfl, by simpa using hnone⟩
  | operation span op left right ihl ihr =>
    rw [complaints, List.mem_append, List.mem_append] at hd
    rcases hd with (hd | hd) | hd
    · obtain ⟨i, hi, hrest⟩ := ihl hd
      exact ⟨i, List.mem_append_left _ hi, hrest⟩
    · obtain ⟨i, hi, hrest⟩ := ihr hd
      exact ⟨i, List.mem_append_right _ hi, hrest⟩
    · rw [complaintsOf] at hd
      split at hd
      · simp at hd
      · rw [List.mem_singleton.1 hd] at hcause
        simp at hcause
  | broken span op left ih => exact ih hd

theorem exists_of_mem_tableComplaints {as : List Assignment} {d : Diagnostic}
    (h : d ∈ tableComplaints as) : ∃ front a behind, as = front ++ a :: behind ∧
      d ∈ (table front).valueComplaints a := by
  induction as using List.reverseRecOn with
  | nil => simp at h
  | append_singleton as a ih =>
    rw [tableComplaints_concat, List.mem_append] at h
    rcases h with h | h
    · obtain ⟨front, b, behind, rfl, hd⟩ := ih h
      exact ⟨front, b, behind ++ [a], by simp, hd⟩
    · exact ⟨as, a, [], rfl, h⟩

end Definitions

/-- An unknown variable is a reference that nothing in front of it defines. -/
theorem exists_of_unknownVariable {config : Config} {text : Text} {d : Diagnostic}
    {other : String} (hd : d ∈ (analyze config text).diagnostics)
    (hcause : d.cause = .unknownVariable other) :
    ∃ front a behind, (File.parse text).file.assignments = front ++ a :: behind ∧
      ∃ i ∈ a.references, d.span = i.span ∧ (Definitions.table front).kind? i.name = none := by
  rcases List.mem_append.1 hd with hd | hd
  · rcases File.cause_of_mem_reports hd with h | h
    · simp [hcause, Cause.isLexical] at h
    · simp [hcause, Cause.isExpectation] at h
  rcases List.mem_append.1 hd with hd | hd
  rcases List.mem_append.1 hd with hd | hd
  · obtain ⟨front, a, behind, hsplit, hd⟩ := Definitions.exists_of_mem_tableComplaints hd
    refine ⟨front, a, behind, hsplit, ?_⟩
    rw [Definitions.valueComplaints] at hd
    rw [Assignment.references]
    cases hvalue : a.value? with
    | none => simp [hvalue] at hd
    | some value =>
      rw [hvalue] at hd
      exact Definitions.reference_of_mem_complaints hd hcause
  · rw [File.missingReports] at hd
    split at hd
    · simp at hd
    · rw [List.mem_singleton.1 hd] at hcause
      simp at hcause
  · rw [File.unusedReports] at hd
    split at hd
    · obtain ⟨span, -, rfl⟩ := List.mem_map.1 hd
      simp at hcause
    · simp at hd

theorem Assignment.references_relocate (f : Relocation) (a : Assignment) :
    (a.relocate f).references = a.references.map (Ident.relocate f) := by
  obtain ⟨target, span, value⟩ := a
  cases value with
  | none => rfl
  | some value => exact value.references_relocate f

theorem Expr.span_of_mem_references {e : Expr} {i : Ident} (h : i ∈ e.references) :
    i.span ∈ e.spans := by
  induction e with
  | integer | string => simp [references] at h
  | reference j => exact List.mem_singleton.2 (congrArg Ident.span (List.mem_singleton.1 h))
  | operation span op left right ihl ihr =>
    rcases List.mem_append.1 h with h | h
    · exact List.mem_cons_of_mem _ (List.mem_append_left _ (ihl h))
    · exact List.mem_cons_of_mem _ (List.mem_append_right _ (ihr h))
  | broken span op left ih => exact List.mem_cons_of_mem _ (ih h)

theorem Assignment.span_of_mem_references {a : Assignment} {i : Ident} (h : i ∈ a.references) :
    i.span ∈ a.spans := by
  rw [references] at h
  rw [spans]
  cases hvalue : a.value? with
  | none => simp [hvalue] at h
  | some value =>
    rw [hvalue] at h
    exact List.mem_cons_of_mem _ (List.mem_cons_of_mem _ (Expr.span_of_mem_references h))

theorem Position.Within.eq_after {text u v : Text} {q : Position} (h : Position.Within {} text q)
    (htext : text = u ++ v) (hoffset : q.offset = u.size) : q = Position.after {} u := by
  obtain ⟨before, behind, rfl, rfl⟩ := h
  rw [Position.offset_after, Nat.zero_add] at hoffset
  obtain ⟨m, rfl, -⟩ := Text.append_eq_append_of_size_le htext (by omega)
  rw [Text.size_append] at hoffset
  obtain rfl : m = [] := Text.size_eq_zero.1 (by omega)
  rw [List.append_nil]

namespace Exchanged

variable {text edited : Text} {t : Token} {name : String}

theorem replace?_eq (h : Exchanged text t name edited) :
    text.replace? t.span.start.offset t.span.stop.offset name.toList = some edited := by
  obtain ⟨u, x, v, rfl, rfl, hspan⟩ := h.parts
  rw [hspan]
  simp only [Position.offset_after, Text.size_append, Nat.zero_add]
  rw [Text.replace?_append, List.append_assoc]

theorem assignments (h : Exchanged text t name edited) :
    (File.parse edited).file.assignments.map (Assignment.relocate (.offset 0)) =
      ((File.parse text).file.assignments.map (Assignment.rename t.span name)).map
        (Assignment.relocate (.resize t.span (Text.size name.toList))) := by
  rw [(File.read_parse edited).1, (File.read_parse text).1, ← readStatements_relocate, h.moved,
    readStatements_relocate, readStatements_rename]

theorem forget (h : Exchanged text t name edited) :
    (File.parse edited).file.assignments.map (Assignment.relocate .forget) =
      ((File.parse text).file.assignments.map (Assignment.rename t.span name)).map
        (Assignment.relocate .forget) := by
  have hforget := congrArg (List.map (Assignment.relocate .forget)) h.assignments
  rw [List.map_map, List.map_map] at hforget
  simpa only [Function.comp_def, Assignment.relocate_relocate, Relocation.forget_comp] using hforget

theorem mem_tokens (h : Exchanged text t name edited) : t ∈ (TokenStream.ofText text).tokens := by
  obtain ⟨i, hi, -⟩ := h.terminals
  exact List.mem_of_getElem? hi

/-- The assignment with the reference stands where it stood, and the reference has its new
name. -/
theorem exists_reference (h : Exchanged text t name edited) {front behind : List Assignment}
    {a : Assignment} (hsplit : (File.parse text).file.assignments = front ++ a :: behind)
    {ident : Ident} (hident : ident ∈ a.references) (hspan : ident.span = t.span) :
    ∃ front' a' behind', (File.parse edited).file.assignments = front' ++ a' :: behind' ∧
      front'.length = front.length ∧
      front'.map (Assignment.relocate .forget) =
        (front.map (Assignment.rename t.span name)).map (Assignment.relocate .forget) ∧
      ⟨⟨t.span.start, t.span.start.after name.toList⟩, name⟩ ∈ a'.references := by
  have hlt := ((TokenStream.row text).mem h.mem_tokens).2.1
  have hassignments := h.assignments
  rw [hsplit, List.map_append, List.map_append, List.map_cons, List.map_cons] at hassignments
  obtain ⟨front', rest, hsplit', hfront, hrest⟩ := List.map_eq_append_iff.1 hassignments
  obtain ⟨a', behind', rfl, ha, -⟩ := List.map_eq_cons_iff.1 hrest
  refine ⟨front', a', behind', hsplit', ?_, ?_, ?_⟩
  · have hlength := congrArg List.length hfront
    simpa using hlength
  · have hforget := congrArg (List.map (Assignment.relocate .forget)) hfront
    rw [List.map_map, List.map_map] at hforget
    simpa only [Function.comp_def, Assignment.relocate_relocate, Relocation.forget_comp]
      using hforget
  · have hrefs := congrArg Assignment.references ha
    rw [Assignment.references_relocate, Assignment.references_relocate,
      Assignment.references_rename] at hrefs
    have hmem := List.mem_map_of_mem (f := Ident.relocate (.resize t.span (Text.size name.toList)))
      (List.mem_map_of_mem (f := Ident.rename t.span name) hident)
    rw [← hrefs] at hmem
    obtain ⟨i, hi, hmoved⟩ := List.mem_map.1 hmem
    rw [Ident.rename, if_pos hspan, Ident.relocate, Ident.relocate, Span.relocate_resize _ hlt]
      at hmoved
    simp only [Span.relocate, Relocation.offset, Ident.mk.injEq, Span.mk.injEq, Position.mk.injEq,
      and_true, Nat.add_zero] at hmoved
    obtain ⟨⟨hstart, hstop⟩, hname⟩ := hmoved
    have hwithin := (File.nested_parse edited).2 a' (by rw [hsplit']; simp) i.span
      (Assignment.span_of_mem_references hi)
    obtain ⟨u, x, v, -, hedited, hspan'⟩ := h.parts
    rw [hspan', Position.offset_after, Nat.zero_add] at hstart hstop
    have hstart' := hwithin.start.eq_after hedited hstart
    have hstop' := hwithin.stop.eq_after (hedited.trans (List.append_assoc ..).symm)
      (hstop.trans (Text.size_append ..).symm)
    rw [Position.after_append] at hstop'
    rw [hspan', ← hstop', ← hstart', ← hname]
    exact hi

end Exchanged

section Unique

variable {text : Text} {front behind front' behind' : List Assignment} {a a' : Assignment}
  {i j : Ident}

theorem nil_of_same_span (h : (File.parse text).file.assignments = front ++ a :: behind)
    (h' : (File.parse text).file.assignments = front' ++ a' :: behind') (hi : i ∈ a.references)
    (hj : j ∈ a'.references) (hspan : i.span = j.span) {m : List Assignment}
    (hfront : front' = front ++ m) (hrest : a :: behind = m ++ a' :: behind') : m = [] := by
  have hapart := File.pairwise_apart text
  have hi' : i ∈ a.idents := List.mem_cons_of_mem _ hi
  cases m with
  | nil => rfl
  | cons c m =>
    obtain ⟨rfl, -⟩ := List.cons.inj hrest
    rw [h'] at hapart
    have hbefore := (apart_of_split hapart).1 a (by rw [hfront]; simp) i hi' j
      (List.mem_cons_of_mem _ hj)
    exact absurd hspan (hbefore.span_ne (File.start_lt_stop text (h ▸ mem_idents_of_split hi')))

theorem reference_unique (h : (File.parse text).file.assignments = front ++ a :: behind)
    (h' : (File.parse text).file.assignments = front' ++ a' :: behind') (hi : i ∈ a.references)
    (hj : j ∈ a'.references) (hspan : i.span = j.span) : front = front' ∧ i = j := by
  have hsame : front = front' ∧ a = a' := by
    rcases List.append_eq_append_iff.1 (h.symm.trans h') with
      ⟨m, hfront, hrest⟩ | ⟨m, hfront, hrest⟩
    · obtain rfl := nil_of_same_span h h' hi hj hspan hfront hrest
      exact ⟨by simpa using hfront.symm, (List.cons.inj hrest).1⟩
    · obtain rfl := nil_of_same_span h' h hj hi hspan.symm hfront hrest
      exact ⟨by simpa using hfront, (List.cons.inj hrest).1.symm⟩
  obtain ⟨rfl, rfl⟩ := hsame
  refine ⟨rfl, ?_⟩
  have hapart := File.pairwise_apart text
  rw [h] at hapart
  have hrefs : a.references.Pairwise Ident.Apart :=
    (List.pairwise_cons.1 (apart_of_split hapart).2.1).2
  have hcontains : i.span.contains i.span.start = true := by
    have hlt := File.start_lt_stop text (h ▸ mem_idents_of_split (List.mem_cons_of_mem _ hi))
    exact Span.contains_iff.2 ⟨Nat.le_refl _, Nat.le_of_lt hlt⟩
  -- both are the one reference under a cursor there
  have hone := filter_contains hrefs hi hcontains
  rw [hspan] at hcontains
  rw [hspan, filter_contains hrefs hj hcontains] at hone
  exact (List.cons.inj hone).1.symm

theorem not_unknownVariable (h : (File.parse text).file.assignments = front ++ a :: behind)
    (hi : i ∈ a.references) (hkind : (Definitions.table front).kind? i.name ≠ none)
    (config : Config) : ∀ d ∈ (analyze config text).diagnostics, d.span = i.span →
      ∀ other, d.cause ≠ .unknownVariable other := by
  intro d hd hspan other hcause
  obtain ⟨front', a', behind', h', j, hj, hspan', hnone⟩ := exists_of_unknownVariable hd hcause
  obtain ⟨rfl, rfl⟩ := reference_unique h h' hi hj (hspan.symm.trans hspan')
  exact hkind hnone

theorem isValid_of_kind? {name : String}
    (h : (File.parse text).file.assignments = front ++ a :: behind)
    (hkind : (Definitions.table front).kind? name ≠ none) :
    Identifier.isValid name.toList = true := by
  obtain ⟨b, hb, rfl⟩ : ∃ b ∈ front, b.target.name = name := by
    by_contra hnone
    refine hkind ?_
    rw [Definitions.kind?, Definitions.getElem?_table_eq_none_iff.2 fun b hb hname =>
      hnone ⟨b, hb, hname⟩]
    rfl
  refine File.isValid_of_mem_idents text (List.mem_flatMap.2 ⟨b, ?_, List.mem_cons_self⟩)
  rw [h]
  simp [hb]

end Unique

/-- An offered name can take the place of the reference under the cursor: the text keeps its
tokens and its tree but for that name, and the name is known there, with a kind that fits. -/
theorem complete_accept (text : Text) (p : Position) (name : String) (h : name ∈ complete text p) :
    ∃ front a behind ident edited front' a' behind' ident',
      (File.parse text).file.assignments = front ++ a :: behind ∧ ident ∈ a.references ∧
      ((File.parse text).file.assignments.flatMap Assignment.references).filter
        (·.span.contains p) = [ident] ∧
      text.replace? ident.span.start.offset ident.span.stop.offset name.toList = some edited ∧
      (∃ i, (TokenStream.ofText text).tokens[i]? = some ⟨.ident ident.name, ident.span⟩ ∧
        (TokenStream.ofText edited).tokens.map Token.terminal =
          ((TokenStream.ofText text).tokens.map Token.terminal).set i (.ident name)) ∧
      (File.parse edited).file.assignments.map (Assignment.relocate .forget) =
        ((File.parse text).file.assignments.map (Assignment.rename ident.span name)).map
          (Assignment.relocate .forget) ∧
      (∀ b ∈ (File.parse text).file.assignments, b.target.span ≠ ident.span) ∧
      (File.parse edited).file.assignments = front' ++ a' :: behind' ∧
      front'.length = front.length ∧
      ident' = ⟨⟨ident.span.start, ident.span.start.after name.toList⟩, name⟩ ∧
      ident' ∈ a'.references ∧
      (∀ config, ∀ d ∈ (analyze config edited).diagnostics, d.span = ident'.span →
        ∀ other, d.cause ≠ .unknownVariable other) ∧
      ∀ value op, a.value? = some value → value.Under op ident → op ≠ .add →
        ((Definitions.table front').infer (.reference ident')).kind = .integer := by
  have hall : name ∈ Definitions.complete p (Definitions.table [])
      (File.parse text).file.assignments := h
  obtain ⟨front, a, behind, value, hsplit, hvalue, hoffered⟩ :=
    Definitions.exists_of_mem_complete hall
  obtain ⟨ident, wanted, kind, href, hkind, hfits⟩ :=
    Definitions.exists_of_mem_completeValue hoffered
  rw [List.nil_append] at hkind
  obtain ⟨hmem, hcontains⟩ := Expr.referenceAt?_spec href
  have hident : ident ∈ a.references := by rwa [Assignment.references, hvalue]
  have hapart := File.pairwise_apart text
  have hstatements := Recovered.readStatements_eq_iff.1 (File.read_parse text).1.symm
  have htoken := hstatements.mem_of_reference (by rw [hsplit]; simp) hident
  have hvalid := isValid_of_kind? hsplit (by rw [hkind]; simp)
  obtain ⟨edited, hedited⟩ := exists_exchanged htoken rfl hvalid
  obtain ⟨front', a', behind', hsplit', hlength, hfront, hident'⟩ :=
    hedited.exists_reference hsplit hident rfl
  have hsides := hapart
  rw [hsplit] at hsides
  obtain ⟨hbefore, hinside, hbehind⟩ := apart_of_split hsides
  have hself : ident ∈ a.idents := List.mem_cons_of_mem _ hident
  have hlt : ∀ {b : Assignment} {i : Ident}, b ∈ (File.parse text).file.assignments →
      i ∈ b.idents → i.span.start.offset < i.span.stop.offset := fun hb hi =>
    File.start_lt_stop text (List.mem_flatMap.2 ⟨_, hb, hi⟩)
  have hkind' : (Definitions.table front').kind? name = some kind := by
    have hsame : front.map (Assignment.rename ident.span name) = front := by
      refine (List.map_congr_left fun b hb => ?_).trans (List.map_id front)
      refine Assignment.rename_of_ne fun i hi => (hbefore b hb i hi ident hself).span_ne ?_
      exact hlt (by rw [hsplit]; simp [hb]) hi
    rw [hsame] at hfront
    rw [kind?_table_of_forget hfront, hkind]
  refine ⟨front, a, behind, ident, edited, front', a', behind', _, hsplit, hident, ?_,
    hedited.replace?_eq, hedited.terminals, hedited.forget, fun b hb => ?_, hsplit', hlength, rfl,
    hident', not_unknownVariable hsplit' hident' (by rw [hkind']; simp),
    fun e op he hunder hop => ?_⟩
  · refine filter_contains (hapart.sublist (references_sublist _)) ?_ hcontains
    exact List.mem_flatMap.2 ⟨a, by rw [hsplit]; simp, hident⟩
  · have htarget := hlt hb List.mem_cons_self
    rw [hsplit] at hb
    rcases List.mem_append.1 hb with hb | hb
    · exact (hbefore b hb _ List.mem_cons_self ident hself).span_ne htarget
    rcases List.mem_cons.1 hb with rfl | hb
    · exact ((List.pairwise_cons.1 hinside).1 ident hident).span_ne htarget
    · have hident_lt := hlt (by rw [hsplit]; simp) hself
      exact ((hbehind b hb ident hself _ List.mem_cons_self).span_ne hident_lt).symm
  · obtain rfl := Option.some.inj (hvalue.symm.trans he)
    have hnodup : value.references.Nodup := by
      have hpairwise := (List.pairwise_cons.1 hinside).2
      rw [Assignment.references, hvalue] at hpairwise
      refine hpairwise.imp_of_mem fun {i j} hi _ hij heq => ?_
      have hmem : i ∈ a.idents := List.mem_cons_of_mem _ (by rwa [Assignment.references, hvalue])
      exact hij.span_ne (hlt (by rw [hsplit]; simp) hmem) (by rw [heq])
    have hwanted : wanted = .integer := by
      rw [Expr.wanted_of_under href hnodup hunder]
      cases op with
      | add => exact absurd rfl hop
      | _ => rfl
    rw [hwanted] at hfits
    rw [Definitions.infer_eq, Definitions.kindOf, hkind']
    simpa [Kind.satisfies] using hfits

theorem complete_accept_difference :
    "total" ∈ complete "total := 1\ntext := \"\"\nmessage := 2 - t".toList ⟨38, 2, 16⟩ ∧
      ∃ ident edited,
        ((File.parse "total := 1\ntext := \"\"\nmessage := 2 - t".toList).file.assignments.flatMap
          Assignment.references).filter (·.span.contains ⟨38, 2, 16⟩) = [ident] ∧
        Text.replace? "total := 1\ntext := \"\"\nmessage := 2 - t".toList ident.span.start.offset
          ident.span.stop.offset "total".toList = some edited ∧
        ∀ config, ∀ d ∈ (analyze config edited).diagnostics,
          d.span = ⟨ident.span.start, ident.span.start.after "total".toList⟩ →
            ∀ other, d.cause ≠ .unknownVariable other := by
  have hoffered : "total" ∈ complete "total := 1\ntext := \"\"\nmessage := 2 - t".toList
      ⟨38, 2, 16⟩ := by decide +kernel
  obtain ⟨-, -, -, ident, edited, -, -, -, _, -, -, honly, hreplace, -, -, -, -, -, rfl, -,
    hknown, -⟩ := complete_accept _ _ _ hoffered
  exact ⟨hoffered, ident, edited, honly, hreplace, hknown⟩

end AssignLang
