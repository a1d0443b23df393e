import AssignLang.Proofs.Scoping

/-! What a completion offers, by the tree alone. At most one reference of a file is under a
cursor, and going down by spans finds it: assignments and operands stand one behind the
other, and the target of an assignment and the operator of an operation keep what is behind
them away from what is in front. The names offered are those assigned before, if their bytes
go on from what is typed and their kinds fit below the operator right above the reference. -/

namespace AssignLang

/-- The bytes of a text in UTF-8. -/
def Text.bytes (text : Text) : List UInt8 := text.flatMap String.utf8EncodeChar

/-- The name is assigned in `front`, goes on from what is typed of the reference `v` up to the
cursor, and is of a kind that `value` takes in the place of `v`. -/
structure Offered (front : List Assignment) (value : Expr) (v : Ident) (p : Position)
    (name : String) : Prop where
  typed : (Text.bytes v.name.toList).take (p.offset - v.span.start.offset) <+:
    Text.bytes name.toList
  fits : ∃ before a behind, LastOf name front before a behind ∧
    (((Definitions.table before).define a).kind = .integer ∨ value = .reference v ∨
      value.Under .add v)

namespace Text

def byte (c : Char) : UInt8 := c.val.toUInt8

theorem toNat_byte {c : Char} (h : c.toNat < 128) : (byte c).toNat = c.toNat := by
  change c.toNat % 256 = c.toNat
  omega

theorem bytes_of_ascii {text : Text} (h : ∀ c ∈ text, c.toNat < 128) :
    text.bytes = text.map byte := by
  induction text with
  | nil => rfl
  | cons c cs ih =>
    obtain ⟨hc, hcs⟩ := List.forall_mem_cons.1 h
    have hone : c.utf8Size = 1 := by
      rw [Char.utf8Size_eq_one_iff, UInt32.le_iff_toNat_le]
      exact Nat.le_of_lt_succ hc
    rw [bytes, List.flatMap_cons, String.utf8EncodeChar_eq_singleton hone, ← bytes, ih hcs]
    rfl

theorem map_byte_prefix_iff {s t : Text} (hs : ∀ c ∈ s, c.toNat < 128)
    (ht : ∀ c ∈ t, c.toNat < 128) : s.map byte <+: t.map byte ↔ s <+: t := by
  -- an ASCII character can be read off its byte
  have hback : ∀ u : Text, (∀ c ∈ u, c.toNat < 128) →
      (u.map byte).map (fun b => Char.ofNat b.toNat) = u := by
    intro u hu
    rw [List.map_map]
    refine (List.map_congr_left fun c hc => ?_).trans (List.map_id u)
    change Char.ofNat (byte c).toNat = c
    rw [toNat_byte (hu c hc), Char.ofNat_toNat]
  refine ⟨fun h => ?_, fun h => h.map byte⟩
  have hchars := h.map fun b => Char.ofNat b.toNat
  rwa [hback s hs, hback t ht] at hchars

theorem take_bytes_prefix_iff {s t : Text} (hs : ∀ c ∈ s, c.toNat < 128)
    (ht : ∀ c ∈ t, c.toNat < 128) (n : Nat) : s.bytes.take n <+: t.bytes ↔ s.take n <+: t := by
  rw [bytes_of_ascii hs, bytes_of_ascii ht, ← List.map_take]
  exact map_byte_prefix_iff (fun c hc => hs c (List.mem_of_mem_take hc)) ht

theorem map_byte_lt {s t : Text} (hs : ∀ c ∈ s, c.toNat < 128) (ht : ∀ c ∈ t, c.toNat < 128)
    (h : s < t) : s.map byte < t.map byte := by
  induction s generalizing t with
  | nil =>
    cases t with
    | nil => exact absurd h (List.lt_irrefl [])
    | cons d ds => exact List.nil_lt_cons _ _
  | cons c cs ih =>
    cases t with
    | nil => exact absurd h (List.not_lt_nil _)
    | cons d ds =>
      obtain ⟨hc, hcs⟩ := List.forall_mem_cons.1 hs
      obtain ⟨hd, hds⟩ := List.forall_mem_cons.1 ht
      rw [List.map_cons, List.map_cons, List.cons_lt_cons_iff]
      rcases List.cons_lt_cons_iff.1 h with hlt | ⟨rfl, hlt⟩
      · refine .inl ?_
        rw [UInt8.lt_iff_toNat_lt, toNat_byte hc, toNat_byte hd]
        exact hlt
      · exact .inr ⟨rfl, ih hcs hds hlt⟩

end Text

theorem Identifier.toNat_lt_of_isValid {name : Text} (h : isValid name = true) :
    ∀ c ∈ name, c.toNat < 128 := by
  have hpart : ∀ c, isPart c = true → c.toNat < 128 := by
    intro c hc
    rw [isPart_iff, isStart_iff, isDigit_iff] at hc
    omega
  cases name with
  | nil => simp
  | cons c cs =>
    rw [isValid, Bool.and_eq_true, List.all_eq_true] at h
    exact List.forall_mem_cons.2 ⟨hpart c (isPart_of_isStart h.1), fun d hd => hpart d (h.2 d hd)⟩

theorem Span.Inside.contains {s t : Span} (h : s.Inside t) {p : Position}
    (hp : s.contains p = true) : t.contains p = true := by
  have hpoint := Span.contains_iff.1 hp
  exact Span.contains_iff.2 ⟨Nat.le_trans h.start hpoint.1, Nat.le_trans hpoint.2 h.stop⟩

namespace Expr

variable {e : Expr} {p : Position} {v : Ident}

theorem Nested.inside_of_reference (h : e.Nested)
    (hforwards : e.span.start.offset ≤ e.span.stop.offset) (hv : v ∈ e.references) :
    v.span.Inside e.span := h.inside hforwards _ (span_of_mem_references hv)

/-- Going down by spans finds the reference under the cursor. -/
theorem isSome_referenceAt? (h : e.Nested) (hforwards : e.span.start.offset ≤ e.span.stop.offset)
    (hv : v ∈ e.references) (hp : v.span.contains p = true) (wanted : Kind) :
    (e.referenceAt? p wanted).isSome = true := by
  have hcontains := (h.inside_of_reference hforwards hv).contains hp
  induction e generalizing wanted with
  | integer | string => simp [references] at hv
  | reference ident => rw [referenceAt?, if_pos hcontains]; rfl
  | broken span op left ih =>
    obtain ⟨hl, hleft⟩ := h
    rw [referenceAt?, if_pos hcontains]
    exact ih hleft hl.forwards hv _ ((hleft.inside_of_reference hl.forwards hv).contains hp)
  | operation span op left right ihl ihr =>
    obtain ⟨hl, hr, hlt, hleft, hright⟩ := h
    rw [referenceAt?, if_pos hcontains]
    rcases List.mem_append.1 hv with hv | hv
    · have hc := (hleft.inside_of_reference hl.forwards hv).contains hp
      rw [if_pos hc]
      exact ihl hleft hl.forwards hv _ hc
    · have hc := (hright.inside_of_reference hr.forwards hv).contains hp
      have hno : ¬ left.span.contains p = true := by
        intro hc'
        have := Span.contains_iff.1 hc
        have := Span.contains_iff.1 hc'
        omega
      rw [if_neg hno]
      exact ihr hright hr.forwards hv _ hc

theorem eq_or_under_of_reference (h : v ∈ e.references) :
    e = .reference v ∨ ∃ op, e.Under op v := by
  induction e with
  | integer | string => simp [references] at h
  | reference ident => rw [List.mem_singleton.1 h]; exact .inl rfl
  | operation span op left right ihl ihr =>
    refine .inr ?_
    rcases List.mem_append.1 h with h | h
    · rcases ihl h with rfl | ⟨other, hunder⟩
      · exact ⟨op, .left⟩
      · exact ⟨other, .inLeft hunder⟩
    · rcases ihr h with rfl | ⟨other, hunder⟩
      · exact ⟨op, .right⟩
      · exact ⟨other, .inRight hunder⟩
  | broken span op left ih =>
    rcases ih h with rfl | ⟨other, hunder⟩
    · exact .inr ⟨op, .broken⟩
    · exact .inr ⟨other, .inBroken hunder⟩

/-- Every kind fits for the whole value and below `+`, and only integers elsewhere. -/
theorem satisfies_iff {wanted kind : Kind} (h : e.referenceAt? p .unknown = some (v, wanted))
    (hnodup : e.references.Nodup) :
    kind.satisfies wanted = true ↔ kind = .integer ∨ e = .reference v ∨ e.Under .add v := by
  have hwanted : ∀ op, e.Under op v → wanted = op.operandKind :=
    fun op hunder => wanted_of_under h hnodup hunder
  rcases eq_or_under_of_reference (referenceAt?_spec h).1 with rfl | ⟨op, hunder⟩
  · rw [wanted_of_reference h]
    exact ⟨fun _ => .inr (.inl rfl), fun _ => rfl⟩
  · have hne : e ≠ .reference v := by
      rintro rfl
      cases hunder
    by_cases hop : op = .add
    · subst hop
      rw [hwanted _ hunder]
      exact ⟨fun _ => .inr (.inr hunder), fun _ => rfl⟩
    · have hinteger : wanted = .integer := by
        rw [hwanted op hunder]
        cases op with
        | add => exact absurd rfl hop
        | _ => rfl
      have hadd : ¬ e.Under .add v := by
        intro hadd
        have hunknown := hwanted .add hadd
        rw [hinteger] at hunknown
        exact absurd hunknown (by decide)
      rw [hinteger]
      simp [Kind.satisfies, hne, hadd]

end Expr

namespace Definitions

variable {defs : Definitions} {typed : Text} {wanted : Kind} {name : String}

theorem mem_offers_iff : name ∈ defs.offers typed wanted ↔
    typed <+: name.toList ∧ ∃ d, defs[name]? = some d ∧ d.kind.satisfies wanted = true := by
  simp only [offers, List.mem_map, List.mem_filter, Bool.and_eq_true,
    List.isPrefixOf_iff_prefix, Prod.exists, Std.TreeMap.mem_toList_iff_getElem?_eq_some]
  constructor
  · rintro ⟨name, d, ⟨hd, htyped, hfits⟩, rfl⟩
    exact ⟨htyped, d, hd, hfits⟩
  · rintro ⟨htyped, d, hd, hfits⟩
    exact ⟨name, d, ⟨hd, htyped, hfits⟩, rfl⟩

theorem pairwise_offers (defs : Definitions) (typed : Text) (wanted : Kind) :
    (defs.offers typed wanted).Pairwise (· < ·) := by
  rw [offers, List.pairwise_map]
  refine List.Pairwise.sublist List.filter_sublist ?_
  exact (Std.TreeMap.ordered_keys_toList (t := defs)).imp compareOfLessAndEq_eq_lt.1

/-- The entries that fit are those of names whose last assignment does. -/
theorem exists_fitting_iff {front : List Assignment} {value : Expr} {v : Ident} {p : Position}
    (h : value.referenceAt? p .unknown = some (v, wanted)) (hnodup : value.references.Nodup) :
    (∃ d, (table front)[name]? = some d ∧ d.kind.satisfies wanted = true) ↔
      ∃ before a behind, LastOf name front before a behind ∧
        (((table before).define a).kind = .integer ∨ value = .reference v ∨
          value.Under .add v) := by
  constructor
  · rintro ⟨d, hd, hfits⟩
    obtain ⟨before, a, behind, hlast, rfl⟩ := getElem?_table_eq_some_iff.1 hd
    refine ⟨before, a, behind, hlast, ?_⟩
    rw [define_eq]
    exact (Expr.satisfies_iff h hnodup).1 hfits
  · rintro ⟨before, a, behind, hlast, hfits⟩
    rw [define_eq] at hfits
    exact ⟨_, getElem?_table_of_lastOf hlast, (Expr.satisfies_iff h hnodup).2 hfits⟩

theorem complete_append {p : Position} {front mid behind : List Assignment} {a : Assignment}
    (hmid : ∀ b ∈ mid, b.span.contains p = false) (ha : a.span.contains p = true) :
    complete p (table front) (mid ++ a :: behind) =
      (a.value?.map ((table (front ++ mid)).completeValue p)).getD [] := by
  induction mid generalizing front with
  | nil => rw [List.nil_append, complete, if_pos ha, List.append_nil]
  | cons b mid ih =>
    obtain ⟨hb, hmid⟩ := List.forall_mem_cons.1 hmid
    rw [List.cons_append, complete, if_neg (by simp [hb]), define_eq, ← table_concat, ih hmid,
      List.append_assoc]
    rfl

end Definitions

section File

variable {text : Text} {p : Position} {front behind : List Assignment} {a : Assignment}
  {value : Expr} {v : Ident}

theorem complete_eq_nil (h : ((File.parse text).file.assignments.flatMap
    Assignment.references).filter (·.span.contains p) = []) : complete text p = [] := by
  rw [List.eq_nil_iff_forall_not_mem]
  intro name hname
  have hall : name ∈ Definitions.complete p (Definitions.table [])
      (File.parse text).file.assignments := hname
  obtain ⟨front, a, behind, value, hsplit, hvalue, hoffered⟩ :=
    Definitions.exists_of_mem_complete hall
  obtain ⟨ident, wanted, kind, href, -⟩ := Definitions.exists_of_mem_completeValue hoffered
  obtain ⟨hmem, hcontains⟩ := Expr.referenceAt?_spec href
  refine List.filter_eq_nil_iff.1 h ident (List.mem_flatMap.2 ⟨a, ?_, ?_⟩) hcontains
  · rw [hsplit]
    simp
  · rwa [Assignment.references, hvalue]

theorem File.contains_of_reference
    (h : (File.parse text).file.assignments = front ++ a :: behind) (hvalue : a.value? = some value)
    (hv : v ∈ value.references) (hp : v.span.contains p = true) :
    a.span.contains p = true ∧ ∀ b ∈ front, b.span.contains p = false := by
  have hnested := (File.nested_parse text).1
  have ha := (hnested.inside a (by rw [h]; simp)).2
  obtain ⟨hinside, hlt, hvalue'⟩ := ha.value value hvalue
  have hv' := (hvalue'.inside_of_reference hinside.forwards hv).trans hinside
  refine ⟨hv'.contains hp, fun b hb => ?_⟩
  have horder := hnested.order
  rw [h] at horder
  have hle := (List.pairwise_append.1 horder).2.2 b hb a List.mem_cons_self
  rw [Bool.eq_false_iff]
  intro hc
  have hpoint := Span.contains_iff.1 hc
  have hpoint' :=
    Span.contains_iff.1 ((hvalue'.inside_of_reference hinside.forwards hv).contains hp)
  have htarget := ha.target
  have hstart := htarget.start
  have hforwards := htarget.forwards
  omega

theorem complete_of_reference
    (h : (File.parse text).file.assignments = front ++ a :: behind) (hvalue : a.value? = some value)
    (hv : v ∈ value.references) (hp : v.span.contains p = true) :
    ∃ wanted, value.referenceAt? p .unknown = some (v, wanted) ∧ complete text p =
      (Definitions.table front).offers
        (v.name.toList.take (p.offset - v.span.start.offset)) wanted := by
  have hnested := (File.nested_parse text).1
  obtain ⟨hinside, -, hvalue'⟩ :=
    (hnested.inside a (by rw [h]; simp)).2.value value hvalue
  obtain ⟨⟨v', wanted⟩, hsome⟩ := Option.isSome_iff_exists.1
    (Expr.isSome_referenceAt? hvalue' hinside.forwards hv hp .unknown)
  -- no other reference is under the cursor
  obtain ⟨hmem, hcontains⟩ := Expr.referenceAt?_spec hsome
  have hrefs : ∀ {i : Ident}, i ∈ value.references →
      i ∈ (File.parse text).file.assignments.flatMap Assignment.references := by
    intro i hi
    refine List.mem_flatMap.2 ⟨a, by rw [h]; simp, ?_⟩
    rwa [Assignment.references, hvalue]
  have hapart := (File.pairwise_apart text).sublist (references_sublist _)
  have hone := filter_contains hapart (hrefs hv) hp
  rw [filter_contains hapart (hrefs hmem) hcontains] at hone
  obtain rfl := (List.cons.inj hone).1
  obtain ⟨ha, hfront⟩ := File.contains_of_reference h hvalue hv hp
  refine ⟨wanted, hsome, ?_⟩
  change Definitions.complete p (Definitions.table []) (File.parse text).file.assignments = _
  rw [h, Definitions.complete_append hfront ha, hvalue]
  simp [Definitions.completeValue, hsome]

theorem File.nodup_references (h : (File.parse text).file.assignments = front ++ a :: behind)
    (hvalue : a.value? = some value) : value.references.Nodup := by
  have hall : ((File.parse text).file.assignments.flatMap Assignment.references).Nodup :=
    (File.pairwise_references text).imp fun hlt heq => by rw [heq] at hlt; omega
  rw [h, List.flatMap_append, List.flatMap_cons, Assignment.references, hvalue] at hall
  exact (List.nodup_append.1 (List.nodup_append.1 hall).2.1).1

theorem File.isValid_of_reference (h : (File.parse text).file.assignments = front ++ a :: behind)
    (hvalue : a.value? = some value) (hv : v ∈ value.references) :
    Identifier.isValid v.name.toList = true := by
  have hident : v ∈ a.idents := by
    rw [Assignment.idents, Assignment.references, hvalue]
    exact List.mem_cons_of_mem _ hv
  refine File.isValid_of_mem_idents text ?_
  rw [h]
  exact mem_idents_of_split hident

theorem File.toNat_lt_of_entry (h : (File.parse text).file.assignments = front ++ a :: behind)
    {name : String} {d : Definition} (hd : (Definitions.table front)[name]? = some d) :
    ∀ c ∈ name.toList, c.toNat < 128 := by
  refine Identifier.toNat_lt_of_isValid (isValid_of_kind? h ?_)
  rw [Definitions.kind?, hd]
  simp

theorem pairwise_complete (h : (File.parse text).file.assignments = front ++ a :: behind)
    (hvalue : a.value? = some value) (hv : v ∈ value.references) (hp : v.span.contains p = true) :
    (complete text p).Pairwise fun m n => Text.bytes m.toList < Text.bytes n.toList := by
  obtain ⟨wanted, -, hcomplete⟩ := complete_of_reference h hvalue hv hp
  rw [hcomplete]
  refine (Definitions.pairwise_offers _ _ _).imp_of_mem fun {m n} hm hn hlt => ?_
  obtain ⟨-, d, hd, -⟩ := Definitions.mem_offers_iff.1 hm
  obtain ⟨-, d', hd', -⟩ := Definitions.mem_offers_iff.1 hn
  have hm := File.toNat_lt_of_entry h hd
  have hn := File.toNat_lt_of_entry h hd'
  rw [Text.bytes_of_ascii hm, Text.bytes_of_ascii hn]
  exact Text.map_byte_lt hm hn hlt

theorem mem_complete_iff (h : (File.parse text).file.assignments = front ++ a :: behind)
    (hvalue : a.value? = some value) (hv : v ∈ value.references) (hp : v.span.contains p = true)
    {name : String} : name ∈ complete text p ↔ Offered front value v p name := by
  obtain ⟨wanted, href, hcomplete⟩ := complete_of_reference h hvalue hv hp
  have hnodup := File.nodup_references h hvalue
  have hv' := Identifier.toNat_lt_of_isValid (File.isValid_of_reference h hvalue hv)
  rw [hcomplete, Definitions.mem_offers_iff]
  constructor
  · rintro ⟨hbytes, d, hd, hkind⟩
    exact ⟨(Text.take_bytes_prefix_iff hv' (File.toNat_lt_of_entry h hd) _).2 hbytes,
      (Definitions.exists_fitting_iff href hnodup).1 ⟨d, hd, hkind⟩⟩
  · rintro ⟨hbytes, hfits⟩
    obtain ⟨d, hd, hkind⟩ := (Definitions.exists_fitting_iff href hnodup).2 hfits
    exact ⟨(Text.take_bytes_prefix_iff hv' (File.toNat_lt_of_entry h hd) _).1 hbytes, d, hd, hkind⟩

end File

/-- At most one reference is under a cursor. Without one nothing is offered, and with one,
in increasing order, the names that the assignments in front have for it. -/
theorem complete_eq_offered (text : Text) (p : Position) :
    (((File.parse text).file.assignments.flatMap Assignment.references).filter
        (·.span.contains p) = [] ∧ complete text p = []) ∨
      ∃ front a behind value v, (File.parse text).file.assignments = front ++ a :: behind ∧
        a.value? = some value ∧ v ∈ value.references ∧
        ((File.parse text).file.assignments.flatMap Assignment.references).filter
          (·.span.contains p) = [v] ∧
        (complete text p).Pairwise
          (fun m n => Text.bytes m.toList < Text.bytes n.toList) ∧
        ∀ name, name ∈ complete text p ↔ Offered front value v p name := by
  have hapart := (File.pairwise_apart text).sublist (references_sublist _)
  cases hfilter : ((File.parse text).file.assignments.flatMap Assignment.references).filter
      (·.span.contains p) with
  | nil => exact .inl ⟨rfl, complete_eq_nil hfilter⟩
  | cons v more =>
    obtain ⟨hmem, hp⟩ := List.mem_filter.1 (hfilter ▸ List.mem_cons_self : v ∈ _)
    rw [filter_contains hapart hmem hp] at hfilter
    obtain ⟨-, rfl⟩ := List.cons.inj hfilter
    obtain ⟨a, ha, hv⟩ := List.mem_flatMap.1 hmem
    obtain ⟨front, behind, hsplit⟩ := List.append_of_mem ha
    cases hvalue : a.value? with
    | none => simp [Assignment.references, hvalue] at hv
    | some value =>
      rw [Assignment.references, hvalue] at hv
      exact .inr ⟨front, a, behind, value, v, hsplit, hvalue, hv, rfl,
        pairwise_complete hsplit hvalue hv hp, fun name => mem_complete_iff hsplit hvalue hv hp⟩

-- a string fits below `+` and not below `-`, and the later name does not count
example :
    complete "ab := 1\na := \"s\"\nc := 2 - 1 + a\nabc := 1".toList ⟨31, 2, 14⟩ = ["a", "ab"] ∧
      complete "ab := 1\na := \"s\"\nc := 2 + 1 - a\nabc := 1".toList ⟨31, 2, 14⟩ = ["ab"] := by
  decide +kernel

end AssignLang
