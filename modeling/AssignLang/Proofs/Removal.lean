import AssignLang.Proofs.Parse.Splice
import AssignLang.Proofs.QuickFix
import AssignLang.Proofs.Token.Deletion

/-! Removing a definition from a text, whatever is wrong with either. A fix deletes the span of
an assignment. The span of a broken one can end before its statement does: an operator without
a right operand is left over, and so is an assignment sign without a value. What is left over
can then be taken up by the statement in front. Where this does not happen, all other
assignments are read as before. -/

namespace AssignLang

def Expr.isBroken : Expr → Bool
  | .integer .. | .string .. | .reference .. => false
  | .operation _ _ left right => left.isBroken || right.isBroken
  | .broken .. => true

def Assignment.isBroken (a : Assignment) : Bool := a.value?.all Expr.isBroken

def tokensBefore (text : Text) (span : Span) : List Token :=
  (TokenStream.ofText text).tokens.filter (·.span.stop.offset ≤ span.start.offset)

def tokensBehind (text : Text) (span : Span) : List Token :=
  (TokenStream.ofText text).tokens.filter (span.stop.offset ≤ ·.span.start.offset)

/-- The tokens of the text behind the span, up to the next start of a statement. -/
def runBehind (text : Text) (span : Span) : List Token :=
  (tokensBehind text span).takeWhile fun t => !Level.assignment.stopsAt t.kind

/-- Where the assignment `a` behind `front` is taken out of the text, the two sides stay
apart, as characters and as tokens. -/
structure Separable (text : Text) (front : List Assignment) (a : Assignment) : Prop where
  seals : text.Seals a.span
  yields : ∀ last ∈ (tokensBefore text a.span).getLast?,
    (Ending.behind front last).Yields (last.leadsWithout text a.span) (runBehind text a.span)

instance (text : Text) (front : List Assignment) (a : Assignment) :
    Decidable (Separable text front a) :=
  decidable_of_iff (_ ∧ _) ⟨fun ⟨hseals, hyields⟩ => ⟨hseals, hyields⟩, fun h => ⟨h.1, h.2⟩⟩

namespace Row

variable {lo hi : Nat} {ts us ws : List Token} {s : Span}

theorem filter_before (h : Row lo (ts ++ (us ++ ws)) hi) (hs : s.Over us) :
    (ts ++ (us ++ ws)).filter (·.span.stop.offset ≤ s.start.offset) = ts := by
  obtain ⟨mid, hts, hrest⟩ := append_iff.1 h
  have hover := hrest.left.bounds hs
  obtain ⟨first, -, hfirst, -, hstart, -⟩ := hs
  have hbefore : ∀ t ∈ ts, decide (t.span.stop.offset ≤ s.start.offset) = true := by
    intro t ht
    have := hts.mem ht
    simp only [decide_eq_true_eq]
    omega
  have hbehind : ∀ t ∈ us ++ ws, ¬ decide (t.span.stop.offset ≤ s.start.offset) = true := by
    intro t ht
    have hlt := hrest.start_lt_stop (by rw [List.head?_append, hfirst]; rfl) ht
    rw [hstart]
    simp only [decide_eq_true_eq]
    omega
  rw [List.filter_append, List.filter_eq_self.2 hbefore, List.filter_eq_nil_iff.2 hbehind,
    List.append_nil]

theorem start_lt_getLast (h : Row lo ts hi) {t last : Token} (hlast : ts.getLast? = some last)
    (ht : t ∈ ts) : t.span.start.offset < last.span.stop.offset := by
  obtain ⟨init, rfl⟩ := List.getLast?_eq_some_iff.1 hlast
  obtain ⟨mid, hinit, hend⟩ := append_iff.1 h
  have hmem := hend.mem (List.mem_singleton_self last)
  rcases List.mem_append.1 ht with ht | ht
  · have := hinit.mem ht
    omega
  · obtain rfl := List.mem_singleton.1 ht
    omega

theorem filter_behind (h : Row lo (ts ++ (us ++ ws)) hi) (hs : s.Over us) :
    (ts ++ (us ++ ws)).filter (s.stop.offset ≤ ·.span.start.offset) = ws := by
  rw [← List.append_assoc] at h ⊢
  obtain ⟨mid, hfront, hws⟩ := append_iff.1 h
  obtain ⟨mid', -, hus⟩ := append_iff.1 hfront
  have hover := hus.bounds hs
  obtain ⟨-, last, -, hlast, -, hstop⟩ := hs
  have hbefore : ∀ t ∈ ts ++ us, ¬ decide (s.stop.offset ≤ t.span.start.offset) = true := by
    intro t ht
    have hlt := hfront.start_lt_getLast (by rw [List.getLast?_append, hlast]; rfl) ht
    rw [hstop]
    simp only [decide_eq_true_eq]
    omega
  have hbehind : ∀ t ∈ ws, decide (s.stop.offset ≤ t.span.start.offset) = true := by
    intro t ht
    have := hws.mem ht
    simp only [decide_eq_true_eq]
    omega
  rw [List.filter_append, List.filter_eq_nil_iff.2 hbefore, List.filter_eq_self.2 hbehind,
    List.nil_append]

end Row

theorem Separable.exists_parts {text : Text} {front behind : List Assignment} {a : Assignment}
    (h : Separable text front a)
    (hsplit : (File.parse text).file.assignments = front ++ a :: behind) :
    ∃ u x v, text = u ++ (x ++ v) ∧ a.span.start.offset = u.size ∧
      a.span.stop.offset = u.size + x.size ∧
      (File.parse (u ++ v)).file.assignments.map (Assignment.relocate .forget) =
        (front ++ behind).map (Assignment.relocate .forget) := by
  have hstatements := Recovered.readStatements_eq_iff.1 (File.read_parse text).1.symm
  rw [hsplit] at hstatements
  obtain ⟨ts, vs, ws, htokens, hfront, ha, hbehind⟩ := hstatements.split
  rw [List.append_nil] at hfront ha
  have hrow := TokenStream.row text
  rw [htokens] at hrow
  obtain ⟨mid, hts, hrest⟩ := Row.append_iff.1 hrow
  obtain ⟨first, more, hvs, hname⟩ := ha.exists_target
  obtain ⟨us, signs, rfl, hplaced⟩ := ha.placed hrest.left
  have hfirst : us.head? = some first := by
    obtain ⟨t, -, ht, -⟩ := hplaced.covers
    obtain ⟨us, rfl⟩ := List.head?_eq_some_iff.1 ht
    rw [List.cons_append] at hvs
    exact congrArg some (List.cons.inj hvs).1
  rw [List.append_assoc] at htokens hrow
  have hyields := h.yields
  rw [tokensBefore, runBehind, tokensBehind, htokens, hrow.filter_before hplaced.covers,
    hrow.filter_behind hplaced.covers] at hyields
  obtain ⟨u, x, v, ts', htext, hstart, hstop, hled, hleads, hedited⟩ :=
    exists_deleted htokens hplaced.covers hfirst hname h.seals
  refine ⟨u, x, v, htext, hstart, hstop, ?_⟩
  rw [(File.read_parse _).1, ← readStatements_relocate, hedited, readStatements_relocate]
  exact Recovered.read_spliced hts hled hleads hfront ha hplaced hbehind hyields

theorem QuickFix.apply_append {u x v : Text} {fix : QuickFix} (hreplacement : fix.replacement = [])
    (hstart : fix.span.start.offset = u.size) (hstop : fix.span.stop.offset = u.size + x.size) :
    (u ++ (x ++ v)).replace? fix.span.start.offset fix.span.stop.offset fix.replacement =
        some (u ++ v) ∧ fix.apply (u ++ (x ++ v)) = u ++ v := by
  have hreplace : (u ++ (x ++ v)).replace? fix.span.start.offset fix.span.stop.offset
      fix.replacement = some (u ++ v) := by
    rw [hstart, hstop, hreplacement, Text.replace?_append, List.append_nil]
  exact ⟨hreplace, by rw [QuickFix.apply, hreplace]; rfl⟩

/-- A fix takes one assignment out of the tree and leaves the others as they were, apart from
their spans, if the two sides of what it deletes stay apart. -/
theorem parse_apply_of_separable (text : Text) (selection : Span) (fix : QuickFix)
    (hfix : fix ∈ quickFixes text selection) (front : List Assignment) (a : Assignment)
    (behind : List Assignment)
    (hsplit : (File.parse text).file.assignments = front ++ a :: behind)
    (hspan : fix.span = a.span) (h : Separable text front a) :
    text.replace? fix.span.start.offset fix.span.stop.offset fix.replacement =
        some (fix.apply text) ∧
      (File.parse (fix.apply text)).file.assignments.map (Assignment.relocate .forget) =
        (front ++ behind).map (Assignment.relocate .forget) := by
  have hreplacement : fix.replacement = [] := by
    obtain ⟨-, -, -, -, -, rfl⟩ := mem_quickFixes_iff.1 hfix
    rfl
  obtain ⟨u, x, v, rfl, hstart, hstop, hread⟩ := h.exists_parts hsplit
  rw [← hspan] at hstart hstop
  obtain ⟨hreplace, happly⟩ := QuickFix.apply_append hreplacement hstart hstop
  rw [happly]
  exact ⟨hreplace, hread⟩

/-- The assignment sign of a definition without a value is left over and does no harm. -/
theorem parse_apply_without_value :
    ∃ fix front a behind,
      fix ∈ quickFixes "x := 1\na :=\nmessage := x".toList ⟨{}, ⟨24, 2, 12⟩⟩ ∧
      (File.parse "x := 1\na :=\nmessage := x".toList).file.assignments =
        front ++ a :: behind ∧
      fix.span = a.span ∧ a.isBroken = true ∧
      Separable "x := 1\na :=\nmessage := x".toList front a ∧
      fix.apply "x := 1\na :=\nmessage := x".toList =
        "x := 1\n :=\nmessage := x".toList ∧
      (File.parse (fix.apply "x := 1\na :=\nmessage := x".toList)).file.assignments.map
          (Assignment.relocate .forget) =
        (front ++ behind).map (Assignment.relocate .forget) := by
  let fix : QuickFix := ⟨"Remove unused definition", ⟨⟨7, 1, 0⟩, ⟨8, 1, 1⟩⟩, []⟩
  let x : Assignment :=
    ⟨⟨⟨⟨0, 0, 0⟩, ⟨1, 0, 1⟩⟩, "x"⟩, ⟨⟨0, 0, 0⟩, ⟨6, 0, 6⟩⟩,
      some (.integer ⟨⟨5, 0, 5⟩, ⟨6, 0, 6⟩⟩ "1")⟩
  let a : Assignment := ⟨⟨⟨⟨7, 1, 0⟩, ⟨8, 1, 1⟩⟩, "a"⟩, ⟨⟨7, 1, 0⟩, ⟨8, 1, 1⟩⟩, none⟩
  let message : Assignment :=
    ⟨⟨⟨⟨12, 2, 0⟩, ⟨19, 2, 7⟩⟩, "message"⟩, ⟨⟨12, 2, 0⟩, ⟨24, 2, 12⟩⟩,
      some (.reference ⟨⟨⟨23, 2, 11⟩, ⟨24, 2, 12⟩⟩, "x"⟩)⟩
  have hfix : fix ∈ quickFixes "x := 1\na :=\nmessage := x".toList ⟨{}, ⟨24, 2, 12⟩⟩ := by
    decide +kernel
  have hsplit : (File.parse "x := 1\na :=\nmessage := x".toList).file.assignments =
      [x] ++ a :: [message] := by
    decide +kernel
  have hseparable : Separable "x := 1\na :=\nmessage := x".toList [x] a :=
    ⟨by decide +kernel, by decide +kernel⟩
  exact ⟨fix, [x], a, [message], hfix, hsplit, rfl, rfl, hseparable, by decide +kernel,
    (parse_apply_of_separable _ _ fix hfix _ _ _ hsplit rfl hseparable).2⟩

-- an operator that is left over is skipped behind a definition that lacks an operand already
example :
    let front := (File.parse "c := 1 +\nb := 2 /".toList).file.assignments.take 1
    let a := (File.parse "c := 1 +\nb := 2 /".toList).file.assignments[1]!
    Separable "c := 1 +\nb := 2 /".toList front a := by
  decide +kernel

/-- The operator of a definition without a right operand is left over, and the definition in
front takes it up: its value is then broken too. -/
theorem parse_apply_without_operand :
    ∃ fix front a behind,
      fix ∈ quickFixes "x := 1\na := 2 +\nmessage := 1 - x".toList ⟨{}, ⟨32, 2, 16⟩⟩ ∧
      (File.parse "x := 1\na := 2 +\nmessage := 1 - x".toList).file.assignments =
        front ++ a :: behind ∧
      fix.span = a.span ∧ a.isBroken = true ∧
      fix.apply "x := 1\na := 2 +\nmessage := 1 - x".toList =
        "x := 1\n +\nmessage := 1 - x".toList ∧
      (File.parse (fix.apply "x := 1\na := 2 +\nmessage := 1 - x".toList)).file.assignments.map
          (Assignment.relocate .forget) ≠
        (front ++ behind).map (Assignment.relocate .forget) := by
  let as := (File.parse "x := 1\na := 2 +\nmessage := 1 - x".toList).file.assignments
  exact ⟨⟨"Remove unused definition", ⟨⟨7, 1, 0⟩, ⟨13, 1, 6⟩⟩, []⟩, as.take 1, as[1]!, as.drop 2,
    by decide +kernel, by decide +kernel, by decide +kernel, by decide +kernel, by decide +kernel,
    by decide +kernel⟩

end AssignLang
