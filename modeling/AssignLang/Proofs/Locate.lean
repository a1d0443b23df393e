import Mathlib.Data.Prod.Lex
import Mathlib.Order.Bounds.Basic
import AssignLang.Text.Lines
import AssignLang.Proofs.Positions
import AssignLang.Proofs.Recovery

/-! Offsets against lines and characters. Further on in a text the line grows, or it stays and
the character grows, so a point is known by its line and character alone. To go from an
offset to a point goes back to the last character boundary, to go from a line and a
character to an offset goes back to the end of the line or of the text, and apart from
that each undoes the other. -/

namespace AssignLang

namespace Text

/-- The offset cuts no character of the text. -/
def IsBoundary (text : Text) (offset : Nat) : Prop :=
  ∃ before behind, text = before ++ behind ∧ before.size = offset

/-- The characters of a line, without its newline. Lines count from zero. -/
def line (text : Text) (n : Nat) : Text := text.lines.getD n []

@[simp] theorem line_newline_zero (cs : Text) : line ('\n' :: cs) 0 = [] := by
  simp [line, lines]

@[simp] theorem line_newline_succ (cs : Text) (n : Nat) :
    line ('\n' :: cs) (n + 1) = line cs n := by
  simp [line, lines]

theorem line_cons_zero {c : Char} (hc : c ≠ '\n') (cs : Text) :
    line (c :: cs) 0 = c :: line cs 0 := by
  cases h : lines cs with
  | nil => exact absurd h (lines_ne_nil cs)
  | cons first more => simp [line, lines, hc, h]

theorem line_cons_succ {c : Char} (hc : c ≠ '\n') (cs : Text) (n : Nat) :
    line (c :: cs) (n + 1) = line cs (n + 1) := by
  cases h : lines cs with
  | nil => exact absurd h (lines_ne_nil cs)
  | cons first more => simp [line, lines, hc, h]

end Text

namespace Position

variable {p q q' : Position} {text : Text}

/-- Line and character, in the order in which they grow along a text. -/
def point (p : Position) : Nat ×ₗ Nat := toLex (p.line, p.character)

theorem point_lt_advance (p : Position) (c : Char) : p.point < (p.advance c).point := by
  rw [point, point, Prod.Lex.toLex_lt_toLex, advance]
  split
  · exact .inl (Nat.lt_succ_self _)
  · exact .inr ⟨rfl, Nat.lt_succ_self _⟩

theorem point_le_after (p : Position) (text : Text) : p.point ≤ (p.after text).point := by
  induction text generalizing p with
  | nil => exact le_rfl
  | cons c cs ih => exact (point_lt_advance p c).le.trans (ih (p.advance c))

theorem Within.offset_le (h : p.Within text q) (h' : p.Within text q')
    (hpoint : q.point ≤ q'.point) : q.offset ≤ q'.offset := by
  obtain ⟨before, behind, rfl, rfl⟩ := h
  obtain ⟨before', behind', htext, rfl⟩ := h'
  by_contra hlt
  rw [offset_after, offset_after, not_le] at hlt
  obtain ⟨m, rfl, -⟩ := Text.append_eq_append_of_size_le htext.symm (by omega)
  cases m with
  | nil => simp at hlt
  | cons c cs =>
    rw [after_append, after_cons] at hpoint
    have hadvance := point_lt_advance (p.after before') c
    exact absurd hpoint (hadvance.trans_le (point_le_after _ cs)).not_ge

theorem character_after_le (p : Position) (before behind : Text) :
    (p.after before).character ≤ (if before.count '\n' = 0 then p.character else 0) +
      ((before ++ behind).line (before.count '\n')).length := by
  induction before generalizing p with
  | nil => simp
  | cons c cs ih =>
    have hmore := ih (p.advance c)
    by_cases hc : c = '\n'
    · subst hc
      have hstart : (p.advance '\n').character = 0 := rfl
      rw [hstart, ite_self] at hmore
      simpa using hmore
    · have hcount : (c :: cs).count '\n' = cs.count '\n' := List.count_cons_of_ne hc
      have hstart : (p.advance c).character = p.character + 1 := by rw [advance, if_neg hc]
      rw [after_cons, hcount, List.cons_append]
      rw [hstart] at hmore
      cases hn : cs.count '\n' with
      | zero =>
        rw [hn] at hmore
        rw [Text.line_cons_zero hc, List.length_cons]
        simp only [if_true] at hmore ⊢
        omega
      | succ n =>
        rw [hn] at hmore
        rw [Text.line_cons_succ hc]
        simpa using hmore

theorem Within.character_le (h : Within {} text q) :
    q.character ≤ (text.line q.line).length := by
  obtain ⟨before, behind, rfl, rfl⟩ := h
  have hle := character_after_le {} before behind
  rw [ite_self, Nat.zero_add] at hle
  rwa [line_after, Nat.zero_add]

theorem Within.line_le (h : Within {} text q) : q.line ≤ text.count '\n' := by
  obtain ⟨before, behind, rfl, rfl⟩ := h
  rw [line_after, Nat.zero_add, List.count_append]
  exact Nat.le_add_right _ _

theorem Within.isBoundary (h : Within {} text q) : text.IsBoundary q.offset := by
  obtain ⟨before, behind, rfl, rfl⟩ := h
  exact ⟨before, behind, rfl, by simp⟩

end Position

namespace Text

/-- Walking to an offset stops at a point from which the next character leads past it. -/
theorem exists_walkTo {offset : Nat} {p : Position} (hp : p.offset ≤ offset) (text : Text) :
    ∃ before behind, text = before ++ behind ∧ walkTo offset p text = p.after before ∧
      (p.after before).offset ≤ offset ∧
      ∀ c ∈ behind.head?, offset < (p.after before).offset + c.utf8Size := by
  induction text generalizing p with
  | nil => exact ⟨[], [], rfl, rfl, hp, by simp⟩
  | cons c cs ih =>
    rw [walkTo]
    split
    · rename_i hlt
      exact ⟨[], c :: cs, rfl, rfl, hp, by simpa using hlt⟩
    · rename_i hge
      obtain ⟨before, behind, rfl, hwalk, hrest⟩ := ih (p := p.advance c) (by simpa using hge)
      exact ⟨c :: before, behind, rfl, hwalk, hrest⟩

theorem within_positionAt (text : Text) (offset : Nat) :
    Position.Within {} text (text.positionAt offset) := by
  obtain ⟨before, behind, htext, hwalk, -⟩ := exists_walkTo (p := {}) (Nat.zero_le offset) text
  exact ⟨before, behind, htext, hwalk⟩

/-- No boundary lies between the point at an offset and the offset. -/
theorem isGreatest_positionAt (text : Text) (offset : Nat) :
    IsGreatest {b | text.IsBoundary b ∧ b ≤ min offset text.size}
      (text.positionAt offset).offset := by
  have hwithin := within_positionAt text offset
  obtain ⟨before, behind, htext, hwalk, hle, hstop⟩ :=
    exists_walkTo (p := {}) (Nat.zero_le offset) text
  rw [positionAt, hwalk] at hwithin ⊢
  refine ⟨⟨hwithin.isBoundary, Nat.le_min.2 ⟨hle, hwithin.consistent.le_size⟩⟩, ?_⟩
  rintro b ⟨⟨before', behind', htext', rfl⟩, hb⟩
  rw [Position.offset_after, Nat.zero_add] at hle hstop ⊢
  by_contra hlt
  -- a boundary further on has the next character before it
  obtain ⟨m, rfl, rfl⟩ := append_eq_append_of_size_le (htext.symm.trans htext') (by omega)
  cases m with
  | nil => simp at hlt
  | cons c cs =>
    have hpast := hstop c rfl
    simp only [size_append, size_cons] at hb
    omega

theorem exists_walkColumns (n : Nat) (p : Position) (text : Text) :
    ∃ q, p.Within text q ∧ walkColumns p.offset n text = q.offset ∧ q.line = p.line ∧
      q.character = p.character + min n (text.line 0).length := by
  induction text generalizing n p with
  | nil =>
    refine ⟨p, Position.within_self _ _, ?_, rfl, by simp [line, lines]⟩
    cases n <;> rfl
  | cons c cs ih =>
    cases n with
    | zero => exact ⟨p, Position.within_self _ _, rfl, rfl, by simp⟩
    | succ n =>
      rw [walkColumns]
      split
      · rename_i hc
        subst hc
        exact ⟨p, Position.within_self _ _, rfl, rfl, by simp⟩
      · rename_i hc
        have hadvance : p.advance c = ⟨p.offset + c.utf8Size, p.line, p.character + 1⟩ := by
          rw [Position.advance, if_neg hc]
        obtain ⟨q, hq, hoffset, hline, hcharacter⟩ := ih n (p.advance c)
        rw [hadvance] at hoffset hline hcharacter
        refine ⟨q, Position.Within.behind (s := [c]) hq, hoffset, hline, ?_⟩
        rw [hcharacter, line_cons_zero hc, List.length_cons]
        simp only
        omega

/-- Walking over lines and columns leads to the line asked for, and to the character asked for
if the line has it. -/
theorem exists_walkLines (character n : Nat) (p : Position) (text : Text)
    (hp : n = 0 → p.character = 0) (hn : n ≤ text.count '\n') :
    ∃ q, p.Within text q ∧ walkLines character p.offset n text = q.offset ∧
      q.line = p.line + n ∧ q.character = min character (text.line n).length := by
  induction text generalizing n p with
  | nil =>
    obtain rfl : n = 0 := Nat.le_zero.1 hn
    exact ⟨p, Position.within_self _ _, rfl, rfl, by simp [line, lines, hp rfl]⟩
  | cons c cs ih =>
    cases n with
    | zero =>
      obtain ⟨q, hq, hoffset, hline, hcharacter⟩ := exists_walkColumns character p (c :: cs)
      rw [hp rfl, Nat.zero_add] at hcharacter
      exact ⟨q, hq, hoffset, hline, hcharacter⟩
    | succ n =>
      rw [walkLines]
      split
      · rename_i hc
        subst hc
        obtain ⟨q, hq, hoffset, hline, hcharacter⟩ :=
          ih n (p.advance '\n') (fun _ => rfl) (by simpa using hn)
        refine ⟨q, Position.Within.behind (s := ['\n']) hq, hoffset, ?_, ?_⟩
        · rw [hline, Position.advance, if_pos rfl]
          simp only
          omega
        · rw [hcharacter, line_newline_succ]
      · rename_i hc
        rw [List.count_cons_of_ne hc] at hn
        obtain ⟨q, hq, hoffset, hline, hcharacter⟩ :=
          ih (n + 1) (p.advance c) (by simp) hn
        rw [Position.offset_advance] at hoffset
        refine ⟨q, Position.Within.behind (s := [c]) hq, hoffset, ?_, ?_⟩
        · rw [hline, Position.advance, if_neg hc]
        · rw [hcharacter, line_cons_succ hc]

theorem walkLines_of_lt (character offset n : Nat) (text : Text) (hn : text.count '\n' < n) :
    walkLines character offset n text = offset + text.size := by
  induction text generalizing offset n with
  | nil => cases n <;> simp [walkLines]
  | cons c cs ih =>
    cases n with
    | zero => simp at hn
    | succ n =>
      rw [walkLines]
      split
      · rename_i hc
        subst hc
        rw [ih _ n (by simpa using hn), size_cons, Nat.add_assoc]
      · rename_i hc
        rw [List.count_cons_of_ne hc] at hn
        rw [ih _ (n + 1) hn, size_cons, Nat.add_assoc]

theorem exists_offsetAt {text : Text} {line : Nat} (hline : line ≤ text.count '\n')
    (character : Nat) : ∃ q, Position.Within {} text q ∧ text.offsetAt line character = q.offset ∧
      q.line = line ∧ q.character = min character (text.line line).length := by
  obtain ⟨q, hq, hoffset, hl, hc⟩ :=
    exists_walkLines character line {} text (fun _ => rfl) hline
  exact ⟨q, hq, hoffset, by simpa using hl, hc⟩

theorem offsetAt_of_lt {text : Text} {line : Nat} (hline : text.count '\n' < line)
    (character : Nat) : text.offsetAt line character = text.finish.offset := by
  rw [offsetAt, walkLines_of_lt _ _ _ _ hline, finish, Position.offset_after]

theorem exists_within_offsetAt (text : Text) (line character : Nat) :
    ∃ q, Position.Within {} text q ∧ text.offsetAt line character = q.offset := by
  by_cases hline : line ≤ text.count '\n'
  · obtain ⟨q, hq, hoffset, -⟩ := exists_offsetAt hline character
    exact ⟨q, hq, hoffset⟩
  · exact ⟨text.finish, Position.within_finish text, offsetAt_of_lt (not_le.1 hline) character⟩

theorem offsetAt_of_within {text : Text} {q : Position} (h : Position.Within {} text q) :
    text.offsetAt q.line q.character = q.offset := by
  obtain ⟨q', hq', hoffset, hline, hcharacter⟩ := exists_offsetAt h.line_le q.character
  rw [Nat.min_eq_left h.character_le] at hcharacter
  have hpoint : q'.point = q.point := by rw [Position.point, Position.point, hline, hcharacter]
  rw [hoffset]
  exact Nat.le_antisymm (hq'.offset_le h hpoint.le) (h.offset_le hq' hpoint.ge)

theorem monotone_offsetAt (text : Text) :
    Monotone fun point : Nat ×ₗ Nat => text.offsetAt (ofLex point).1 (ofLex point).2 := by
  intro point point' hle
  obtain ⟨line, character⟩ := point
  obtain ⟨line', character'⟩ := point'
  change text.offsetAt line character ≤ text.offsetAt line' character'
  by_cases hline' : line' ≤ text.count '\n'
  · have hlines : line ≤ line' := Prod.Lex.monotone_fst _ _ hle
    obtain ⟨q, hq, hoffset, hl, hc⟩ := exists_offsetAt (hlines.trans hline') character
    obtain ⟨q', hq', hoffset', hl', hc'⟩ := exists_offsetAt hline' character'
    rw [hoffset, hoffset']
    refine hq.offset_le hq' ?_
    rw [Position.point, Position.point, hl, hl', hc, hc', Prod.Lex.toLex_le_toLex]
    rcases Prod.Lex.le_iff.1 hle with hlt | ⟨heq, hcs⟩
    · exact .inl hlt
    · obtain rfl : line = line' := heq
      exact .inr ⟨rfl, min_le_min_right _ hcs⟩
  · obtain ⟨q, hq, hoffset⟩ := exists_within_offsetAt text line character
    rw [offsetAt_of_lt (not_le.1 hline'), hoffset, finish, Position.offset_after, Nat.zero_add]
    exact hq.consistent.le_size

/-- Offsets and points undo each other, up to clamping. -/
theorem positionAt_offsetAt_inverse (text : Text) :
    (∀ offset,
      IsGreatest {b | text.IsBoundary b ∧ b ≤ min offset text.size}
        (text.positionAt offset).offset ∧
      text.offsetAt (text.positionAt offset).line (text.positionAt offset).character =
        (text.positionAt offset).offset) ∧
    (∀ line character,
      text.IsBoundary (text.offsetAt line character) ∧
      text.offsetAt line character ≤ text.size ∧
      if line ≤ text.count '\n' then
        (text.positionAt (text.offsetAt line character)).line = line ∧
        (text.positionAt (text.offsetAt line character)).character =
          min character (text.line line).length
      else text.positionAt (text.offsetAt line character) = text.finish) ∧
    Monotone fun point : Nat ×ₗ Nat => text.offsetAt (ofLex point).1 (ofLex point).2 := by
  refine ⟨fun offset => ⟨isGreatest_positionAt text offset, ?_⟩, fun line character => ?_,
    monotone_offsetAt text⟩
  · exact offsetAt_of_within (within_positionAt text offset)
  · obtain ⟨q, hq, hoffset⟩ := exists_within_offsetAt text line character
    refine ⟨hoffset ▸ hq.isBoundary, hoffset ▸ hq.consistent.le_size, ?_⟩
    split
    · rename_i hline
      obtain ⟨q, hq, hoffset, hl, hc⟩ := exists_offsetAt hline character
      rw [hoffset, ← hq.consistent.eq_positionAt]
      exact ⟨hl, hc⟩
    · rename_i hline
      rw [offsetAt_of_lt (not_le.1 hline),
        ← (Position.within_finish text).consistent.eq_positionAt]

end Text

end AssignLang
