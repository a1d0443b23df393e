/-! Sets of characters, given by the ranges of their code points. -/

namespace AssignLang.Text

/-- Whether a character lies in one of the closed ranges of code points, which are in
increasing order, so that none behind the character has to be looked at. -/
def inRanges (c : Char) : List (Nat × Nat) → Bool
  | [] => false
  | (first, last) :: rest => first ≤ c.toNat && (c.toNat ≤ last || inRanges c rest)

theorem exists_range_of_inRanges {c : Char} {ranges : List (Nat × Nat)}
    (h : inRanges c ranges = true) : ∃ r ∈ ranges, r.1 ≤ c.toNat ∧ c.toNat ≤ r.2 := by
  induction ranges with
  | nil => simp [inRanges] at h
  | cons r rest ih =>
    simp only [inRanges, Bool.and_eq_true, Bool.or_eq_true, decide_eq_true_eq] at h
    rcases h with ⟨hfirst, hlast | hrest⟩
    · exact ⟨r, List.mem_cons_self, hfirst, hlast⟩
    · obtain ⟨s, hs, hc⟩ := ih hrest
      exact ⟨s, List.mem_cons_of_mem r hs, hc⟩

end AssignLang.Text
