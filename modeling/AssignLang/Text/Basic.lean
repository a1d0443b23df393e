/-! Source text is a list of characters. Offsets into it count bytes of its
UTF-8 form, so a text has a `size` beside its length. -/

namespace AssignLang

abbrev Text := List Char

namespace Text

/-- The number of bytes that the text takes in UTF-8. -/
def size (text : Text) : Nat := text.foldr (fun c n => c.utf8Size + n) 0

@[simp] theorem size_nil : size [] = 0 := rfl

@[simp] theorem size_cons (c : Char) (cs : Text) : size (c :: cs) = c.utf8Size + size cs := rfl

@[simp] theorem size_append (s t : Text) : size (s ++ t) = size s + size t := by
  induction s with
  | nil => simp
  | cons c cs ih => simp [ih, Nat.add_assoc]

theorem size_eq_zero {text : Text} : size text = 0 ↔ text = [] := by
  cases text with
  | nil => simp
  | cons c cs => simp [Nat.ne_of_gt (Char.utf8Size_pos c)]

/-- Of two first parts of a text the smaller is a first part of the other. -/
theorem append_eq_append_of_size_le {s s' t t' : Text} (h : s ++ t = s' ++ t')
    (hsize : s.size ≤ s'.size) : ∃ m, s' = s ++ m ∧ t = m ++ t' := by
  rcases List.append_eq_append_iff.1 h with ⟨m, hs, ht⟩ | ⟨m, hs, ht⟩
  · exact ⟨m, hs, ht⟩
  · have hnil : m = [] := by
      rw [hs, size_append] at hsize
      exact size_eq_zero.1 (by omega)
    subst hnil
    exact ⟨[], by simpa using hs.symm, by simpa using ht.symm⟩

end Text

end AssignLang
