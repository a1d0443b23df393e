import AssignLang.Text.Basic

/-! Replacing a range of bytes. A range can be replaced if it runs forwards,
ends inside the text and cuts no character in two. -/

namespace AssignLang.Text

/-- Moves characters from the second list to the first, in reverse, until
`bytes` bytes are moved; there is no answer if that cuts a character or runs
past the end. -/
def moveBytes (passed : Text) : Nat → Text → Option (Text × Text)
  | 0, rest => some (passed, rest)
  | _ + 1, [] => none
  | n + 1, c :: cs =>
    if c.utf8Size ≤ n + 1 then moveBytes (c :: passed) (n + 1 - c.utf8Size) cs else none

def splitAt? (text : Text) (offset : Nat) : Option (Text × Text) :=
  (moveBytes [] offset text).map fun (passed, rest) => (passed.reverse, rest)

theorem moveBytes_append (passed before rest : Text) :
    moveBytes passed before.size (before ++ rest) = some (before.reverse ++ passed, rest) := by
  induction before generalizing passed with
  | nil => cases rest <;> simp [moveBytes]
  | cons c cs ih =>
    obtain ⟨n, hn⟩ : ∃ n, c.utf8Size + size cs = n + 1 :=
      ⟨c.utf8Size + size cs - 1, by have := Char.utf8Size_pos c; omega⟩
    rw [size_cons, hn, List.cons_append, moveBytes, if_pos (by omega),
      show n + 1 - c.utf8Size = size cs by omega, ih]
    simp

theorem append_of_moveBytes {passed text before rest : Text} {n : Nat}
    (h : moveBytes passed n text = some (before, rest)) :
    ∃ moved, before = moved.reverse ++ passed ∧ text = moved ++ rest ∧ moved.size = n := by
  fun_induction moveBytes passed n text with
  | case1 passed text =>
    obtain ⟨rfl, rfl⟩ := Prod.mk.inj (Option.some.inj h)
    exact ⟨[], by simp⟩
  | case2 => simp at h
  | case3 passed n c cs hc ih =>
    obtain ⟨moved, rfl, rfl, hsize⟩ := ih h
    exact ⟨c :: moved, by simp, rfl, by rw [size_cons]; omega⟩
  | case4 => simp at h

/-- A text is split exactly where a part of it ends. -/
theorem splitAt?_eq_some_iff {text before rest : Text} {n : Nat} :
    splitAt? text n = some (before, rest) ↔ text = before ++ rest ∧ before.size = n := by
  constructor
  · intro h
    obtain ⟨⟨moved, left⟩, hm, heq⟩ := Option.map_eq_some_iff.1 h
    obtain ⟨rfl, rfl⟩ := Prod.mk.inj heq
    obtain ⟨part, rfl, rfl, hsize⟩ := append_of_moveBytes hm
    simpa using hsize
  · rintro ⟨rfl, rfl⟩
    simp [splitAt?, moveBytes_append]

def replace? (text : Text) (start stop : Nat) (new : Text) : Option Text :=
  if start ≤ stop then do
    let (before, rest) ← splitAt? text start
    let (_, behind) ← splitAt? rest (stop - start)
    return before ++ new ++ behind
  else none

theorem replace?_append (u x v new : Text) :
    (u ++ (x ++ v)).replace? u.size (u.size + x.size) new = some (u ++ new ++ v) := by
  rw [replace?, if_pos (Nat.le_add_right _ _), splitAt?_eq_some_iff.2 ⟨rfl, rfl⟩]
  simp only [Option.bind_eq_bind, Option.bind_some]
  rw [Nat.add_sub_cancel_left, splitAt?_eq_some_iff.2 ⟨rfl, rfl⟩]
  rfl

end AssignLang.Text
