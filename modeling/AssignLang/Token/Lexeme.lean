import AssignLang.Identifier
import AssignLang.Operator

/-! The spellings of tokens. Reading takes the longest identifier or digit run;
a string reaches to the next quote, over newlines too, or to the end of the text
if no quote comes. There are no escapes. -/

namespace AssignLang

inductive Lexeme where
  | word (name : Text)
  | number (digits : Text)
  | quoted (value : Text) (closed : Bool)
  | assign
  | operator (op : Operator)
deriving DecidableEq, Repr, Inhabited

namespace Lexeme

def spelling : Lexeme → Text
  | .word name => name
  | .number digits => digits
  | .quoted value closed => '"' :: (value ++ if closed then ['"'] else [])
  | .assign => [':', '=']
  | .operator op => [op.symbol]

def readQuoted (text : Text) : Lexeme × Text :=
  match text.dropWhile (· != '"') with
  | [] => (.quoted (text.takeWhile (· != '"')) false, [])
  | _ :: rest => (.quoted (text.takeWhile (· != '"')) true, rest)

def read? : Text → Option (Lexeme × Text)
  | [] => none
  | c :: cs =>
    if Identifier.isStart c then
      some (.word (c :: cs.takeWhile Identifier.isPart), cs.dropWhile Identifier.isPart)
    else if c.isDigit then
      some (.number (c :: cs.takeWhile Char.isDigit), cs.dropWhile Char.isDigit)
    else if c = '"' then some (readQuoted cs)
    else if c = ':' ∧ cs.head? = some '=' then some (.assign, cs.tail)
    else (Operator.ofSymbol? c).map fun op => (.operator op, cs)

theorem spelling_readQuoted (text : Text) :
    (readQuoted text).1.spelling ++ (readQuoted text).2 = '"' :: text := by
  have parts := List.takeWhile_append_dropWhile (p := (· != '"')) (l := text)
  unfold readQuoted
  split
  · rename_i h
    rw [h, List.append_nil] at parts
    simp [spelling, parts]
  · rename_i q rest h
    have hq : q = '"' := by
      have := List.head?_dropWhile_not (· != '"') text
      rw [h] at this
      simpa using this
    rw [h, hq] at parts
    simp [spelling, parts]

/-- Nothing is lost: what was read is spelled as it stood there. -/
theorem spelling_append_of_read? {text rest : Text} {lexeme : Lexeme}
    (h : read? text = some (lexeme, rest)) : lexeme.spelling ++ rest = text := by
  cases text with
  | nil => simp [read?] at h
  | cons c cs =>
    simp only [read?] at h
    split at h
    · obtain ⟨rfl, rfl⟩ := Prod.mk.inj (Option.some.inj h)
      simp [spelling, List.takeWhile_append_dropWhile]
    · split at h
      · obtain ⟨rfl, rfl⟩ := Prod.mk.inj (Option.some.inj h)
        simp [spelling, List.takeWhile_append_dropWhile]
      · split at h
        · rename_i hq
          have := spelling_readQuoted cs
          rw [Option.some.inj h] at this
          rw [this, hq]
        · split at h
          · rename_i ha
            obtain ⟨rfl, rfl⟩ := Prod.mk.inj (Option.some.inj h)
            obtain ⟨rfl, he⟩ := ha
            cases cs with
            | nil => simp at he
            | cons d ds => simp_all [spelling]
          · obtain ⟨op, hop, heq⟩ := Option.map_eq_some_iff.1 h
            obtain ⟨rfl, rfl⟩ := Prod.mk.inj heq
            rw [Operator.ofSymbol?_eq_some_iff] at hop
            simp [spelling, hop]

theorem spelling_ne_nil_of_read? {text rest : Text} {lexeme : Lexeme}
    (h : read? text = some (lexeme, rest)) : lexeme.spelling ≠ [] := by
  cases text with
  | nil => simp [read?] at h
  | cons c cs =>
    simp only [read?] at h
    split at h
    · simp_all [spelling, ← (Prod.mk.inj (Option.some.inj h)).1]
    · split at h
      · simp_all [spelling, ← (Prod.mk.inj (Option.some.inj h)).1]
      · split at h
        · have : (readQuoted cs).1 = lexeme := by rw [Option.some.inj h]
          rw [← this]
          unfold readQuoted
          split <;> simp [spelling]
        · split at h
          · simp_all [spelling, ← (Prod.mk.inj (Option.some.inj h)).1]
          · obtain ⟨op, -, heq⟩ := Option.map_eq_some_iff.1 h
            simp [← (Prod.mk.inj heq).1, spelling]

theorem length_lt_of_read? {text rest : Text} {lexeme : Lexeme}
    (h : read? text = some (lexeme, rest)) : rest.length < text.length := by
  rw [← spelling_append_of_read? h, List.length_append]
  have := List.length_pos_iff.2 (spelling_ne_nil_of_read? h)
  omega

end Lexeme

end AssignLang
