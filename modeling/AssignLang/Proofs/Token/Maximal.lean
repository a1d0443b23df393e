import AssignLang.Token.Cursor
import AssignLang.Token.Lexeme

/-! Lexemes where they stand. Whether a lexeme is what is read at some place depends on
its spelling and on the one character behind it, so parts of texts can be exchanged as
long as that character stays or does no harm. -/

namespace AssignLang

theorem isDigit_iff {c : Char} : c.isDigit = true ↔ 48 ≤ c.toNat ∧ c.toNat ≤ 57 := by
  simp only [Char.isDigit, Bool.and_eq_true, decide_eq_true_eq, UInt32.le_iff_toNat_le, ge_iff_le]
  rfl

namespace Identifier

theorem isStart_iff {c : Char} : isStart c = true ↔
    (65 ≤ c.toNat ∧ c.toNat ≤ 90) ∨ (97 ≤ c.toNat ∧ c.toNat ≤ 122) ∨ c.toNat = 95 := by
  have h95 : c = '_' ↔ c.toNat = 95 := by rw [← Char.toNat_inj]; rfl
  have hupper : c.isUpper = true ↔ 65 ≤ c.toNat ∧ c.toNat ≤ 90 := by
    change decide (c.val ≥ 'A'.val ∧ c.val ≤ 'Z'.val) = true ↔ _
    rw [decide_eq_true_eq, ge_iff_le, UInt32.le_iff_toNat_le, UInt32.le_iff_toNat_le]
    rfl
  have hlower : c.isLower = true ↔ 97 ≤ c.toNat ∧ c.toNat ≤ 122 := by
    change (decide (c.val ≥ 'a'.val) && decide (c.val ≤ 'z'.val)) = true ↔ _
    rw [Bool.and_eq_true, decide_eq_true_eq, decide_eq_true_eq, ge_iff_le,
      UInt32.le_iff_toNat_le, UInt32.le_iff_toNat_le]
    rfl
  change (c.isUpper || c.isLower || decide (c = '_')) = true ↔ _
  rw [Bool.or_eq_true, Bool.or_eq_true, decide_eq_true_eq, hupper, hlower, h95, or_assoc]

theorem isStart_of_isDigit {c : Char} (h : c.isDigit = true) : isStart c = false := by
  rw [Bool.eq_false_iff]
  intro hs
  rw [isStart_iff] at hs
  rw [isDigit_iff] at h
  omega

end Identifier

namespace Text

theorem code_of_isWhitespace {c : Char} (h : isWhitespace c = true) :
    (9 ≤ c.toNat ∧ c.toNat ≤ 13) ∨ c.toNat = 32 ∨ 133 ≤ c.toNat := by
  obtain ⟨r, hr, hlow, hhigh⟩ := exists_range_of_inRanges h
  simp only [whitespaceRanges, List.mem_cons, List.not_mem_nil, or_false] at hr
  rcases hr with rfl | rfl | rfl | rfl | rfl | rfl | rfl | rfl | rfl | rfl <;>
    simp at hlow hhigh <;> omega

/-- What stands here is neither a blank nor the start of a comment. -/
def StartsToken : Text → Prop
  | [] => False
  | c :: cs => isWhitespace c = false ∧ ¬ (c = '/' ∧ cs.head? = some '/')

end Text

namespace Lexeme

/-- The lexeme is spelled as its sort is, and the next character does not prolong it. -/
def Fits (next : Option Char) : Lexeme → Prop
  | .word name => Identifier.isValid name = true ∧ ∀ c ∈ next, Identifier.isPart c = false
  | .number digits =>
    digits ≠ [] ∧ (∀ c ∈ digits, c.isDigit = true) ∧ ∀ c ∈ next, c.isDigit = false
  | .quoted value closed => '"' ∉ value ∧ (closed = false → next = none)
  | .assign => True
  | .operator op => op = .divide → next ≠ some '/'

theorem takeWhile_append_stop {p : Char → Bool} {s rest : Text} (hs : ∀ c ∈ s, p c = true)
    (hrest : ∀ c ∈ rest.head?, p c = false) : (s ++ rest).takeWhile p = s := by
  rw [List.takeWhile_append_of_pos hs]
  cases rest with
  | nil => simp
  | cons c cs => simp [hrest c rfl]

theorem dropWhile_append_stop {p : Char → Bool} {s rest : Text} (hs : ∀ c ∈ s, p c = true)
    (hrest : ∀ c ∈ rest.head?, p c = false) : (s ++ rest).dropWhile p = rest := by
  rw [List.dropWhile_append_of_pos hs]
  cases rest with
  | nil => rfl
  | cons c cs => simp [hrest c rfl]

theorem head?_dropWhile {p : Char → Bool} {text : Text} :
    ∀ c ∈ (text.dropWhile p).head?, p c = false := by
  intro c hc
  have h := List.head?_dropWhile_not p text
  rw [hc] at h
  simpa using h

theorem readQuoted_closed {value rest : Text} (h : '"' ∉ value) :
    readQuoted (value ++ '"' :: rest) = (.quoted value true, rest) := by
  have hall : ∀ c ∈ value, (c != '"') = true := by
    intro c hc
    rw [bne_iff_ne]
    rintro rfl
    exact h hc
  have hstop : ∀ c ∈ ('"' :: rest).head?, (c != '"') = false := by simp
  simp only [readQuoted, dropWhile_append_stop hall hstop, takeWhile_append_stop hall hstop]

theorem readQuoted_open {value : Text} (h : '"' ∉ value) :
    readQuoted value = (.quoted value false, []) := by
  have hall : ∀ c ∈ value, (c != '"') = true := by
    intro c hc
    rw [bne_iff_ne]
    rintro rfl
    exact h hc
  have hdrop : (value ++ []).dropWhile (· != '"') = [] := dropWhile_append_stop hall (by simp)
  have htake : (value ++ []).takeWhile (· != '"') = value := takeWhile_append_stop hall (by simp)
  rw [List.append_nil] at hdrop htake
  simp only [readQuoted, hdrop, htake]

theorem read?_of_fits {lexeme : Lexeme} {rest : Text} (h : lexeme.Fits rest.head?) :
    read? (lexeme.spelling ++ rest) = some (lexeme, rest) := by
  cases lexeme with
  | word name =>
    obtain ⟨hvalid, hnext⟩ := h
    cases name with
    | nil => simp [Identifier.isValid] at hvalid
    | cons c cs =>
      simp only [Identifier.isValid, Bool.and_eq_true, List.all_eq_true] at hvalid
      simp only [spelling, List.cons_append, read?, hvalid.1, if_true,
        takeWhile_append_stop hvalid.2 hnext, dropWhile_append_stop hvalid.2 hnext]
  | number digits =>
    obtain ⟨hne, hdigits, hnext⟩ := h
    cases digits with
    | nil => simp at hne
    | cons c cs =>
      have hc := hdigits c (by simp)
      have hcs : ∀ d ∈ cs, d.isDigit = true := fun d hd => hdigits d (List.mem_cons_of_mem c hd)
      simp only [spelling, List.cons_append, read?, Identifier.isStart_of_isDigit hc, hc, if_true,
        Bool.false_eq_true, if_false, takeWhile_append_stop hcs hnext,
        dropWhile_append_stop hcs hnext]
  | quoted value closed =>
    obtain ⟨hvalue, hnext⟩ := h
    have hstart : Identifier.isStart '"' = false := by decide
    have hdigit : Char.isDigit '"' = false := by decide
    cases closed with
    | true =>
      simp only [spelling, if_true, List.cons_append, List.append_assoc, List.nil_append, read?,
        hstart, hdigit, Bool.false_eq_true, if_false, readQuoted_closed hvalue]
    | false =>
      obtain rfl : rest = [] := List.head?_eq_none_iff.1 (hnext rfl)
      simp only [spelling, List.append_nil, read?, hstart, hdigit, Bool.false_eq_true, if_false,
        if_true, readQuoted_open hvalue]
  | assign =>
    have hstart : Identifier.isStart ':' = false := by decide
    have hdigit : Char.isDigit ':' = false := by decide
    simp [spelling, read?, hstart, hdigit]
  | operator op =>
    have hstart : Identifier.isStart op.symbol = false := by cases op <;> decide
    have hdigit : op.symbol.isDigit = false := by cases op <;> decide
    have hquote : op.symbol ≠ '"' := by cases op <;> decide
    have hcolon : op.symbol ≠ ':' := by cases op <;> decide
    simp [spelling, read?, hstart, hdigit, hquote, hcolon, Operator.ofSymbol?_symbol]

theorem fits_readQuoted (text : Text) :
    (readQuoted text).1.Fits (readQuoted text).2.head? := by
  have hvalue : '"' ∉ text.takeWhile (· != '"') := by
    intro hmem
    have hne := List.all_eq_true.1 List.all_takeWhile _ hmem
    simp at hne
  unfold readQuoted
  split
  · exact ⟨hvalue, fun _ => rfl⟩
  · exact ⟨hvalue, fun h => by simp at h⟩

theorem fits_of_read? {text rest : Text} {lexeme : Lexeme} (h : read? text = some (lexeme, rest))
    (htoken : text.StartsToken) : lexeme.Fits rest.head? := by
  cases text with
  | nil => simp [read?] at h
  | cons c cs =>
    simp only [read?] at h
    split at h
    · rename_i hstart
      obtain ⟨rfl, rfl⟩ := Prod.mk.inj (Option.some.inj h)
      refine ⟨?_, head?_dropWhile⟩
      simp only [Identifier.isValid, hstart, Bool.true_and, List.all_eq_true]
      exact List.all_eq_true.1 List.all_takeWhile
    · split at h
      · rename_i hdigit
        obtain ⟨rfl, rfl⟩ := Prod.mk.inj (Option.some.inj h)
        refine ⟨by simp, fun d hd => ?_, head?_dropWhile⟩
        rcases List.mem_cons.1 hd with rfl | hd
        · exact hdigit
        · exact List.all_eq_true.1 List.all_takeWhile d hd
      · split at h
        · have hfits := fits_readQuoted cs
          rwa [Option.some.inj h] at hfits
        · split at h
          · obtain ⟨rfl, -⟩ := Prod.mk.inj (Option.some.inj h)
            trivial
          · obtain ⟨op, hop, heq⟩ := Option.map_eq_some_iff.1 h
            obtain ⟨rfl, rfl⟩ := Prod.mk.inj heq
            rw [Operator.ofSymbol?_eq_some_iff] at hop
            rintro rfl hslash
            exact htoken.2 ⟨hop, hslash⟩

theorem read?_eq_none_of_isWhitespace {c : Char} {cs : Text} (h : Text.isWhitespace c = true) :
    read? (c :: cs) = none := by
  have hcode := Text.code_of_isWhitespace h
  have hstart : Identifier.isStart c = false := by
    rw [Bool.eq_false_iff, ne_eq, Identifier.isStart_iff]; omega
  have hdigit : c.isDigit = false := by
    rw [Bool.eq_false_iff, ne_eq, isDigit_iff]; omega
  have hne : ∀ d : Char, d.toNat ∈ [34, 58, 43, 45, 42, 47] → c ≠ d := by
    rintro d hd rfl
    simp only [List.mem_cons, List.not_mem_nil, or_false] at hd
    omega
  have hsymbol : Operator.ofSymbol? c = none := by
    rw [Option.eq_none_iff_forall_ne_some]
    intro op hop
    refine hne op.symbol ?_ (Operator.ofSymbol?_eq_some_iff.1 hop)
    cases op <;> decide
  simp [read?, hstart, hdigit, hne '"' (by decide), hne ':' (by decide), hsymbol]

/-- No blank and no comment is taken for a lexeme. -/
theorem startsToken_of_fits {lexeme : Lexeme} {rest : Text} (h : lexeme.Fits rest.head?) :
    Text.StartsToken (lexeme.spelling ++ rest) := by
  have hread := read?_of_fits h
  cases htext : lexeme.spelling ++ rest with
  | nil => rw [htext] at hread; simp [read?] at hread
  | cons c cs =>
    rw [htext] at hread
    refine ⟨?_, ?_⟩
    · rw [Bool.eq_false_iff]
      intro hc
      rw [read?_eq_none_of_isWhitespace hc] at hread
      simp at hread
    · rintro ⟨rfl, hslash⟩
      have hdivide : read? ('/' :: cs) = some (.operator .divide, cs) := by
        simp [read?, show Identifier.isStart '/' = false by decide,
          show Char.isDigit '/' = false by decide, Operator.ofSymbol?]
      obtain ⟨rfl, rfl⟩ := Prod.mk.inj (Option.some.inj (hread.symm.trans hdivide))
      exact h rfl hslash

end Lexeme

end AssignLang
