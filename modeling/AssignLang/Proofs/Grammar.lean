import Mathlib.Computability.Language
import AssignLang.Proofs.Parse.Derivation

/-! The grammar of files as a language over the kinds of tokens, and trees that keep its
precedences. The parser complains about nothing exactly if the kinds of the tokens are a
word of the grammar. The tree then is the one tree of that shape that reads back, from
left to right, as the tokens. -/

namespace AssignLang

open scoped Computability

namespace Grammar

def symbol (kind : TokenKind) : Language TokenKind := {[kind]}

def atom : Language TokenKind := symbol .integer + symbol .ident + symbol .string

def mulDiv : Language TokenKind :=
  atom * ((symbol (.operator .multiply) + symbol (.operator .divide)) * atom)∗

def value : Language TokenKind :=
  mulDiv * ((symbol (.operator .add) + symbol (.operator .subtract)) * mulDiv)∗

def assignment : Language TokenKind :=
  (symbol .ident + symbol .leadingIdent) * symbol .assign * value

def file : Language TokenKind := assignment∗ * symbol .eof

theorem mem_symbol {kind : TokenKind} {w : List TokenKind} : w ∈ symbol kind ↔ w = [kind] :=
  Iff.rfl

theorem append_mem_kstar {L : Language TokenKind} {v w : List TokenKind} (hv : v ∈ L)
    (hw : w ∈ L∗) : v ++ w ∈ L∗ := by
  rw [← Language.one_add_self_mul_kstar_eq_kstar]
  exact .inr (Language.append_mem_mul hv hw)

open Derived

/-- The words of the language are the kinds of the tokens that have a derivation. -/
def Describes {α : Type} (L : Language TokenKind) (D : α → List Token → Prop) : Prop :=
  ∀ ts : List Token, ts.map Token.kind ∈ L ↔ ∃ x, D x ts

theorem describes_operand : Describes atom Operand := by
  intro ts
  simp only [atom, Language.mem_add, mem_symbol]
  constructor
  · intro h
    obtain ⟨t, rfl⟩ : ∃ t, ts = [t] := by
      rcases h with (h | h) | h <;>
        exact (List.map_eq_singleton_iff.1 h).imp fun t ht => ht.1
    obtain ⟨terminal, span⟩ := t
    cases terminal with
    | integer digits => exact ⟨_, _, rfl, rfl⟩
    | ident name => exact ⟨_, _, rfl, rfl⟩
    | string value => exact ⟨_, _, rfl, rfl⟩
    | _ => simp [Token.kind, Terminal.kind] at h
  · rintro ⟨e, ⟨terminal, span⟩, rfl, he⟩
    cases terminal <;> simp [Token.operand?, Token.kind, Terminal.kind] at he ⊢

variable {level : Level} {D : Expr → List Token → Prop} {L O : Language TokenKind}

theorem joined_of_mem_kstar (hD : Describes L D)
    (hO : ∀ w, w ∈ O ↔ ∃ op, level.joins op = true ∧ w = [.operator op]) {ts : List Token}
    (h : ts.map Token.kind ∈ (O * L)∗) (left : Expr) : ∃ e, Joined level D left e ts := by
  obtain ⟨words, hts, hwords⟩ := Language.mem_kstar.1 h
  clear h
  induction words generalizing ts left with
  | nil =>
    obtain rfl : ts = [] := by simpa using hts
    exact ⟨left, .done left⟩
  | cons w words ih =>
    obtain ⟨o, ho, l, hl, rfl⟩ := Language.mem_mul.1 (hwords w (by simp))
    obtain ⟨op, hop, rfl⟩ := (hO o).1 ho
    rw [List.flatten_cons, List.append_assoc, List.singleton_append] at hts
    obtain ⟨t, ts', rfl, ht, hts'⟩ := List.map_eq_cons_iff.1 hts
    obtain ⟨us, vs, rfl, rfl, hvs⟩ := List.map_eq_append_iff.1 hts'
    have hterm : t.terminal = .operator op := by
      obtain ⟨terminal, span⟩ := t
      cases terminal <;> simp_all [Token.kind, Terminal.kind]
    obtain ⟨right, hright⟩ := (hD us).1 hl
    have hwords' := fun x hx => hwords x (List.mem_cons_of_mem _ hx)
    obtain ⟨e, he⟩ := ih (.binary op left right) hvs hwords'
    exact ⟨e, .join hterm hop hright he⟩

theorem mem_kstar_of_joined (hD : Describes L D)
    (hO : ∀ w, w ∈ O ↔ ∃ op, level.joins op = true ∧ w = [.operator op]) {left e : Expr}
    {ts : List Token} (h : Joined level D left e ts) : ts.map Token.kind ∈ (O * L)∗ := by
  induction h with
  | done left => exact Language.nil_mem_kstar _
  | @join left right e t op us vs hterm hop hright _ ih =>
    have hkind : t.kind = .operator op := by rw [Token.kind, hterm]; rfl
    have hword : [t.kind] ++ us.map Token.kind ∈ O * L :=
      Language.append_mem_mul ((hO _).2 ⟨op, hop, by rw [hkind]⟩) ((hD us).2 ⟨right, hright⟩)
    have hmem : ([t.kind] ++ us.map Token.kind) ++ vs.map Token.kind ∈ (O * L)∗ :=
      append_mem_kstar hword ih
    simpa using hmem

theorem Describes.chain (hD : Describes L D)
    (hO : ∀ w, w ∈ O ↔ ∃ op, level.joins op = true ∧ w = [.operator op]) :
    Describes (L * (O * L)∗) (Chain level D) := by
  intro ts
  constructor
  · intro h
    obtain ⟨v, hv, w, hw, hvw⟩ := Language.mem_mul.1 h
    obtain ⟨us, vs, rfl, rfl, rfl⟩ := List.map_eq_append_iff.1 hvw.symm
    obtain ⟨left, hleft⟩ := (hD us).1 hv
    obtain ⟨e, he⟩ := joined_of_mem_kstar hD hO hw left
    exact ⟨e, left, us, vs, rfl, hleft, he⟩
  · rintro ⟨e, left, us, vs, rfl, hleft, he⟩
    rw [List.map_append]
    exact Language.append_mem_mul ((hD us).2 ⟨left, hleft⟩) (mem_kstar_of_joined hD hO he)

theorem mem_operators {op₁ op₂ : Operator}
    (h : ∀ op, level.joins op = true ↔ op = op₁ ∨ op = op₂) (w : List TokenKind) :
    w ∈ symbol (.operator op₁) + symbol (.operator op₂) ↔
      ∃ op, level.joins op = true ∧ w = [.operator op] := by
  simp only [Language.mem_add, mem_symbol, h]
  constructor
  · rintro (rfl | rfl)
    · exact ⟨op₁, .inl rfl, rfl⟩
    · exact ⟨op₂, .inr rfl, rfl⟩
  · rintro ⟨op, rfl | rfl, rfl⟩
    · exact .inl rfl
    · exact .inr rfl

theorem describes_value : Describes value Value := by
  refine Describes.chain (Describes.chain describes_operand (mem_operators ?_)) (mem_operators ?_)
  · intro op; cases op <;> decide
  · intro op; cases op <;> decide

theorem kind_eq_target_iff {t : Token} :
    t.kind = .ident ∨ t.kind = .leadingIdent ↔ ∃ target, t.target? = some target := by
  obtain ⟨terminal, span⟩ := t
  cases terminal <;> simp [Token.kind, Terminal.kind, Token.target?]

theorem kind_eq_assign_iff {t : Token} : t.kind = .assign ↔ t.terminal = .assign := by
  obtain ⟨terminal, span⟩ := t
  cases terminal <;> simp [Token.kind, Terminal.kind]

theorem describes_statement : Describes assignment Statement := by
  intro ts
  constructor
  · intro h
    obtain ⟨_, ⟨n, hn, e, he, rfl⟩, v, hv, hts⟩ := Language.mem_mul.1 h
    obtain rfl := mem_symbol.1 he
    obtain ⟨k, hk, rfl⟩ : ∃ k, (k = .ident ∨ k = .leadingIdent) ∧ n = [k] := by
      rcases hn with hn | hn
      · exact ⟨.ident, .inl rfl, hn⟩
      · exact ⟨.leadingIdent, .inr rfl, hn⟩
    obtain ⟨t, ts', rfl, rfl, hts'⟩ := List.map_eq_cons_iff.1 hts.symm
    obtain ⟨u, us, rfl, hu, rfl⟩ := List.map_eq_cons_iff.1 hts'
    obtain ⟨target, htarget⟩ := kind_eq_target_iff.1 hk
    obtain ⟨value, hvalue⟩ := (describes_value us).1 hv
    exact ⟨_, t, target, u, value, us, rfl, htarget, kind_eq_assign_iff.1 hu, hvalue, rfl⟩
  · rintro ⟨a, t, target, u, value, us, rfl, ht, hu, hvalue, rfl⟩
    have hname : [t.kind] ∈ symbol .ident + symbol .leadingIdent := by
      rcases kind_eq_target_iff.2 ⟨target, ht⟩ with hk | hk
      · exact .inl (by rw [hk]; rfl)
      · exact .inr (by rw [hk]; rfl)
    have hassign : [u.kind] ∈ symbol .assign := by rw [kind_eq_assign_iff.2 hu]; rfl
    exact Language.append_mem_mul (Language.append_mem_mul hname hassign)
      ((describes_value us).2 ⟨value, hvalue⟩)

theorem describes_statements : Describes assignment∗ Statements := by
  intro ts
  constructor
  · intro h
    obtain ⟨words, hts, hwords⟩ := Language.mem_kstar.1 h
    clear h
    induction words generalizing ts with
    | nil =>
      obtain rfl : ts = [] := by simpa using hts
      exact ⟨[], .nil⟩
    | cons w words ih =>
      obtain ⟨us, vs, rfl, rfl, hvs⟩ := List.map_eq_append_iff.1 hts
      obtain ⟨a, ha⟩ := (describes_statement us).1 (hwords _ (by simp))
      obtain ⟨as, has⟩ := ih vs hvs fun x hx => hwords x (List.mem_cons_of_mem _ hx)
      exact ⟨a :: as, .cons ha has⟩
  · rintro ⟨as, h⟩
    induction h with
    | nil => exact Language.nil_mem_kstar _
    | @cons a as us vs h _ ih =>
      rw [List.map_append]
      exact append_mem_kstar ((describes_statement us).2 ⟨a, h⟩) ih

theorem mem_file_iff {ts : List Token} :
    ts.map Token.kind ++ [.eof] ∈ file ↔ ∃ as, Statements as ts := by
  rw [← describes_statements ts]
  constructor
  · intro h
    obtain ⟨w, hw, e, he, hts⟩ := Language.mem_mul.1 h
    obtain rfl := mem_symbol.1 he
    rwa [← List.append_cancel_right hts]
  · intro h
    exact Language.append_mem_mul h rfl

end Grammar

/-- The expression from left to right, as the tokens that spell it. -/
def Expr.inorder : Expr → List Terminal
  | .integer _ digits => [.integer digits]
  | .string _ value => [.string value]
  | .reference ident => [.ident ident.name]
  | .operation _ op left right => left.inorder ++ .operator op :: right.inorder
  | .broken _ op left => left.inorder ++ [.operator op]

inductive Expr.IsAtom : Expr → Prop
  | integer (span : Span) (digits : String) : IsAtom (.integer span digits)
  | string (span : Span) (value : String) : IsAtom (.string span value)
  | reference (ident : Ident) : IsAtom (.reference ident)

/-- Operations of one level over operands, nested to the left only. -/
inductive Expr.IsChain (level : Level) (operand : Expr → Prop) : Expr → Prop
  | single {e : Expr} (h : operand e) : IsChain level operand e
  | join {left right : Expr} (span : Span) (op : Operator) (hop : level.joins op = true)
      (hleft : IsChain level operand left) (hright : operand right) :
      IsChain level operand (.operation span op left right)

def Expr.IsProduct : Expr → Prop := IsChain .product IsAtom

def Expr.IsSum : Expr → Prop := IsChain .sum IsProduct

def Node.isBroken : Node → Bool
  | .broken .. => true
  | _ => false

def Assignment.InShape (a : Assignment) : Prop := ∃ value, a.value? = some value ∧ value.IsSum

/-- The assignment reads back as these tokens. The tree does not say which sort of
identifier its name was. -/
def Assignment.ReadsAs (a : Assignment) (w : List Terminal) : Prop :=
  ∃ value, a.value? = some value ∧ (w = .ident a.target.name :: .assign :: value.inorder ∨
    w = .leadingIdent a.target.name :: .assign :: value.inorder)

/-- The assignments, one after the other, read back as these tokens. -/
inductive ReadBack : List Assignment → List Terminal → Prop
  | nil : ReadBack [] []
  | cons {a : Assignment} {as : List Assignment} {v w : List Terminal} (h : a.ReadsAs v)
      (hs : ReadBack as w) : ReadBack (a :: as) (v ++ w)

theorem Expr.IsChain.no_broken {level : Level} {operand : Expr → Prop}
    (h : ∀ e, operand e → ∀ node ∈ e.postorder, node.isBroken = false) {e : Expr}
    (he : IsChain level operand e) : ∀ node ∈ e.postorder, node.isBroken = false := by
  induction he with
  | single he => exact h _ he
  | join span op hop _ hright ih =>
    intro node hnode
    simp only [postorder_operation, List.mem_append, List.mem_singleton] at hnode
    rcases hnode with (hnode | hnode) | rfl
    · exact ih node hnode
    · exact h _ hright node hnode
    · rfl

theorem Expr.IsSum.no_broken {e : Expr} (h : e.IsSum) :
    ∀ node ∈ e.postorder, node.isBroken = false := by
  refine IsChain.no_broken (fun e he => IsChain.no_broken (fun e he => ?_) he) h
  intro node hnode
  cases he <;> rw [List.mem_singleton.1 hnode] <;> rfl

namespace Derived

/-- The derivation's tree has the shape and reads back as the tokens. -/
def Shapes (P : Expr → Prop) (D : Expr → List Token → Prop) : Prop :=
  ∀ {e : Expr} {ts : List Token}, D e ts → P e ∧ e.inorder = ts.map Token.terminal

/-- Whatever has the shape and reads back as the tokens is, apart from spans, the tree of
a derivation. -/
def Rebuilds (P : Expr → Prop) (D : Expr → List Token → Prop) : Prop :=
  ∀ {e : Expr} {ts : List Token}, P e → e.inorder = ts.map Token.terminal →
    ∃ e', D e' ts ∧ e'.relocate .forget = e.relocate .forget

variable {level : Level} {P : Expr → Prop} {D : Expr → List Token → Prop}

theorem shapes_operand : Shapes Expr.IsAtom Operand := by
  rintro e ts ⟨⟨terminal, span⟩, rfl, he⟩
  cases terminal <;> simp only [Token.operand?, Option.some.injEq, reduceCtorEq] at he <;>
    subst he
  · exact ⟨.reference _, rfl⟩
  · exact ⟨.integer _ _, rfl⟩
  · exact ⟨.string _ _, rfl⟩

theorem Shapes.joined (h : Shapes P D) {left e : Expr} {ts : List Token}
    (hj : Joined level D left e ts) (hleft : Expr.IsChain level P left) :
    Expr.IsChain level P e ∧ e.inorder = left.inorder ++ ts.map Token.terminal := by
  induction hj with
  | done left => exact ⟨hleft, by simp⟩
  | @join left right e t op us vs ht hop hr _ ih =>
    obtain ⟨hright, hinorder⟩ := h hr
    obtain ⟨hchain, heq⟩ := ih (.join _ op hop hleft hright)
    refine ⟨hchain, ?_⟩
    rw [heq, Expr.binary, Expr.inorder, hinorder]
    simp [ht]

theorem Shapes.chain (h : Shapes P D) : Shapes (Expr.IsChain level P) (Chain level D) := by
  rintro e ts ⟨left, us, vs, rfl, hleft, hj⟩
  obtain ⟨hP, hinorder⟩ := h hleft
  obtain ⟨hchain, heq⟩ := h.joined hj (.single hP)
  exact ⟨hchain, by rw [heq, hinorder, List.map_append]⟩

theorem shapes_value : Shapes Expr.IsSum Value := Shapes.chain (Shapes.chain shapes_operand)

theorem rebuilds_operand : Rebuilds Expr.IsAtom Operand := by
  intro e ts he hts
  cases he with
  | integer span digits =>
    obtain ⟨t, rfl, ht⟩ := List.map_eq_singleton_iff.1 hts.symm
    exact ⟨.integer t.span digits, ⟨t, rfl, by rw [Token.operand?, ht]⟩, rfl⟩
  | string span value =>
    obtain ⟨t, rfl, ht⟩ := List.map_eq_singleton_iff.1 hts.symm
    exact ⟨.string t.span value, ⟨t, rfl, by rw [Token.operand?, ht]⟩, rfl⟩
  | reference ident =>
    obtain ⟨t, rfl, ht⟩ := List.map_eq_singleton_iff.1 hts.symm
    exact ⟨.reference ⟨t.span, ident.name⟩, ⟨t, rfl, by rw [Token.operand?, ht]⟩, rfl⟩

theorem Joined.snoc {left e right : Expr} {ts us : List Token} {t : Token} {op : Operator}
    (h : Joined level D left e ts) (ht : t.terminal = .operator op)
    (hop : level.joins op = true) (hr : D right us) :
    Joined level D left (.binary op e right) (ts ++ t :: us) := by
  induction h with
  | done left =>
    have := Joined.join ht hop hr (.done (.binary op left right))
    rwa [List.append_nil] at this
  | join ht' hop' hr' _ ih =>
    rw [List.cons_append, List.append_assoc]
    exact .join ht' hop' hr' ih

theorem Rebuilds.chain (h : Rebuilds P D) : Rebuilds (Expr.IsChain level P) (Chain level D) := by
  intro e ts he
  induction he generalizing ts with
  | single he =>
    intro hts
    obtain ⟨e', hD, heq⟩ := h he hts
    exact ⟨e', ⟨e', ts, [], by simp, hD, .done e'⟩, heq⟩
  | @join left right span op hop _ hright ih =>
    intro hts
    obtain ⟨us, vs, rfl, hus, hvs⟩ := List.map_eq_append_iff.1 hts.symm
    obtain ⟨t, vs, rfl, ht, hvs⟩ := List.map_eq_cons_iff.1 hvs
    obtain ⟨left', ⟨first, us, ws, rfl, hfirst, hj⟩, hleft'⟩ := ih hus.symm
    obtain ⟨right', hD, hright'⟩ := h hright hvs.symm
    refine ⟨.binary op left' right', ⟨first, us, ws ++ t :: vs, by simp, hfirst,
      hj.snoc ht hop hD⟩, ?_⟩
    rw [Expr.binary, Expr.relocate, Expr.relocate, hleft', hright']
    rfl

theorem rebuilds_value : Rebuilds Expr.IsSum Value :=
  Rebuilds.chain (Rebuilds.chain rebuilds_operand)

theorem Statement.inShape {a : Assignment} {ts : List Token} (h : Statement a ts) :
    a.InShape ∧ a.ReadsAs (ts.map Token.terminal) := by
  obtain ⟨t, target, u, value, us, rfl, ht, hu, hvalue, rfl⟩ := h
  obtain ⟨hsum, hinorder⟩ := shapes_value hvalue
  refine ⟨⟨value, rfl, hsum⟩, value, rfl, ?_⟩
  obtain ⟨terminal, span⟩ := t
  cases terminal <;> simp_all [Token.target?, Assignment.complete] <;> simp [← ht]

theorem Statements.inShape {as : List Assignment} {ts : List Token} (h : Statements as ts) :
    (∀ a ∈ as, a.InShape) ∧ ReadBack as (ts.map Token.terminal) := by
  induction h with
  | nil => exact ⟨by simp, .nil⟩
  | cons h _ ih =>
    obtain ⟨hshape, hreads⟩ := h.inShape
    refine ⟨fun a ha => ?_, by rw [List.map_append]; exact .cons hreads ih.2⟩
    rcases List.mem_cons.1 ha with rfl | ha
    · exact hshape
    · exact ih.1 a ha

theorem exists_statement {a : Assignment} {ts : List Token} (hshape : a.InShape)
    (hreads : a.ReadsAs (ts.map Token.terminal)) :
    ∃ a', Statement a' ts ∧ a'.relocate .forget = a.relocate .forget := by
  obtain ⟨value, hvalue, hsum⟩ := hshape
  obtain ⟨value', hvalue', hts⟩ := hreads
  obtain rfl := Option.some.inj (hvalue.symm.trans hvalue')
  obtain ⟨t, u, us, rfl, ht, hu, hus⟩ : ∃ t u us, ts = t :: u :: us ∧
      t.target? = some ⟨t.span, a.target.name⟩ ∧ u.terminal = .assign ∧
      us.map Token.terminal = value.inorder := by
    rcases hts with hts | hts <;>
      obtain ⟨t, ts, rfl, ht, hts⟩ := List.map_eq_cons_iff.1 hts <;>
      obtain ⟨u, us, rfl, hu, hus⟩ := List.map_eq_cons_iff.1 hts <;>
      exact ⟨t, u, us, rfl, by rw [Token.target?, ht], hu, hus⟩
  obtain ⟨e, he, heq⟩ := rebuilds_value hsum hus.symm
  refine ⟨_, ⟨t, _, u, e, us, rfl, ht, hu, he, rfl⟩, ?_⟩
  rw [Assignment.relocate, Assignment.relocate, hvalue, Assignment.complete, Option.map_some,
    Option.map_some, heq]
  rfl

/-- The tree of the right shape that reads back as the tokens is unique apart from spans. -/
theorem exists_statements {as : List Assignment} {w : List Terminal} (h : ReadBack as w)
    (hshape : ∀ a ∈ as, a.InShape) {ts : List Token} (hts : ts.map Token.terminal = w) :
    ∃ as', Statements as' ts ∧
      as'.map (Assignment.relocate .forget) = as.map (Assignment.relocate .forget) := by
  induction h generalizing ts with
  | nil =>
    obtain rfl : ts = [] := by simpa using hts
    exact ⟨[], .nil, rfl⟩
  | cons hreads _ ih =>
    obtain ⟨us, vs, rfl, rfl, hvs⟩ := List.map_eq_append_iff.1 hts
    obtain ⟨a', ha', heq⟩ := exists_statement (hshape _ (by simp)) hreads
    obtain ⟨as', has', heqs⟩ := ih (fun a ha => hshape a (List.mem_cons_of_mem _ ha)) hvs
    exact ⟨a' :: as', .cons ha' has', by rw [List.map_cons, List.map_cons, heq, heqs]⟩

end Derived

open Derived in
/-- The parser accepts the grammar and builds the one tree for a word of it. -/
theorem parse_iff_grammar (text : Text) :
    ((∀ d ∈ (File.parse text).reports, d.cause.isExpectation = false) ↔
        (TokenStream.ofText text).kinds ∈ Grammar.file) ∧
      ((TokenStream.ofText text).kinds ∈ Grammar.file →
        (∀ a ∈ (File.parse text).file.assignments, ∃ value, a.value? = some value ∧
          (∀ node ∈ value.postorder, node.isBroken = false) ∧ value.IsSum) ∧
        ReadBack (File.parse text).file.assignments
          ((TokenStream.ofText text).tokens.map Token.terminal) ∧
        ∀ others, (∀ a ∈ others, a.InShape) →
          ReadBack others ((TokenStream.ofText text).tokens.map Token.terminal) →
          others.map (Assignment.relocate .forget) =
            (File.parse text).file.assignments.map (Assignment.relocate .forget)) := by
  obtain ⟨hassignments, hcount⟩ := File.read_parse text
  have hquiet : (∀ d ∈ (File.parse text).reports, d.cause.isExpectation = false) ↔
      faults (TokenStream.ofText text).tokens = 0 := by
    rw [← hcount, List.length_eq_zero_iff, List.filter_eq_nil_iff]
    simp
  rw [hquiet, TokenStream.kinds, Grammar.mem_file_iff, hassignments]
  refine ⟨faults_eq_zero_iff, ?_⟩
  rintro ⟨as, has⟩
  obtain ⟨hshape, hreads⟩ := has.inShape
  rw [has.read.1]
  refine ⟨fun a ha => ?_, hreads, fun others hothers hback => ?_⟩
  · obtain ⟨value, hvalue, hsum⟩ := hshape a ha
    exact ⟨value, hvalue, hsum.no_broken, hsum⟩
  · obtain ⟨as', has', heq⟩ := exists_statements hback hothers rfl
    rw [← heq, ← has'.read.1, has.read.1]

end AssignLang
