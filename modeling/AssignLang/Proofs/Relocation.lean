import AssignLang.Parse.File

/-! Moving trees. A relocation maps points so that the earlier and the later of two
points stay so, and moves everything that carries spans. Merging spans commutes
with it. One relocation shifts a tree behind a text, another forgets where the tree
stood: what a parse does to a moved part and what two trees share apart from their
spans are then the same question. -/

namespace AssignLang

structure Relocation where
  move : Position → Position
  move_earlier : ∀ p q, move (p.earlier q) = (move p).earlier (move q)
  move_later : ∀ p q, move (p.later q) = (move p).later (move q)

namespace Relocation

/-- Forgets all points. -/
def forget : Relocation := ⟨fun _ => {}, fun _ _ => rfl, fun _ _ => rfl⟩

/-- Moves points behind a text that ends a line. -/
def behind (text : Text) : Relocation where
  move p := ⟨p.offset + text.size, p.line + text.count '\n', p.character⟩
  move_earlier p q := by
    simp only [Position.earlier, Nat.add_lt_add_iff_right]
    split <;> rfl
  move_later p q := by
    simp only [Position.later, Nat.add_lt_add_iff_right]
    split <;> rfl

/-- Keeps only the offsets, increased by `n`. -/
def offset (n : Nat) : Relocation where
  move p := ⟨p.offset + n, 0, 0⟩
  move_earlier p q := by
    simp only [Position.earlier, Nat.add_lt_add_iff_right]
    split <;> rfl
  move_later p q := by
    simp only [Position.later, Nat.add_lt_add_iff_right]
    split <;> rfl

/-- Leaves all points where they are. -/
def stay : Relocation := ⟨id, fun _ _ => rfl, fun _ _ => rfl⟩

/-- Moves points by `f` and then by `g`. -/
def comp (g f : Relocation) : Relocation where
  move p := g.move (f.move p)
  move_earlier p q := by rw [f.move_earlier, g.move_earlier]
  move_later p q := by rw [f.move_later, g.move_later]

theorem forget_comp (f : Relocation) : forget.comp f = forget := rfl

end Relocation

def Span.relocate (f : Relocation) (s : Span) : Span := ⟨f.move s.start, f.move s.stop⟩

def Token.relocate (f : Relocation) (t : Token) : Token := ⟨t.terminal, t.span.relocate f⟩

def Ident.relocate (f : Relocation) (i : Ident) : Ident := ⟨i.span.relocate f, i.name⟩

def Expr.relocate (f : Relocation) : Expr → Expr
  | .integer span digits => .integer (span.relocate f) digits
  | .string span value => .string (span.relocate f) value
  | .reference ident => .reference (ident.relocate f)
  | .operation span op left right =>
    .operation (span.relocate f) op (left.relocate f) (right.relocate f)
  | .broken span op left => .broken (span.relocate f) op (left.relocate f)

def Assignment.relocate (f : Relocation) (a : Assignment) : Assignment :=
  ⟨a.target.relocate f, a.span.relocate f, a.value?.map (Expr.relocate f)⟩

variable (f : Relocation)

@[simp] theorem Span.relocate_merge (s t : Span) :
    (s.merge t).relocate f = (s.relocate f).merge (t.relocate f) := by
  simp [Span.relocate, Span.merge, f.move_earlier, f.move_later]

theorem Span.relocate_extend (s : Span) (extra : Option Span) :
    (s.extend extra).relocate f = (s.relocate f).extend (extra.map (Span.relocate f)) := by
  cases extra <;> simp [Span.extend]

theorem Span.relocate_join (run : Option Span) (s : Span) :
    (Span.join run s).relocate f = Span.join (run.map (Span.relocate f)) (s.relocate f) := by
  cases run <;> simp [Span.join]

@[simp] theorem Token.kind_relocate (t : Token) : (t.relocate f).kind = t.kind := rfl

@[simp] theorem Expr.span_relocate (e : Expr) : (e.relocate f).span = e.span.relocate f := by
  cases e <;> rfl

@[simp] theorem Expr.relocate_binary (op : Operator) (left right : Expr) :
    (Expr.binary op left right).relocate f = .binary op (left.relocate f) (right.relocate f) := by
  simp [Expr.binary, Expr.relocate]

theorem Token.operand?_relocate (t : Token) :
    (t.relocate f).operand? = t.operand?.map (Expr.relocate f) := by
  obtain ⟨terminal, span⟩ := t
  cases terminal <;> rfl

theorem Token.target?_relocate (t : Token) :
    (t.relocate f).target? = t.target?.map (Ident.relocate f) := by
  obtain ⟨terminal, span⟩ := t
  cases terminal <;> rfl

theorem Assignment.relocate_complete (target : Ident) (value : Expr) :
    (Assignment.complete target value).relocate f =
      .complete (target.relocate f) (value.relocate f) := by
  simp [Assignment.complete, Assignment.relocate, Ident.relocate]

theorem Assignment.relocate_failed (target : Ident) (skipped : Option Span) :
    (Assignment.failed target skipped).relocate f =
      .failed (target.relocate f) (skipped.map (Span.relocate f)) := by
  simp [Assignment.failed, Assignment.relocate, Ident.relocate, Span.relocate_extend]

@[simp] theorem Token.relocate_stay : Token.relocate .stay = id := rfl

theorem Expr.relocate_stay (e : Expr) : e.relocate .stay = e := by
  induction e with
  | integer | string | reference => rfl
  | operation span op left right ihl ihr => rw [Expr.relocate, ihl, ihr]; rfl
  | broken span op left ih => rw [Expr.relocate, ih]; rfl

@[simp] theorem Assignment.relocate_stay : Assignment.relocate .stay = id := by
  funext a
  obtain ⟨target, span, value⟩ := a
  cases value with
  | none => rfl
  | some value => rw [Assignment.relocate, Option.map_some, Expr.relocate_stay]; rfl

theorem Expr.relocate_relocate (g : Relocation) (e : Expr) :
    (e.relocate f).relocate g = e.relocate (g.comp f) := by
  induction e with
  | integer | string | reference => rfl
  | operation span op left right ihl ihr =>
    rw [Expr.relocate, Expr.relocate, ihl, ihr]; rfl
  | broken span op left ih => rw [Expr.relocate, Expr.relocate, ih]; rfl

theorem Assignment.relocate_relocate (g : Relocation) (a : Assignment) :
    (a.relocate f).relocate g = a.relocate (g.comp f) := by
  obtain ⟨target, span, value⟩ := a
  cases value with
  | none => rfl
  | some value =>
    simp only [Assignment.relocate, Option.map_some, Expr.relocate_relocate]; rfl

end AssignLang
