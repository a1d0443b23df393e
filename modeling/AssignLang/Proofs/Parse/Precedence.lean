import AssignLang.Proofs.Grammar
import AssignLang.Proofs.Parse.Recovered

/-! Trees keep the precedences of their operators whatever recovery has skipped. A chain grows
at its left end only, so what holds of operands and is kept by one more operator, with or
without a right operand, holds of the chain. A product then has atoms on its right, a sum has
products there, and no path goes to the right more than twice. -/

namespace AssignLang

inductive Side where
  | left
  | right
deriving DecidableEq, Repr

namespace Expr

def at? : Expr → List Side → Option Expr
  | e, [] => some e
  | .operation _ _ left _, .left :: path => left.at? path
  | .operation _ _ _ right, .right :: path => right.at? path
  | .broken _ _ left, .left :: path => left.at? path
  | _, _ :: _ => none

/-- An atom, a product or a quotient; the latter may miss the right operand. -/
def BindsTightly : Expr → Prop
  | .integer .. | .string .. | .reference .. => True
  | .operation _ op .. | .broken _ op _ => op.isAdditive = false

/-- If the node is an operation its operands are such that no brackets were needed: what stands
on the right binds more tightly than the operator, and what stands on the left no less. -/
def KeepsPrecedence : Expr → Prop
  | .integer .. | .string .. | .reference .. => True
  | .operation _ op left right =>
    if op.isAdditive then right.BindsTightly else left.BindsTightly ∧ right.IsAtom
  | .broken _ op left => op.isAdditive = false → left.BindsTightly

/-- How often a path can go to the right. -/
def rightDepth : Expr → Nat
  | .integer .. | .string .. | .reference .. => 0
  | .operation _ _ left right => max left.rightDepth (right.rightDepth + 1)
  | .broken _ _ left => left.rightDepth

def KeepsPrecedences (e : Expr) : Prop := ∀ path node, e.at? path = some node → node.KeepsPrecedence

variable {e left right : Expr}

@[simp]
theorem at?_nil (e : Expr) : e.at? [] = some e := by cases e <;> rfl

theorem count_right_le {path : List Side} {node : Expr} (h : e.at? path = some node) :
    path.count .right ≤ e.rightDepth := by
  fun_induction at? e path with
  | case1 => exact Nat.zero_le _
  | case2 span op left right path ih =>
    rw [List.count_cons_of_ne (by decide), rightDepth]
    exact Nat.le_trans (ih h) (Nat.le_max_left _ _)
  | case3 span op left right path ih =>
    rw [List.count_cons_self, rightDepth]
    exact Nat.le_trans (Nat.succ_le_succ (ih h)) (Nat.le_max_right _ _)
  | case4 span op left path ih =>
    rw [List.count_cons_of_ne (by decide), rightDepth]
    exact ih h
  | case5 => simp at h

theorem keepsPrecedences_operation {span : Span} {op : Operator}
    (h : (operation span op left right).KeepsPrecedence) (hleft : left.KeepsPrecedences)
    (hright : right.KeepsPrecedences) : (operation span op left right).KeepsPrecedences := by
  rintro (_ | ⟨_ | _, path⟩) node hnode
  · obtain rfl := Option.some.inj hnode
    exact h
  · exact hleft path node hnode
  · exact hright path node hnode

theorem keepsPrecedences_broken {span : Span} {op : Operator}
    (h : (broken span op left).KeepsPrecedence) (hleft : left.KeepsPrecedences) :
    (broken span op left).KeepsPrecedences := by
  rintro (_ | ⟨_ | _, path⟩) node hnode
  · obtain rfl := Option.some.inj hnode
    exact h
  · exact hleft path node hnode
  · simp [at?] at hnode

/-- What a chain of factors is read as. -/
structure ProductShaped (e : Expr) : Prop where
  tight : e.BindsTightly
  keeps : e.KeepsPrecedences
  depth : e.rightDepth ≤ 1

structure SumShaped (e : Expr) : Prop where
  keeps : e.KeepsPrecedences
  depth : e.rightDepth ≤ 2

theorem IsAtom.productShaped (h : e.IsAtom) : e.ProductShaped := by
  refine ⟨?_, ?_, ?_⟩
  · cases h <;> exact trivial
  · rintro (_ | ⟨side, path⟩) node hnode
    · rw [at?_nil] at hnode
      obtain rfl := Option.some.inj hnode
      cases h <;> exact trivial
    · cases h <;> simp [at?] at hnode
  · cases h <;> exact Nat.zero_le _

theorem IsAtom.rightDepth_eq (h : e.IsAtom) : e.rightDepth = 0 := by cases h <;> rfl

end Expr

namespace Recovered

/-- What `Q` says of the operands of a level `P` says of the chains over them. -/
structure Extends (level : Level) (Q P : Expr → List Token → Prop) : Prop where
  single : ∀ {e ts}, Q e ts → P e ts
  join : ∀ {left right us vs op}, level.joins op = true → P left us → Q right vs →
    ∀ t : Token, P (.binary op left right) (us ++ t :: vs)
  broken : ∀ {left us op}, level.joins op = true → P left us → ∀ (t : Token) (vs : List Token),
    P (.broken (left.span.extend (covered vs)) op left) (us ++ t :: vs)

variable {level : Level} {D : Expr → List Token → List Token → Prop}
  {P Q : Expr → List Token → Prop}

theorem Extends.joined (h : Extends level Q P) (hD : ∀ {e ts rest}, D e ts rest → Q e ts)
    {left e : Expr} {us ts rest : List Token} (hj : Joined level D rest left e ts)
    (hleft : P left us) : P e (us ++ ts) := by
  induction hj generalizing us with
  | done left => rwa [List.append_nil]
  | @join left right e t op vs ws ht hop hr _ ih =>
    have hstep := ih (h.join hop hleft (hD hr) t)
    rwa [List.append_assoc] at hstep
  | @broken left e t op vs ws ht hop hno hskip _ ih =>
    have hstep := ih (h.broken hop hleft t vs)
    rwa [List.append_assoc] at hstep

theorem Extends.chain (h : Extends level Q P) (hD : ∀ {e ts rest}, D e ts rest → Q e ts)
    {e : Expr} {ts rest : List Token} (hchain : Chain level D e ts rest) : P e ts := by
  obtain ⟨left, us, vs, rfl, hleft, hj⟩ := hchain
  exact h.joined hD hj (h.single (hD hleft))

theorem Statements.exists_value {as : List Assignment} {ts rest : List Token}
    (h : Statements rest as ts) {a : Assignment} (ha : a ∈ as) {e : Expr} (he : e ∈ a.value?) :
    ∃ us rest', Value e us rest' ∧ us ⊆ ts := by
  induction h with
  | nil => simp at ha
  | @cons b as us vs hb _ ih =>
    rcases List.mem_append.1 ha with ha | ha
    · obtain rfl := Option.mem_toList.1 ha
      cases hb with
      | @complete t u target value us ht hu hvalue =>
        obtain rfl := Option.some.inj he
        refine ⟨us, _, hvalue, fun x hx => List.mem_append_left _ ?_⟩
        exact List.mem_cons_of_mem t (List.mem_cons_of_mem u hx)
      | unassigned => simp [Assignment.failed] at he
      | valueless => simp [Assignment.failed] at he
    · obtain ⟨us', rest', hvalue, hsub⟩ := ih ha
      exact ⟨us', rest', hvalue, fun x hx => List.mem_append_right _ (hsub hx)⟩

theorem isAtom_of_operand {e : Expr} {ts rest : List Token} (h : Operand e ts rest) : e.IsAtom := by
  obtain ⟨⟨terminal, span⟩, rfl, he⟩ := h
  cases terminal <;> simp only [Token.operand?, Option.some.injEq, reduceCtorEq] at he <;>
    subst he <;> constructor

theorem extends_product :
    Extends .product (fun e _ => e.IsAtom) (fun e _ => e.ProductShaped) where
  single h := h.productShaped
  join {left right us vs op} hop hleft hright t := by
    have htight : op.isAdditive = false := by simpa [Level.joins] using hop
    have hkeeps : (Expr.binary op left right).KeepsPrecedence := by
      rw [Expr.binary, Expr.KeepsPrecedence, htight]
      exact ⟨hleft.tight, hright⟩
    refine ⟨htight, Expr.keepsPrecedences_operation hkeeps hleft.keeps
      hright.productShaped.keeps, ?_⟩
    rw [Expr.binary, Expr.rightDepth, hright.rightDepth_eq]
    exact Nat.max_le.2 ⟨hleft.depth, Nat.le_refl 1⟩
  broken {left us op} hop hleft t vs := by
    have htight : op.isAdditive = false := by simpa [Level.joins] using hop
    exact ⟨htight, Expr.keepsPrecedences_broken (fun _ => hleft.tight) hleft.keeps, hleft.depth⟩

theorem extends_sum :
    Extends .sum (fun e _ => e.ProductShaped) (fun e _ => e.SumShaped) where
  single h := ⟨h.keeps, Nat.le_succ_of_le h.depth⟩
  join {left right us vs op} hop hleft hright t := by
    have hloose : op.isAdditive = true := hop
    have hkeeps : (Expr.binary op left right).KeepsPrecedence := by
      rw [Expr.binary, Expr.KeepsPrecedence, if_pos hloose]
      exact hright.tight
    refine ⟨Expr.keepsPrecedences_operation hkeeps hleft.keeps hright.keeps, ?_⟩
    rw [Expr.binary, Expr.rightDepth]
    exact Nat.max_le.2 ⟨hleft.depth, Nat.succ_le_succ hright.depth⟩
  broken {left us op} hop hleft t vs := by
    have hloose : op.isAdditive = true := hop
    refine ⟨Expr.keepsPrecedences_broken (fun htight => ?_) hleft.keeps, hleft.depth⟩
    simp [hloose] at htight

theorem sumShaped_of_value {e : Expr} {ts rest : List Token} (h : Value e ts rest) :
    e.SumShaped :=
  extends_sum.chain (fun h => extends_product.chain isAtom_of_operand h) h

end Recovered

theorem File.sumShaped_parse (text : Text) {a : Assignment}
    (ha : a ∈ (File.parse text).file.assignments) {value : Expr} (hvalue : value ∈ a.value?) :
    value.SumShaped := by
  have hstatements := Recovered.readStatements_eq_iff.1 (File.read_parse text).1.symm
  obtain ⟨us, rest, hderived, -⟩ := hstatements.exists_value ha hvalue
  exact Recovered.sumShaped_of_value hderived

end AssignLang
