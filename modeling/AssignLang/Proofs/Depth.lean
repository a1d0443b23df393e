import AssignLang.Completion
import AssignLang.Proofs.Check.Spine
import AssignLang.Proofs.Parse.Precedence

/-! How deep calls nest. What is done along the left operands is done in a loop, and each right
operand takes a call of its own. So the calls nest as often as a path goes to the right, which
is bounded in a tree that keeps precedences, whatever its length. Inference, completion and the
release of a tree are written here with a bound on that nesting: they give up where a call
would go deeper. -/

namespace AssignLang

namespace Expr

/-- How often a path through the right operand, if there is one, can go to the right. -/
def Link.rightDepth : Link → Nat
  | .operation _ _ right => right.rightDepth + 1
  | .broken .. => 0

theorem Link.forall_operation {span : Span} {op : Operator} {right : Expr} {links : List Link}
    {n : Nat} : (∀ link ∈ operation span op right :: links, link.rightDepth ≤ n) ↔
      right.rightDepth < n ∧ ∀ link ∈ links, link.rightDepth ≤ n :=
  List.forall_mem_cons

theorem Link.forall_broken {span : Span} {op : Operator} {links : List Link} {n : Nat} :
    (∀ link ∈ broken span op :: links, link.rightDepth ≤ n) ↔
      ∀ link ∈ links, link.rightDepth ≤ n := by
  rw [List.forall_mem_cons]
  exact and_iff_right (Nat.zero_le n)

theorem rightDepth_descend (spine : List Link) (e : Expr) (n : Nat) :
    (∀ link ∈ (e.descend spine).1, link.rightDepth ≤ n) ↔
      (∀ link ∈ spine, link.rightDepth ≤ n) ∧ e.rightDepth ≤ n := by
  induction e generalizing spine with
  | integer | string | reference => simp [descend, rightDepth]
  | operation span op left right ihl _ =>
    rw [descend, ihl, List.forall_mem_append, List.forall_mem_singleton, Link.rightDepth,
      rightDepth, Nat.max_le]
    tauto
  | broken span op left ih =>
    rw [descend, ih, List.forall_mem_append, List.forall_mem_singleton, Link.rightDepth,
      rightDepth]
    simp

theorem weight_leaf_descend (spine : List Link) (e : Expr) : (e.descend spine).2.weight = 1 := by
  induction e generalizing spine with
  | integer | string | reference => rfl
  | operation span op left right ih _ => exact ih _
  | broken span op left ih => exact ih _

def releaseLinks (release : Expr → Option Nat) : List Link → Option Nat
  | [] => some 0
  | .operation _ _ right :: links => do
    let below ← release right
    let others ← releaseLinks release links
    return below + 1 + others
  | .broken .. :: links => do
    let others ← releaseLinks release links
    return 1 + others

/-- Releases a value and counts its nodes. The operations on the left are unlinked in a loop, so
no call goes down there. -/
def releaseWithin : Nat → Expr → Option Nat
  | 0, _ => none
  | depth + 1, e => do
    let operations ← releaseLinks (releaseWithin depth) (e.descend []).1
    return operations + 1

theorem releaseLinks_eq {release : Expr → Option Nat} {n : Nat}
    (h : ∀ e, release e = if e.rightDepth < n then some e.weight else none) (links : List Link) :
    releaseLinks release links = if ∀ link ∈ links, link.rightDepth ≤ n then
      some (links.map Link.weight).sum else none := by
  induction links with
  | nil => rfl
  | cons link links ih =>
    cases link with
    | operation span op right =>
      simp only [releaseLinks, h, ih, Link.forall_operation]
      by_cases hright : right.rightDepth < n
      · simp only [hright, if_true, true_and]
        split <;> rfl
      · simp only [hright, if_false, false_and]
        rfl
    | broken span op =>
      simp only [releaseLinks, ih, Link.forall_broken]
      split <;> rfl

/-- Every node is released, and the calls nest once more than a path goes to the right. -/
theorem releaseWithin_eq (depth : Nat) (e : Expr) :
    e.releaseWithin depth = if e.rightDepth < depth then some e.weight else none := by
  induction depth generalizing e with
  | zero => rfl
  | succ depth ih =>
    have hweight := weight_descend [] e
    rw [weight_leaf_descend, List.map_nil, List.sum_nil, Nat.zero_add] at hweight
    have hdepth := rightDepth_descend [] e depth
    rw [releaseWithin, releaseLinks_eq ih]
    simp only [hdepth, List.not_mem_nil, false_implies, implies_true, true_and, Nat.lt_succ_iff]
    split
    · rw [← hweight]
      rfl
    · rfl

-- a product on the right of a sum takes all three calls
example (span : Span) (a b c : Ident) :
    releaseWithin 2 (.operation span .add (.reference a)
      (.operation span .multiply (.reference b) (.reference c))) = none := rfl

end Expr

namespace Definitions

def climbWith (inferRight : Definitions → Expr → Option Inferred) :
    List Expr.Link → Inferred → Option Inferred
  | [], left => some left
  | .operation span op right :: links, left => do
    let second ← inferRight left.definitions right
    climbWith inferRight links (left.combine span op second)
  | .broken .. :: links, left => climbWith inferRight links left.withoutRight

/-- Infers the kind of a value along its left operands, with at most `depth` calls one inside
the other. -/
def inferWithin : Nat → Definitions → Expr → Option Inferred
  | 0, _, _ => none
  | depth + 1, defs, value =>
    climbWith (inferWithin depth) (value.descend []).1.reverse (defs.inferLeaf (value.descend []).2)

theorem climbWith_eq {inferRight : Definitions → Expr → Option Inferred} {n : Nat}
    (h : ∀ defs e, inferRight defs e =
      if e.rightDepth < n then some (defs.inferAlongSpine e) else none)
    (links : List Expr.Link) (left : Inferred) :
    climbWith inferRight links left =
      if ∀ link ∈ links, link.rightDepth ≤ n then some (climb links left) else none := by
  induction links generalizing left with
  | nil => rw [climb]; rfl
  | cons link links ih =>
    cases link with
    | operation span op right =>
      rw [climb]
      simp only [climbWith, h, Expr.Link.forall_operation]
      by_cases hright : right.rightDepth < n
      · simp only [hright, if_true, true_and]
        exact ih _
      · simp only [hright, if_false, false_and]
        rfl
    | broken span op =>
      rw [climbWith, climb, ih]
      simp only [Expr.Link.forall_broken]

theorem inferWithin_eq (depth : Nat) (defs : Definitions) (e : Expr) :
    defs.inferWithin depth e = if e.rightDepth < depth then some (defs.infer e) else none := by
  have hinfer : defs.infer e = defs.inferAlongSpine e := by
    rw [infer_eq, inferAlongSpine_eq, inferDirectly_eq]
  rw [hinfer]
  clear hinfer
  induction depth generalizing defs e with
  | zero => rfl
  | succ depth ih =>
    have hdepth := Expr.rightDepth_descend [] e depth
    rw [inferWithin, climbWith_eq ih, inferAlongSpine]
    simp only [List.mem_reverse, hdepth, List.not_mem_nil, false_implies, implies_true, true_and,
      Nat.lt_succ_iff]

def defineWithin (depth : Nat) (defs : Definitions) (a : Assignment) : Option Inferred := do
  let value ← match a.value? with
    | some value => defs.inferWithin depth value
    | none => some ⟨.unknown, defs, []⟩
  return { value with
    definitions := value.definitions.insert a.target.name ⟨a.span, value.kind, false⟩ }

/-- The names to offer at a cursor. The way down to the cursor is a loop, and only the values in
front of it are inferred, with a bound on the calls. -/
def completeWithin (depth : Nat) (p : Position) (defs : Definitions) :
    List Assignment → Option (List String)
  | [] => some []
  | a :: rest =>
    if a.span.contains p then some ((a.value?.map (defs.completeValue p)).getD [])
    else do
      let first ← defs.defineWithin depth a
      completeWithin depth p first.definitions rest

theorem defineWithin_eq {depth : Nat} {a : Assignment}
    (h : ∀ value ∈ a.value?, value.rightDepth < depth) (defs : Definitions) :
    defs.defineWithin depth a = some (defs.define a) := by
  rw [defineWithin, define]
  cases hvalue : a.value? with
  | none => rfl
  | some value =>
    simp only [inferWithin_eq, if_pos (h value hvalue)]
    rfl

theorem completeWithin_eq {depth : Nat} {as : List Assignment}
    (h : ∀ a ∈ as, ∀ value ∈ a.value?, value.rightDepth < depth) (p : Position)
    (defs : Definitions) : defs.completeWithin depth p as = some (defs.complete p as) := by
  induction as generalizing defs with
  | nil => rfl
  | cons a rest ih =>
    obtain ⟨hfirst, hrest⟩ := List.forall_mem_cons.1 h
    rw [completeWithin, complete]
    split
    · rfl
    · rw [defineWithin_eq hfirst]
      exact ih hrest _

end Definitions

/-- Whatever recovery has skipped, the operands in a tree are those that the precedences of the
operators ask for, and no path goes to the right more than twice. So inference, completion and
the release of the tree never nest more than three calls, however long the values are. -/
theorem precedences_kept (text : Text) :
    (∀ a ∈ (File.parse text).file.assignments, ∀ value ∈ a.value?,
      (∀ path node, value.at? path = some node →
        node.KeepsPrecedence ∧ path.count .right ≤ 2) ∧
      (∀ defs : Definitions, defs.inferWithin 3 value = some (defs.infer value)) ∧
      value.releaseWithin 3 = some value.weight) ∧
    ∀ p : Position, Definitions.completeWithin 3 p ∅ (File.parse text).file.assignments =
      some (complete text p) := by
  have hdepth : ∀ a ∈ (File.parse text).file.assignments, ∀ value ∈ a.value?,
      value.rightDepth < 3 := fun a ha value hvalue =>
    Nat.lt_succ_of_le (File.sumShaped_parse text ha hvalue).depth
  refine ⟨fun a ha value hvalue => ⟨fun path node hnode => ⟨?_, ?_⟩, fun defs => ?_, ?_⟩,
    fun p => Definitions.completeWithin_eq hdepth p ∅⟩
  · exact (File.sumShaped_parse text ha hvalue).keeps path node hnode
  · exact (Expr.count_right_le hnode).trans (File.sumShaped_parse text ha hvalue).depth
  · rw [Definitions.inferWithin_eq, if_pos (hdepth a ha value hvalue)]
  · rw [Expr.releaseWithin_eq, if_pos (hdepth a ha value hvalue)]

end AssignLang
