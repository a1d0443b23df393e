import AssignLang.Position

/-! Spans of a source text: from a first point up to, and not including, a
second one. The order of the two is not enforced, so that a caller's selection
can be taken as it comes; every span that the front end makes is ordered. -/

namespace AssignLang

structure Span where
  start : Position := {}
  stop : Position := {}
deriving DecidableEq, Repr, Inhabited

namespace Span

def empty (p : Position) : Span := ⟨p, p⟩

/-- The number of bytes covered, zero for a span that runs backwards. -/
def length (s : Span) : Nat := s.stop.offset - s.start.offset

def isEmpty (s : Span) : Bool := s.length == 0

def merge (s t : Span) : Span := ⟨s.start.earlier t.start, s.stop.later t.stop⟩

/-- Both ends count, so a cursor right behind the last character is inside. -/
def contains (s : Span) (p : Position) : Bool :=
  s.start.offset ≤ p.offset && p.offset ≤ s.stop.offset

def overlaps (s t : Span) : Bool :=
  s.contains t.start || s.contains t.stop || t.contains s.start || t.contains s.stop

def extend (s : Span) : Option Span → Span
  | none => s
  | some extra => s.merge extra

/-- A run of spans, if there is one yet, with one more at its end. -/
def join (run : Option Span) (s : Span) : Span :=
  match run with
  | none => s
  | some run => run.merge s

@[simp] theorem offset_start_merge (s t : Span) :
    (s.merge t).start.offset = min s.start.offset t.start.offset := by simp [merge]

@[simp] theorem offset_stop_merge (s t : Span) :
    (s.merge t).stop.offset = max s.stop.offset t.stop.offset := by simp [merge]

theorem contains_iff {s : Span} {p : Position} :
    s.contains p = true ↔ s.start.offset ≤ p.offset ∧ p.offset ≤ s.stop.offset := by
  simp [contains]

/-- Between spans that run forwards, to overlap is to share a point. -/
theorem overlaps_iff {s t : Span} (hs : s.start.offset ≤ s.stop.offset)
    (ht : t.start.offset ≤ t.stop.offset) :
    s.overlaps t = true ↔ s.start.offset ≤ t.stop.offset ∧ t.start.offset ≤ s.stop.offset := by
  simp only [overlaps, contains, Bool.or_eq_true, Bool.and_eq_true, decide_eq_true_eq]
  omega

end Span

end AssignLang
