import Railroad.Proofs.Drawing.Pen
import Railroad.Proofs.Drawing.Scopes
/-!
The vertical runs of a drawing: where its paths lead straight up or down.
-/
namespace Railroad

/-- A straight vertical part of a path. -/
structure VerticalRun (α : Type) where
  x : α
  top : α
  bottom : α
deriving Repr, DecidableEq

section Runs

variable {α : Type} [Scalar α]

/-- Where a primitive leaves the pen, also one that begins a path. -/
def Primitive.penNext (pen : Point α) : Primitive α → Point α
  | pathBegin x y _ => ⟨x, y⟩
  | p => p.penAfter pen

def Primitive.verticalRun? (pen : Point α) : Primitive α → Option (VerticalRun α)
  | pathVTo y => some ⟨pen.x, Scalar.min pen.y y, Scalar.max pen.y y⟩
  | _ => none

/-- The vertical runs of some primitives that are drawn with a pen. -/
def verticalRuns (pen : Point α) : List (Primitive α) → List (VerticalRun α)
  | [] => []
  | p :: ps => (p.verticalRun? pen).toList ++ verticalRuns (p.penNext pen) ps

def Call.verticalRuns (c : Call α) : List (VerticalRun α) :=
  c.primitives.toOption.elim [] (Railroad.verticalRuns .zero)

def Event.verticalRuns : Event α → List (VerticalRun α)
  | .call c => c.verticalRuns
  | _ => []

/-- Something that is shown runs vertically through a point. -/
def IsCovered (shown : List (Scope Rat × Event Rat)) (x y : Rat) : Prop :=
  ∃ s ∈ shown, ∃ r ∈ s.2.verticalRuns, s.1.origins.toX r.x = x ∧
    s.1.origins.toY r.top ≤ y ∧ y ≤ s.1.origins.toY r.bottom

instance (shown : List (Scope Rat × Event Rat)) (x y : Rat) : Decidable (IsCovered shown x y) :=
  inferInstanceAs (Decidable (∃ s ∈ shown, ∃ r ∈ s.2.verticalRuns, _ ∧ _ ∧ _))

end Runs

section Connectors

variable {p q : Point Rat}

open Strokes

theorem verticalRuns_connect {leaving arriving : Direction} {segments : List (Primitive Rat)}
    (h : connectorSegments? leaving arriving p q Metrics.radius = some segments) :
    (connect leaving p q arriving).verticalRuns = Railroad.verticalRuns p (segments ++ [.pathEnd]) := by
  rw [connect, Call.verticalRuns, Call.primitives, Composite.primitives, Composite.strokes, h]
  rfl

/-- A connector that arrives upwards ends with a run to its second point. -/
theorem verticalRuns_right_up : (connect .right p q .up).verticalRuns =
    [⟨q.x, min (p.y - 10) q.y, max (p.y - 10) q.y⟩] := by
  rw [verticalRuns_connect rfl]
  simp [Railroad.verticalRuns, Primitive.verticalRun?, Primitive.penNext, Arc.heading, sub_eq_add_neg]

/-- A connector that leaves downwards begins with a run from its first point. -/
theorem verticalRuns_down_right : (connect .down p q .right).verticalRuns =
    [⟨p.x, min p.y (q.y - 10), max p.y (q.y - 10)⟩] := by
  rw [verticalRuns_connect rfl]
  simp [Railroad.verticalRuns, Primitive.verticalRun?]

/-- A connector to the right that leads down turns twice, with a run between. -/
theorem verticalRuns_right_right (hx : p.x < q.x) (hy : p.y < q.y) :
    (connect .right p q .right).verticalRuns =
      [⟨p.x + 10, min (p.y + 10) (q.y - 10), max (p.y + 10) (q.y - 10)⟩] := by
  rw [verticalRuns_connect (by rw [connectorSegments?, if_neg hx.not_ge, if_pos hy])]
  simp [Railroad.verticalRuns, Primitive.verticalRun?, Primitive.penNext, Arc.heading]

/-- One that leads up does so too. -/
theorem verticalRuns_right_right_of_le (hx : p.x < q.x) (hy : q.y ≤ p.y) :
    (connect .right p q .right).verticalRuns =
      [⟨q.x - 10, min (p.y - 10) (q.y + 10), max (p.y - 10) (q.y + 10)⟩] := by
  rw [verticalRuns_connect (by rw [connectorSegments?, if_neg hx.not_ge, if_neg hy.not_gt])]
  simp [Railroad.verticalRuns, Primitive.verticalRun?, Primitive.penNext, Arc.heading,
    sub_eq_add_neg]
  ring

end Connectors

end Railroad
