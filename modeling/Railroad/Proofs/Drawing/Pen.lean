import Mathlib.Algebra.Order.Group.Abs
import Railroad.Proofs.Geometry.Exact
import Railroad.Proofs.Surface.Answers
/-!
The pen that follows the segments of a path, and where it takes a connector in exact coordinates.
-/
namespace Railroad

section Pens

variable {α : Type} [Scalar α]

/-- Where a segment takes the pen.  An arrowhead is a closed polygon and brings it back. -/
def Primitive.penAfter (pen : Point α) : Primitive α → Point α
  | pathHTo x => pen.withX x
  | pathVTo y => pen.withY y
  | pathArc radius arc =>
      let d : Point α := arc.delta
      pen.move (d.x * radius) (d.y * radius)
  | _ => pen

/-- The places of the pen along a path, its first point included. -/
def penTrail (pen : Point α) : List (Primitive α) → List (Point α)
  | [] => [pen]
  | s :: ss => pen :: penTrail (s.penAfter pen) ss

/-- Where a path takes the pen. -/
def penEnd (pen : Point α) : List (Primitive α) → Point α
  | [] => pen
  | s :: ss => penEnd (s.penAfter pen) ss

@[simp] theorem penEnd_nil (pen : Point α) : penEnd pen [] = pen := rfl

@[simp] theorem penEnd_cons (pen : Point α) (s : Primitive α) (ss : List (Primitive α)) :
    penEnd pen (s :: ss) = penEnd (s.penAfter pen) ss := rfl

@[simp] theorem penTrail_nil (pen : Point α) : penTrail pen [] = [pen] := rfl

@[simp] theorem penTrail_cons (pen : Point α) (s : Primitive α) (ss : List (Primitive α)) :
    penTrail pen (s :: ss) = pen :: penTrail (s.penAfter pen) ss := rfl

@[simp] theorem penAfter_pathHTo (pen : Point α) (x : α) :
    (Primitive.pathHTo x).penAfter pen = pen.withX x := rfl

@[simp] theorem penAfter_pathVTo (pen : Point α) (y : α) :
    (Primitive.pathVTo y).penAfter pen = pen.withY y := rfl

end Pens

/-- A turn takes the pen one radius to the side and one up or down. -/
@[simp] theorem penAfter_pathArc (pen : Point Rat) (radius : Rat) (arc : Arc) :
    (Primitive.pathArc radius arc).penAfter pen =
      pen.move (if arc.heading.1 then radius else -radius)
        (if arc.heading.2 then radius else -radius) := by
  cases arc <;> simp [Primitive.penAfter, Arc.delta, Arc.heading, Scalar.ofInt]

/-- Where a connector takes the pen.  One between rightwards flows leaves it at the first point if the
second one does not lie to the right.  One between leftwards flows that has to lead up and to the right
ends four radii to the left of the second point, and one between downwards flows never leads up. -/
def connectorEnd (leaving : Direction) (p q : Point Rat) (arriving : Direction) (r : Rat) : Point Rat :=
  match leaving, arriving with
  | .right, .right => if q.x ≤ p.x then p else q
  | .left, .left => if q.y ≤ p.y ∧ p.x < q.x then q.move (-(r * 4)) 0 else q
  | .down, .down => q.withY (Max.max p.y q.y)
  | _, _ => q

/-- A connector that is drawn, but ends beside its second point. -/
def Strays (leaving : Direction) (p q : Point Rat) (arriving : Direction) (r : Rat) : Prop :=
  match leaving, arriving with
  | .left, .left => q.y ≤ p.y ∧ p.x < q.x ∧ r ≠ 0
  | .down, .down => q.y < p.y
  | _, _ => False

section Ends

variable {leaving arriving : Direction} {p q : Point Rat} {r : Rat} {segments : List (Primitive Rat)}

theorem exists_segments (hjoins : leaving.joins arriving = true) (p q : Point Rat) (r : Rat) :
    ∃ segments, connectorSegments? leaving arriving p q r = some segments := by
  rwa [← Option.isSome_iff_exists, isSome_connectorSegments?]

theorem penEnd_connector (h : connectorSegments? leaving arriving p q r = some segments) :
    penEnd p segments = connectorEnd leaving p q arriving r := by
  -- Only between two flows of one direction may the end of the path be another point than the second one.
  cases leaving with
  | none => cases h
  | right =>
      cases arriving with
      | none => cases h
      | right =>
          cases h
          simp only [connectorEnd]
          split
          · rfl
          · split <;> ext <;> simp [Arc.heading]
            ring
      | left =>
          cases h
          split <;> ext <;> simp [Arc.heading, connectorEnd]
      | up | down =>
          cases h
          ext <;> simp [Arc.heading, connectorEnd]
  | left =>
      cases arriving with
      | none => cases h
      | right =>
          cases h
          split <;> ext <;> simp [Arc.heading, connectorEnd]
      | left =>
          cases h
          simp only [connectorEnd]
          by_cases hy : p.y < q.y
          · rw [if_pos hy, if_neg (by simp [hy])]
            ext <;> simp [Arc.heading]
          · by_cases hx : p.x < q.x
            · rw [if_neg hy, if_pos hx, if_pos ⟨not_lt.mp hy, hx⟩]
              ext <;> simp [Arc.heading]
              ring
            · rw [if_neg hy, if_neg hx, if_neg (by simp [hx])]
              ext <;> simp [Arc.heading]
              ring
      | up | down =>
          cases h
          ext <;> simp [Arc.heading, connectorEnd]
  | up =>
      cases arriving with
      | right =>
          cases h
          ext <;> simp [Arc.heading, connectorEnd]
      | none | left | up | down => cases h
  | down =>
      cases arriving with
      | none => cases h
      | right | left =>
          cases h
          ext <;> simp [Arc.heading, connectorEnd]
      | up =>
          cases h
          split <;> ext <;> simp [Arc.heading, connectorEnd]
      | down =>
          cases h
          split <;> ext <;> simp [Arc.heading, connectorEnd]
          · ring
          · ring

/-- The only connectors without a path are those that lead nowhere. -/
theorem segments_eq_nil_iff (h : connectorSegments? leaving arriving p q r = some segments) :
    segments = [] ↔ leaving = .right ∧ arriving = .right ∧ q.x ≤ p.x := by
  by_cases hflow : leaving = .right ∧ arriving = .right
  · obtain ⟨rfl, rfl⟩ := hflow
    cases h
    by_cases hx : q.x ≤ p.x
    · simp [hx]
    · simp only [hx, if_false, and_false, iff_false]
      split <;> simp
  · have hne : segments ≠ [] := by
      unfold connectorSegments? at h
      split at h
      all_goals cases h
      · exact absurd ⟨rfl, rfl⟩ hflow
      all_goals (repeat' split) <;> simp
    exact iff_of_false hne fun hleads => hflow ⟨hleads.1, hleads.2.1⟩

theorem connectorEnd_eq_iff (hdrawn : ¬ (leaving = .right ∧ arriving = .right ∧ q.x ≤ p.x)) :
    connectorEnd leaving p q arriving r = q ↔ ¬ Strays leaving p q arriving r := by
  rw [connectorEnd.eq_def, Strays.eq_def]
  -- The cases are those of `connectorEnd`; in the last one neither definition has a say.
  split
  · rw [if_neg fun hx => hdrawn ⟨rfl, rfl, hx⟩]
    simp
  · split_ifs with hup
    · simp [Point.ext_iff, hup]
    · simp only [ne_eq, not_and, true_iff]
      exact fun hy hx => absurd ⟨hy, hx⟩ hup
  · simp [Point.ext_iff]
  · split <;> simp_all

theorem primitives_connector (h : connectorSegments? leaving arriving p q r = some segments)
    (style : Style) : (Composite.connector leaving p q arriving r style).primitives =
      .ok (.pathBegin p.x p.y style :: segments ++ [.pathEnd]) := by
  simp only [Composite.primitives, Composite.shaft?, Composite.strokes, h]
  rfl

end Ends

/-- A connector for a supported pair of directions begins at its first point.  It is empty only between
rightwards flows, if the second point does not lie to the right of the first.  Any other one takes the pen
to the second point, unless it is one of those that stray. -/
theorem connector_target_iff {leaving arriving : Direction} (hjoins : leaving.joins arriving = true)
    (p q : Point Rat) (r : Rat) (style : Style) :
    ∃ segments, (Composite.connector leaving p q arriving r style).primitives =
        .ok (.pathBegin p.x p.y style :: segments ++ [.pathEnd]) ∧
      (∀ s ∈ segments, s.isSegment = true) ∧
      (segments = [] ↔ leaving = .right ∧ arriving = .right ∧ q.x ≤ p.x) ∧
      penEnd p segments = connectorEnd leaving p q arriving r ∧
      (segments ≠ [] → (penEnd p segments = q ↔ ¬ Strays leaving p q arriving r)) := by
  obtain ⟨segments, hshape⟩ := exists_segments hjoins p q r
  refine ⟨segments, primitives_connector hshape style, isSegment_of_connector hshape,
    segments_eq_nil_iff hshape, penEnd_connector hshape, ?_⟩
  intro hne
  rw [penEnd_connector hshape]
  exact connectorEnd_eq_iff ((segments_eq_nil_iff hshape).not.mp hne)

theorem connector_target_iff_turnBack : Direction.joins .left .left = true ∧
    ∃ segments, (Composite.connector .left ⟨50, 40⟩ ⟨0, 0⟩ .left 10 .line).primitives =
        .ok (.pathBegin 50 40 .line :: segments ++ [.pathEnd]) ∧
      (∀ s ∈ segments, s.isSegment = true) ∧
      (segments = [] ↔ Direction.left = .right ∧ Direction.left = .right ∧ (0 : Rat) ≤ 50) ∧
      penEnd ⟨50, 40⟩ segments = connectorEnd .left ⟨50, 40⟩ ⟨0, 0⟩ .left 10 ∧
      (segments ≠ [] → (penEnd ⟨50, 40⟩ segments = ⟨0, 0⟩ ↔ ¬ Strays .left ⟨50, 40⟩ ⟨0, 0⟩ .left 10)) :=
  ⟨rfl, connector_target_iff rfl ⟨50, 40⟩ ⟨0, 0⟩ 10 .line⟩

/-- Two connectors that are drawn, but do not take the pen to their second points. -/
theorem connector_strays :
    (Composite.connector .left ⟨0, 40⟩ ⟨50, 0⟩ .left (10 : Rat) .line).primitives =
        .ok [.pathBegin 0 40 .line, .pathHTo 30, .pathArc 10 .leftUp, .pathVTo 10,
          .pathArc 10 .upLeft, .pathEnd] ∧
      penEnd (⟨0, 40⟩ : Point Rat) [.pathHTo 30, .pathArc 10 .leftUp, .pathVTo 10,
        .pathArc 10 .upLeft] = ⟨10, 0⟩ ∧
      (Composite.connector .down ⟨0, 60⟩ ⟨50, 0⟩ .down (10 : Rat) .line).primitives =
        .ok [.pathBegin 0 60 .line, .pathVTo 40, .pathArc 10 .downRight, .pathHTo 40,
          .pathArc 10 .rightDown, .pathEnd] ∧
      penEnd (⟨0, 60⟩ : Point Rat) [.pathVTo 40, .pathArc 10 .downRight, .pathHTo 40,
        .pathArc 10 .rightDown] = ⟨50, 60⟩ := by
  decide +kernel

/-- The rows of a trail never go back on the way from one row to another. -/
def KeepsOn (p q : Point Rat) (trail : List (Point Rat)) : Prop :=
  if p.y < q.y then trail.Pairwise fun a b => a.y ≤ b.y else trail.Pairwise fun a b => b.y ≤ a.y

/-- A connector that is drawn: its path is not empty and takes the pen from the first point to the
second.  If it leaves and arrives horizontally, then two arcs fit between the two rows, and the pen never
goes back between them. -/
structure Reaches (leaving : Direction) (p q : Point Rat) (arriving : Direction) (r : Rat)
    (segments : List (Primitive Rat)) : Prop where
  shape : connectorSegments? leaving arriving p q r = some segments
  nonempty : segments ≠ []
  target : penEnd p segments = q
  rows : leaving.isHorizontal = true → arriving.isHorizontal = true →
    r * 2 ≤ |q.y - p.y| ∧ KeepsOn p q (penTrail p segments)

/-- What a connector asks of its two points. -/
def Fits (leaving : Direction) (p q : Point Rat) (arriving : Direction) (r : Rat) : Prop :=
  match leaving, arriving with
  | .right, .right => p.x < q.x ∧ r * 2 ≤ |q.y - p.y|
  | .right, .left | .left, .right => r * 2 ≤ |q.y - p.y|
  | .left, .left => (q.y ≤ p.y → q.x ≤ p.x) ∧ r * 2 ≤ |q.y - p.y|
  | .down, .down => p.y ≤ q.y
  | _, _ => True

section Connectors

variable {leaving arriving : Direction} {p q : Point Rat} {r : Rat} {segments : List (Primitive Rat)}

theorem keepsOn_of_rows {trail : List (Point Rat)} (hy : r * 2 ≤ |q.y - p.y|)
    (hdown : p.y < q.y → p.y + r ≤ q.y - r → trail.Pairwise fun a b => a.y ≤ b.y)
    (hup : ¬ p.y < q.y → q.y + r ≤ p.y - r → trail.Pairwise fun a b => b.y ≤ a.y) :
    KeepsOn p q trail := by
  rw [KeepsOn]
  split
  · rename_i hlt
    rw [abs_of_pos (by linarith)] at hy
    exact hdown hlt (by linarith)
  · rename_i hlt
    rw [abs_of_nonpos (by linarith)] at hy
    exact hup hlt (by linarith)

theorem keepsOn_of_connector (h : connectorSegments? leaving arriving p q r = some segments)
    (hl : leaving.isHorizontal = true) (ha : arriving.isHorizontal = true) (hr : 0 ≤ r)
    (hy : r * 2 ≤ |q.y - p.y|) : KeepsOn p q (penTrail p segments) := by
  cases leaving with
  | none | up | down => cases hl
  | right =>
      cases arriving with
      | none | up | down => cases ha
      | right =>
          cases h
          by_cases hx : q.x ≤ p.x
          · simp [hx, KeepsOn]
          · refine keepsOn_of_rows hy ?_ ?_ <;> intro hlt hroom <;> simp [hx, hlt, Arc.heading]
            · and_intros <;> linarith
            · and_intros <;> linarith
      | left =>
          cases h
          refine keepsOn_of_rows hy ?_ ?_ <;> intro hlt hroom <;> simp [hlt, Arc.heading]
          · and_intros <;> linarith
          · and_intros <;> linarith
  | left =>
      cases arriving with
      | none | up | down => cases ha
      | right | left =>
          cases h
          refine keepsOn_of_rows hy ?_ ?_ <;> intro hlt hroom <;> simp [hlt, Arc.heading]
          · and_intros <;> linarith
          · and_intros <;> linarith

/-- A connector that fits has room for two arcs between its rows. -/
theorem Fits.rows (h : Fits leaving p q arriving r) (hl : leaving.isHorizontal = true)
    (ha : arriving.isHorizontal = true) : r * 2 ≤ |q.y - p.y| := by
  cases leaving with
  | none | up | down => cases hl
  | right =>
      cases arriving with
      | none | up | down => cases ha
      | right => exact h.2
      | left => exact h
  | left =>
      cases arriving with
      | none | up | down => cases ha
      | right => exact h
      | left => exact h.2

theorem Fits.drawn (h : Fits leaving p q arriving r) :
    ¬ (leaving = .right ∧ arriving = .right ∧ q.x ≤ p.x) := by
  rintro ⟨rfl, rfl, hx⟩
  exact absurd h.1 (not_lt.mpr hx)

theorem Fits.not_strays (h : Fits leaving p q arriving r) : ¬ Strays leaving p q arriving r := by
  intro hstrays
  rw [Strays.eq_def] at hstrays
  split at hstrays
  · exact absurd hstrays.2.1 (not_lt.mpr (h.1 hstrays.1))
  · exact absurd hstrays (not_lt.mpr h)
  · exact hstrays

theorem Fits.reaches (hr : 0 ≤ r) (hjoins : leaving.joins arriving = true)
    (h : Fits leaving p q arriving r) : ∃ segments, Reaches leaving p q arriving r segments := by
  obtain ⟨segments, hshape⟩ := exists_segments hjoins p q r
  refine ⟨segments, hshape, ?_, ?_, ?_⟩
  · exact fun hnil => h.drawn ((segments_eq_nil_iff hshape).mp hnil)
  · rw [penEnd_connector hshape, connectorEnd_eq_iff h.drawn]
    exact h.not_strays
  · intro hl ha
    exact ⟨h.rows hl ha, keepsOn_of_connector hshape hl ha hr (h.rows hl ha)⟩

end Connectors

/-- The path that is drawn begins at the first point. -/
theorem Reaches.primitives {leaving arriving : Direction} {p q : Point Rat} {r : Rat}
    {segments : List (Primitive Rat)} (h : Reaches leaving p q arriving r segments) (style : Style) :
    (Composite.connector leaving p q arriving r style).primitives =
      .ok (.pathBegin p.x p.y style :: segments ++ [.pathEnd]) :=
  primitives_connector h.shape style

end Railroad
