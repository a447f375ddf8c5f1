import Mathlib.Algebra.Order.Ring.Rat
import Mathlib.Tactic.Linarith
import Mathlib.Tactic.Ring
import Railroad.Geometry.Metrics
/-!
Boxes in exact coordinates.  Over the rationals every coordinate of a moved or grown box is given by the
coordinates that it comes from, and boxes can be compared: one lies inside another, or two lie apart.
-/
namespace Railroad

section Scalars

variable (a b : Rat)

@[simp] theorem Scalar.max_rat : Scalar.max a b = Max.max a b := by
  rw [Scalar.max, max_def]
  split <;> split <;> linarith

@[simp] theorem Scalar.min_rat : Scalar.min a b = Min.min a b := by
  rw [Scalar.min, min_def]
  split <;> split <;> linarith

end Scalars

namespace Metrics

@[simp] theorem lineHeight_rat : (lineHeight : Rat) = 32 := by
  norm_num [lineHeight, textSize, textPad]

@[simp] theorem circle_rat : (circle : Rat) = 4 := rfl

@[simp] theorem padV_rat : (padV : Rat) = 8 := rfl

@[simp] theorem padH_rat : (padH : Rat) = 10 := rfl

@[simp] theorem radius_rat : (radius : Rat) = 10 := rfl

@[simp] theorem arrowSize_rat : (arrowSize : Rat) = 10 := rfl

@[simp] theorem newBox_tl : (newBox : Box Rat).tl = .zero := rfl

@[simp] theorem newBox_br : (newBox : Box Rat).br = .zero := rfl

@[simp] theorem newBox_yAnchor : (newBox : Box Rat).yAnchor = 24 := by
  norm_num [newBox, Box.atOrigin]

end Metrics

namespace Point

variable (p q : Point Rat) (dx dy : Rat)

@[simp] theorem zero_x : (zero : Point Rat).x = 0 := rfl

@[simp] theorem zero_y : (zero : Point Rat).y = 0 := rfl

@[simp] theorem move_x : (p.move dx dy).x = p.x + dx := rfl

@[simp] theorem move_y : (p.move dx dy).y = p.y + dy := rfl

@[simp] theorem translate_x : (p.translate q).x = p.x + q.x := rfl

@[simp] theorem translate_y : (p.translate q).y = p.y + q.y := rfl

@[simp] theorem minus_x : (p.minus q).x = p.x - q.x := rfl

@[simp] theorem minus_y : (p.minus q).y = p.y - q.y := rfl

@[simp] theorem negate_x : p.negate.x = -p.x := rfl

@[simp] theorem negate_y : p.negate.y = -p.y := rfl

@[simp] theorem withX_x : (p.withX dx).x = dx := rfl

@[simp] theorem withX_y : (p.withX dx).y = p.y := rfl

@[simp] theorem withY_x : (p.withY dy).x = p.x := rfl

@[simp] theorem withY_y : (p.withY dy).y = dy := rfl

@[simp] theorem min_x : (p.min q).x = Min.min p.x q.x := Scalar.min_rat ..

@[simp] theorem min_y : (p.min q).y = Min.min p.y q.y := Scalar.min_rat ..

@[simp] theorem max_x : (p.max q).x = Max.max p.x q.x := Scalar.max_rat ..

@[simp] theorem max_y : (p.max q).y = Max.max p.y q.y := Scalar.max_rat ..

end Point

namespace Box

section Coordinates

variable (b e : Box Rat) (p : Point Rat) (y : Rat)

theorem width_eq : b.width = b.br.x - b.tl.x := rfl

theorem height_eq : b.height = b.br.y - b.tl.y := rfl

@[simp] theorem lAnchor_x : b.lAnchor.x = b.tl.x := rfl

@[simp] theorem lAnchor_y : b.lAnchor.y = b.tl.y + b.yAnchor := rfl

@[simp] theorem rAnchor_x : b.rAnchor.x = b.br.x := rfl

@[simp] theorem rAnchor_y : b.rAnchor.y = b.tl.y + b.yAnchor := rfl

@[simp] theorem tlCorner_eq : b.tlCorner = b.tl := rfl

@[simp] theorem brCorner_eq : b.brCorner = b.br := rfl

@[simp] theorem trCorner_x : b.trCorner.x = b.br.x := rfl

@[simp] theorem trCorner_y : b.trCorner.y = b.tl.y := rfl

@[simp] theorem blCorner_x : b.blCorner.x = b.tl.x := rfl

@[simp] theorem blCorner_y : b.blCorner.y = b.br.y := rfl

@[simp] theorem tlAnchor_y : b.tlAnchor.y = b.tl.y := rfl

@[simp] theorem trAnchor_y : b.trAnchor.y = b.tl.y := rfl

@[simp] theorem tCenter_y : b.tCenter.y = b.tl.y := rfl

@[simp] theorem moveBy_tl : (b.moveBy p).tl = b.tl.translate p := rfl

@[simp] theorem moveBy_br : (b.moveBy p).br = b.br.translate p := rfl

@[simp] theorem moveBy_xAnchor : (b.moveBy p).xAnchor = b.xAnchor := rfl

@[simp] theorem moveBy_yAnchor : (b.moveBy p).yAnchor = b.yAnchor := rfl

@[simp] theorem setYAnchor_tl : (b.setYAnchor y).tl = b.tl := rfl

@[simp] theorem setYAnchor_br : (b.setYAnchor y).br = b.br := rfl

@[simp] theorem setYAnchor_yAnchor : (b.setYAnchor y).yAnchor = y := rfl

@[simp] theorem includeBox_tl : (b.includeBox e).tl = b.tl.min e.tl := rfl

@[simp] theorem includeBox_br : (b.includeBox e).br = b.br.max e.br := rfl

@[simp] theorem includePoint_tl : (b.includePoint p).tl = b.tl.min p := rfl

@[simp] theorem includePoint_br : (b.includePoint p).br = b.br.max p := rfl

@[simp] theorem moveTo_tl : (b.moveTo p).tl = p := by
  ext <;> simp [moveTo]

@[simp] theorem moveTo_br_x : (b.moveTo p).br.x = p.x + b.width := by
  simp [moveTo, width_eq]
  ring

@[simp] theorem moveTo_br_y : (b.moveTo p).br.y = p.y + b.height := by
  simp [moveTo, height_eq]
  ring

@[simp] theorem moveTo_yAnchor : (b.moveTo p).yAnchor = b.yAnchor := rfl

@[simp] theorem moveLAnchor_tl_x : (b.moveLAnchor p).tl.x = p.x := by
  simp [moveLAnchor]

@[simp] theorem moveLAnchor_tl_y : (b.moveLAnchor p).tl.y = p.y - b.yAnchor := by
  simp [moveLAnchor]
  ring

@[simp] theorem moveLAnchor_br_x : (b.moveLAnchor p).br.x = p.x + b.width := by
  simp [moveLAnchor, width_eq]
  ring

@[simp] theorem moveLAnchor_br_y : (b.moveLAnchor p).br.y = p.y - b.yAnchor + b.height := by
  simp [moveLAnchor, height_eq]
  ring

@[simp] theorem moveLAnchor_yAnchor : (b.moveLAnchor p).yAnchor = b.yAnchor := rfl

@[simp] theorem moveRAnchor_tl_x : (b.moveRAnchor p).tl.x = p.x - b.width := by
  simp [moveRAnchor, width_eq]
  ring

@[simp] theorem moveRAnchor_tl_y : (b.moveRAnchor p).tl.y = p.y - b.yAnchor := by
  simp [moveRAnchor]
  ring

@[simp] theorem moveRAnchor_br_x : (b.moveRAnchor p).br.x = p.x := by
  simp [moveRAnchor]

@[simp] theorem moveRAnchor_br_y : (b.moveRAnchor p).br.y = p.y - b.yAnchor + b.height := by
  simp [moveRAnchor, height_eq]
  ring

@[simp] theorem moveRAnchor_yAnchor : (b.moveRAnchor p).yAnchor = b.yAnchor := rfl

@[simp] theorem includeBox_row :
    (b.includeBox e).tl.y + (b.includeBox e).yAnchor = b.tl.y + b.yAnchor := by
  simp only [includeBox, includeCorners]
  ring

@[simp] theorem includePoint_row :
    (b.includePoint p).tl.y + (b.includePoint p).yAnchor = b.tl.y + b.yAnchor := by
  simp only [includePoint, includeCorners]
  ring

end Coordinates

/-- The box lies inside another one, edges included. -/
structure Inside (e b : Box Rat) : Prop where
  left : b.tl.x ≤ e.tl.x
  top : b.tl.y ≤ e.tl.y
  right : e.br.x ≤ b.br.x
  bottom : e.br.y ≤ b.br.y

/-- The points strictly inside a box. -/
def Interior (b : Box Rat) (p : Point Rat) : Prop :=
  (b.tl.x < p.x ∧ p.x < b.br.x) ∧ b.tl.y < p.y ∧ p.y < b.br.y

/-- No point is strictly inside both boxes. -/
def Apart (b e : Box Rat) : Prop :=
  ∀ p, ¬ (b.Interior p ∧ e.Interior p)

section Relations

variable {b e c : Box Rat} {p : Point Rat}

theorem Inside.refl (b : Box Rat) : b.Inside b :=
  ⟨le_rfl, le_rfl, le_rfl, le_rfl⟩

theorem Inside.trans (h : e.Inside b) (h' : b.Inside c) : e.Inside c :=
  ⟨h'.left.trans h.left, h'.top.trans h.top, h.right.trans h'.right, h.bottom.trans h'.bottom⟩

theorem Inside.interior (h : e.Inside b) (hp : e.Interior p) : b.Interior p :=
  ⟨⟨h.left.trans_lt hp.1.1, hp.1.2.trans_le h.right⟩, h.top.trans_lt hp.2.1,
    hp.2.2.trans_le h.bottom⟩

theorem inside_includeBox_left (b e : Box Rat) : b.Inside (b.includeBox e) := by
  constructor <;> simp

theorem inside_includeBox_right (b e : Box Rat) : e.Inside (b.includeBox e) := by
  constructor <;> simp

theorem inside_includePoint (b : Box Rat) (p : Point Rat) : b.Inside (b.includePoint p) := by
  constructor <;> simp

theorem inside_setYAnchor (b : Box Rat) (y : Rat) : b.Inside (b.setYAnchor y) :=
  ⟨le_rfl, le_rfl, le_rfl, le_rfl⟩

theorem inside_moveBy_iff (δ : Point Rat) : (e.moveBy δ).Inside (b.moveBy δ) ↔ e.Inside b := by
  constructor
  · rintro ⟨hl, ht, hr, hb⟩
    simp at hl ht hr hb
    exact ⟨hl, ht, hr, hb⟩
  · rintro ⟨hl, ht, hr, hb⟩
    constructor <;> simpa

theorem interior_moveBy_iff (δ : Point Rat) :
    (b.moveBy δ).Interior p ↔ b.Interior (p.minus δ) := by
  simp [Interior, lt_sub_iff_add_lt, sub_lt_iff_lt_add]

theorem Apart.symm (h : b.Apart e) : e.Apart b :=
  fun p hp => h p hp.symm

theorem Apart.inside {b' e' : Box Rat} (h : b.Apart e) (hb : b'.Inside b) (he : e'.Inside e) :
    b'.Apart e' :=
  fun p hp => h p ⟨hb.interior hp.1, he.interior hp.2⟩

theorem apart_moveBy_iff (δ : Point Rat) : (b.moveBy δ).Apart (e.moveBy δ) ↔ b.Apart e := by
  constructor
  · intro h p hp
    refine h (p.translate δ) ?_
    rw [interior_moveBy_iff, interior_moveBy_iff]
    have : (p.translate δ).minus δ = p := by ext <;> simp
    rwa [this]
  · intro h p hp
    rw [interior_moveBy_iff, interior_moveBy_iff] at hp
    exact h _ hp

theorem apart_of_right (h : b.br.x ≤ e.tl.x) : b.Apart e := by
  rintro p ⟨⟨⟨-, hb⟩, -⟩, ⟨he, -⟩, -⟩
  linarith

theorem apart_of_below (h : b.br.y ≤ e.tl.y) : b.Apart e := by
  rintro p ⟨⟨-, -, hb⟩, -, he, -⟩
  linarith

end Relations

/-- The box stands at the origin, and no side of it is negative. -/
structure Homed (b : Box Rat) : Prop where
  x : b.tl.x = 0
  y : b.tl.y = 0
  width : 0 ≤ b.br.x
  height : 0 ≤ b.br.y

theorem Homed.width_nonneg {b : Box Rat} (h : b.Homed) : 0 ≤ b.width := by
  rw [width_eq, h.x, sub_zero]
  exact h.width

/-- The box is another one elsewhere, but for its anchors. -/
def SameSize (b e : Box Rat) : Prop :=
  b.width = e.width ∧ b.height = e.height

theorem sameSize_moveBy (b : Box Rat) (δ : Point Rat) : b.SameSize (b.moveBy δ) := by
  constructor <;> simp [width_eq, height_eq]

theorem SameSize.trans {b c e : Box Rat} (h : b.SameSize c) (h' : c.SameSize e) : b.SameSize e :=
  ⟨h.1.trans h'.1, h.2.trans h'.2⟩

theorem sameSize_moveTo (b : Box Rat) (p : Point Rat) : b.SameSize (b.moveTo p) :=
  sameSize_moveBy ..

theorem sameSize_moveLAnchor (b : Box Rat) (p : Point Rat) : b.SameSize (b.moveLAnchor p) :=
  sameSize_moveBy ..

theorem sameSize_moveRAnchor (b : Box Rat) (p : Point Rat) : b.SameSize (b.moveRAnchor p) :=
  sameSize_moveBy ..

end Box

end Railroad
