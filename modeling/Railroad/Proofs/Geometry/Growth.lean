import Mathlib.Order.Bounds.Basic
import Railroad.Proofs.Geometry.Exact
/-!
Boxes that grow over points and other boxes.

What a box has grown over counts, not in which order or how often: it ends as the least box that covers
everything, and its anchor row stays where it was.
-/
namespace Railroad

/-- The corners of the box are the right way round. -/
structure Box.Ordered (b : Box Rat) : Prop where
  x : b.tl.x ≤ b.br.x
  y : b.tl.y ≤ b.br.y

/-- What a box can grow over. -/
inductive Patch where
  | point (p : Point Rat)
  | box (b : Box Rat)

namespace Patch

/-- The patch as a box; that of a point has no size. -/
def outline : Patch → Box Rat
  | point p => ⟨p, p, 0, 0⟩
  | box b => b

def moveBy (δ : Point Rat) : Patch → Patch
  | point p => point (p.translate δ)
  | box b => box (b.moveBy δ)

theorem outline_moveBy (δ : Point Rat) (i : Patch) : (i.moveBy δ).outline = i.outline.moveBy δ := by
  cases i <;> rfl

end Patch

namespace Box

/-- Grows the box over a patch. -/
def including (b : Box Rat) : Patch → Box Rat
  | .point p => b.includePoint p
  | .box e => b.includeBox e

/-- Grows the box over one patch after another. -/
def includingAll (b : Box Rat) (items : List Patch) : Box Rat :=
  items.foldl including b

/-- A box that can be made: of no size at the origin to begin with, and then given a size and an anchor row,
moved, and grown over patches. -/
inductive Made : Box Rat → Prop
  | atOrigin (xAnchor yAnchor : Rat) : Made (.atOrigin xAnchor yAnchor)
  | setWidth {b : Box Rat} (width : Rat) : Made b → Made (b.setWidth width)
  | setHeight {b : Box Rat} (height : Rat) : Made b → Made (b.setHeight height)
  | setYAnchor {b : Box Rat} (yAnchor : Rat) : Made b → Made (b.setYAnchor yAnchor)
  | moveBy {b : Box Rat} (δ : Point Rat) : Made b → Made (b.moveBy δ)
  | including {b : Box Rat} (i : Patch) : Made b → Made (b.including i)

/-- Boxes with the same corners, inset and anchor row. -/
theorem eq_of_row {b e : Box Rat} (htl : b.tl = e.tl) (hbr : b.br = e.br) (hx : b.xAnchor = e.xAnchor)
    (hrow : b.lAnchor.y = e.lAnchor.y) : b = e := by
  have hy : b.yAnchor = e.yAnchor := by simpa [htl] using hrow
  exact Box.ext htl hbr hx hy

theorem Inside.antisymm {b e : Box Rat} (h : b.Inside e) (h' : e.Inside b) :
    b.tl = e.tl ∧ b.br = e.br := by
  constructor
  · exact Point.ext (h'.left.antisymm h.left) (h'.top.antisymm h.top)
  · exact Point.ext (h.right.antisymm h'.right) (h.bottom.antisymm h'.bottom)

section Steps

variable (b : Box Rat) (i : Patch)

theorem including_tl : (b.including i).tl = b.tl.min i.outline.tl := by
  cases i <;> rfl

theorem including_br : (b.including i).br = b.br.max i.outline.br := by
  cases i <;> rfl

theorem including_xAnchor : (b.including i).xAnchor = b.xAnchor := by
  cases i <;> rfl

/-- A top edge that moves up leaves the anchor row where it was. -/
theorem including_row : (b.including i).lAnchor.y = b.lAnchor.y := by
  cases i with
  | point p => exact includePoint_row b p
  | box e => exact includeBox_row b e

theorem including_moveBy (δ : Point Rat) :
    (b.moveBy δ).including (i.moveBy δ) = (b.including i).moveBy δ := by
  apply eq_of_row
  · rw [including_tl, Patch.outline_moveBy, moveBy_tl, moveBy_tl, moveBy_tl, including_tl]
    ext <;> simp [min_add_add_right]
  · rw [including_br, Patch.outline_moveBy, moveBy_br, moveBy_br, moveBy_br, including_br]
    ext <;> simp [max_add_add_right]
  · rw [including_xAnchor, moveBy_xAnchor, moveBy_xAnchor, including_xAnchor]
  · have hrow := including_row b i
    rw [including_row]
    simp only [lAnchor_y, moveBy_tl, Point.translate_y, moveBy_yAnchor] at hrow ⊢
    linarith

/-- A box has room for the grown box exactly if it has room for both. -/
theorem including_inside_iff {c : Box Rat} :
    (b.including i).Inside c ↔ b.Inside c ∧ i.outline.Inside c := by
  constructor
  · rintro ⟨hleft, htop, hright, hbottom⟩
    simp only [including_tl, including_br, Point.min_x, Point.min_y, Point.max_x, Point.max_y, le_min_iff,
      max_le_iff] at hleft htop hright hbottom
    exact ⟨⟨hleft.1, htop.1, hright.1, hbottom.1⟩, hleft.2, htop.2, hright.2, hbottom.2⟩
  · rintro ⟨hb, hi⟩
    constructor
    · simpa [including_tl] using ⟨hb.left, hi.left⟩
    · simpa [including_tl] using ⟨hb.top, hi.top⟩
    · simpa [including_br] using ⟨hb.right, hi.right⟩
    · simpa [including_br] using ⟨hb.bottom, hi.bottom⟩

theorem Ordered.including {b : Box Rat} {i : Patch} (hb : b.Ordered) : (b.including i).Ordered := by
  constructor
  · simpa [including_tl, including_br] using Or.inl (Or.inl hb.x)
  · simpa [including_tl, including_br] using Or.inl (Or.inl hb.y)

/-- The corners of a box that can be made are the right way round, and no other boxes are meant. -/
theorem made_iff_ordered : b.Made ↔ b.Ordered := by
  constructor
  · intro h
    induction h with
    | atOrigin xAnchor yAnchor => exact ⟨le_rfl, le_rfl⟩
    | setWidth width h ih => exact ⟨by simp [Box.setWidth], ih.y⟩
    | setHeight height h ih => exact ⟨ih.x, by simp [Box.setHeight]⟩
    | setYAnchor yAnchor h ih => exact ⟨ih.x, ih.y⟩
    | moveBy δ h ih => exact ⟨by simpa using ih.x, by simpa using ih.y⟩
    | including i h ih => exact ih.including
  · intro h
    have hmade : ((((atOrigin b.xAnchor b.yAnchor).setWidth b.width).setHeight b.height).moveBy b.tl).Made :=
      .moveBy _ (.setHeight _ (.setWidth _ (.atOrigin _ _)))
    have hsame : (((atOrigin b.xAnchor b.yAnchor).setWidth b.width).setHeight b.height).moveBy b.tl = b := by
      apply eq_of_row
      · ext <;> simp [atOrigin, Box.setWidth, Box.setHeight]
      · ext
        · simp [atOrigin, Box.setWidth, Box.setHeight, width_eq, h.x]
        · simp [atOrigin, Box.setWidth, Box.setHeight, height_eq, h.y]
      · rfl
      · simp [atOrigin, Box.setWidth, Box.setHeight, add_comm]
    rwa [hsame] at hmade

end Steps

/-- The corners have the least and the greatest coordinates of some points. -/
structure Spans (b : Box Rat) (ps : List (Point Rat)) : Prop where
  left : IsLeast {x | x ∈ ps.map Point.x} b.tl.x
  top : IsLeast {y | y ∈ ps.map Point.y} b.tl.y
  right : IsGreatest {x | x ∈ ps.map Point.x} b.br.x
  bottom : IsGreatest {y | y ∈ ps.map Point.y} b.br.y

/-- The two points that a box is stored by. -/
def corners (b : Box Rat) : List (Point Rat) :=
  [b.tl, b.br]

theorem Ordered.spans {b : Box Rat} (h : b.Ordered) : b.Spans b.corners := by
  constructor
  · exact ⟨by simp [corners], by simpa [corners, mem_lowerBounds] using h.x⟩
  · exact ⟨by simp [corners], by simpa [corners, mem_lowerBounds] using h.y⟩
  · exact ⟨by simp [corners], by simpa [corners, mem_upperBounds] using h.x⟩
  · exact ⟨by simp [corners], by simpa [corners, mem_upperBounds] using h.y⟩

theorem setOf_mem_map_append (f : Point Rat → Rat) (ps qs : List (Point Rat)) :
    {x | x ∈ (ps ++ qs).map f} = {x | x ∈ ps.map f} ∪ {x | x ∈ qs.map f} := by
  ext x
  rw [List.map_append]
  exact List.mem_append

theorem Spans.including {b : Box Rat} {i : Patch} {ps qs : List (Point Rat)} (hb : b.Spans ps)
    (hi : i.outline.Spans qs) : (b.including i).Spans (ps ++ qs) := by
  constructor
  · rw [setOf_mem_map_append, including_tl, Point.min_x]
    exact hb.left.union hi.left
  · rw [setOf_mem_map_append, including_tl, Point.min_y]
    exact hb.top.union hi.top
  · rw [setOf_mem_map_append, including_br, Point.max_x]
    exact hb.right.union hi.right
  · rw [setOf_mem_map_append, including_br, Point.max_y]
    exact hb.bottom.union hi.bottom

section Runs

variable (b : Box Rat) (items : List Patch)

theorem includingAll_xAnchor : (b.includingAll items).xAnchor = b.xAnchor := by
  induction items generalizing b with
  | nil => rfl
  | cons i items ih => exact (ih (b.including i)).trans (including_xAnchor b i)

theorem includingAll_row : (b.includingAll items).lAnchor.y = b.lAnchor.y := by
  induction items generalizing b with
  | nil => rfl
  | cons i items ih => exact (ih (b.including i)).trans (including_row b i)

theorem includingAll_moveBy (δ : Point Rat) :
    (b.moveBy δ).includingAll (items.map (Patch.moveBy δ)) = (b.includingAll items).moveBy δ := by
  induction items generalizing b with
  | nil => rfl
  | cons i items ih =>
      rw [List.map_cons, includingAll, List.foldl_cons, including_moveBy]
      exact ih (b.including i)

/-- A box has room for what another one has grown to exactly if it has room for all that went into it. -/
theorem includingAll_inside_iff {c : Box Rat} :
    (b.includingAll items).Inside c ↔ b.Inside c ∧ ∀ i ∈ items, i.outline.Inside c := by
  induction items generalizing b with
  | nil => simp [includingAll]
  | cons i items ih =>
      rw [includingAll, List.foldl_cons, List.forall_mem_cons, ← and_assoc, ← including_inside_iff]
      exact ih (b.including i)

theorem Spans.includingAll {b : Box Rat} {items : List Patch} {ps : List (Point Rat)} (hb : b.Spans ps)
    (hitems : ∀ i ∈ items, i.outline.Ordered) :
    (b.includingAll items).Spans (ps ++ items.flatMap fun i => i.outline.corners) := by
  induction items generalizing b ps with
  | nil => rwa [List.flatMap_nil, List.append_nil]
  | cons i items ih =>
      rw [List.forall_mem_cons] at hitems
      rw [List.flatMap_cons, ← List.append_assoc]
      exact ih (hb.including hitems.1.spans) hitems.2

/-- Only what a box grows over counts, not in which order and how often. -/
theorem includingAll_congr {items' : List Patch} (h : ∀ i, i ∈ items' ↔ i ∈ items) :
    b.includingAll items' = b.includingAll items := by
  have hroom : ∀ c, (b.includingAll items').Inside c ↔ (b.includingAll items).Inside c := by
    intro c
    simp only [includingAll_inside_iff, h]
  obtain ⟨htl, hbr⟩ := ((hroom _).mpr (.refl _)).antisymm ((hroom _).mp (.refl _))
  apply eq_of_row htl hbr
  · rw [includingAll_xAnchor, includingAll_xAnchor]
  · rw [includingAll_row, includingAll_row]

end Runs

/-- A box that grows over any number of patches comes to the same in every order of them, however often each
is repeated, and to the same elsewhere if all is moved there together.  Its inset and its anchor row stay.  If
its corners and those of the patches are the right way round, then the corners that it comes to have the
least and the greatest coordinates of all these corners, and it is the least box that covers all. -/
theorem includingAll_least (b : Box Rat) (items : List Patch) :
    (∀ items', (∀ i, i ∈ items' ↔ i ∈ items) → b.includingAll items' = b.includingAll items) ∧
    (∀ δ, (b.moveBy δ).includingAll (items.map (Patch.moveBy δ)) = (b.includingAll items).moveBy δ) ∧
    (b.includingAll items).xAnchor = b.xAnchor ∧
    (b.includingAll items).lAnchor.y = b.lAnchor.y ∧
    (∀ c, (b.includingAll items).Inside c ↔ b.Inside c ∧ ∀ i ∈ items, i.outline.Inside c) ∧
    (b.Made → (∀ i ∈ items, i.outline.Ordered) →
      (b.includingAll items).Spans (b.corners ++ items.flatMap fun i => i.outline.corners)) := by
  refine ⟨fun _ => includingAll_congr b items, includingAll_moveBy b items, includingAll_xAnchor b items,
    includingAll_row b items, fun _ => includingAll_inside_iff b items, ?_⟩
  intro hmade hitems
  have hordered : b.Ordered := (made_iff_ordered b).mp hmade
  exact hordered.spans.includingAll hitems

end Box

end Railroad
