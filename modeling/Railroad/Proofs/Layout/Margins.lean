import Railroad.Proofs.Layout.Rows
/-!
The room that placements leave between the sides of a box and its parts.
-/
namespace Railroad

/-- A part of a box with some room to the left and to the right of it. -/
structure Box.Inset (b e : Box Rat) (left right : Rat) : Prop where
  left : b.tl.x + left ≤ e.tl.x
  right : e.br.x + right ≤ b.br.x

/-- The room on a side of a stack: a rail serves for it where there is one. -/
def Metrics.room (hasRail : Bool) : Rat :=
  if hasRail then 0 else 20

theorem Metrics.room_nonneg (hasRail : Bool) : 0 ≤ room hasRail := by
  cases hasRail <;> norm_num [room]

namespace Box

variable {b e : Box Rat} {left right : Rat}

theorem inset_moveBy (δ : Point Rat) : (b.moveBy δ).Inset (e.moveBy δ) left right ↔ b.Inset e left right := by
  constructor
  · rintro ⟨hleft, hright⟩
    simp at hleft hright
    exact ⟨by linarith, by linarith⟩
  · rintro ⟨hleft, hright⟩
    constructor <;> simp <;> linarith

/-- Parts keep their room if the box is taken elsewhere and told from its own corner. -/
theorem Inset.of_homed {b' : Box Rat} (h : b.Inset e left right) (hhomed : b.Homed)
    (hmoved : b.Moved b') : b'.normalize.Inset e left right := by
  have hwidth := hmoved.size.1
  rw [width_eq, width_eq, hhomed.x] at hwidth
  constructor
  · have := h.left
    simpa [normalize, homing, hhomed.x] using this
  · have := h.right
    simp [normalize, homing]
    linarith

end Box

namespace Placement

open Box

variable {box e b : Box Rat} {es : List (Box Rat)} {p : Placement Rat} {above useLeft useRight : Bool}

section Stacks

theorem left_stackFrom (index : Nat) : (stackFrom above index box es).box.tl.x = box.tl.x := by
  induction es generalizing index box with
  | nil => rfl
  | cons e es ih =>
      rw [stackFrom, ih]
      split
      · simp
      · split <;> simp

/-- What makes a stack wider than what it starts from is one of its parts. -/
theorem widest_stackFrom (above : Bool) (index : Nat) (box : Box Rat) (es : List (Box Rat)) :
    (stackFrom above index box es).box.br.x = box.br.x ∨
      ∃ b ∈ (stackFrom above index box es).parts,
        b.br.x = (stackFrom above index box es).box.br.x := by
  induction es generalizing index box with
  | nil => exact .inl rfl
  | cons e es ih =>
      rw [stackFrom]
      generalize (if index = 0 then e.moveLAnchor box.lAnchor
        else if index = 1 && !above then e.moveTo (box.blCorner.max
          (box.lAnchor.move 0 (Metrics.radius * 2 - e.lAnchor.y))) else e.moveTo box.blCorner) = e'
      rcases ih (index + 1) (box.includeBox e') with h | ⟨b, hb, h⟩
      · rw [includeBox_br, Point.max_x] at h
        rcases max_choice box.br.x e'.br.x with hmax | hmax
        · exact .inl (h.trans hmax)
        · exact .inr ⟨e', List.mem_cons_self, (h.trans hmax).symm⟩
      · exact .inr ⟨b, List.mem_cons_of_mem _ hb, h⟩

theorem inset_normalize {p : Placement Rat} {left right : Rat}
    (h : ∀ b ∈ p.parts, p.box.Inset b left right) :
    ∀ b ∈ p.normalize.parts, p.normalize.box.Inset b left right := by
  rw [normalize]
  exact List.forall_mem_map.mpr fun b hb => (inset_moveBy _).mpr (h b hb)

/-- The frame of a stack around its alternatives. -/
def stackFrame (above useLeft useRight : Bool) (box : Box Rat) : Box Rat :=
  if above then
    let box := box.includePoint ⟨-Metrics.radius - Metrics.padH, box.lAnchor.y - Metrics.radius⟩
    box.includePoint (box.brCorner.move (Metrics.radius + Metrics.padH) 0)
  else
    let box := if useLeft then box else box.includePoint ⟨-Metrics.radius * 2, 0⟩
    if useRight then box else box.includePoint (box.brCorner.move (Metrics.radius * 2) 0)

theorem stack_eq : stack above useLeft useRight es =
    normalize ⟨stackFrame above useLeft useRight (stackFrom above 0 Metrics.newBox es).box,
      (stackFrom above 0 Metrics.newBox es).parts⟩ := rfl

theorem stackFrame_sides (above useLeft useRight : Bool) (hleft : box.tl.x = 0) (hright : 0 ≤ box.br.x) :
    (stackFrame above useLeft useRight box).tl.x = -Metrics.room (useLeft && !above) ∧
      (stackFrame above useLeft useRight box).br.x =
        box.br.x + Metrics.room (useRight && !above) := by
  have hwide : max box.br.x (-20) = box.br.x := max_eq_left (by linarith)
  have hlow : min (-20) (box.br.x + 20) = -20 := min_eq_left (by linarith)
  have hpos : 0 ≤ box.br.x + 20 := by linarith
  cases above <;> cases useLeft <;> cases useRight <;>
    norm_num [stackFrame, Metrics.room, hleft, hwide, hlow, hpos]

/-- Alternatives keep clear of the sides on which there is no rail, one of them by no more than that on the
right. -/
theorem inset_stack (above useLeft useRight : Bool) (hes : ∀ e ∈ es, 0 ≤ e.width) (hne : es ≠ []) :
    (∀ b ∈ (stack above useLeft useRight es).parts, (stack above useLeft useRight es).box.Inset b
      (Metrics.room (useLeft && !above)) (Metrics.room (useRight && !above))) ∧
    ∃ b ∈ (stack above useLeft useRight es).parts,
      b.br.x + Metrics.room (useRight && !above) = (stack above useLeft useRight es).box.br.x := by
  have hleft : (stackFrom above 0 Metrics.newBox es).box.tl.x = 0 := left_stackFrom 0
  have hinside := (spread_stackFrom above 0 Metrics.newBox es).inside
  have hstart := (spread_stackFrom above 0 Metrics.newBox es).start.right
  obtain ⟨hsideLeft, hsideRight⟩ := stackFrame_sides above useLeft useRight hleft hstart
  rw [stack_eq]
  constructor
  · refine inset_normalize fun b hb => ⟨?_, ?_⟩
    · dsimp only
      rw [hsideLeft, neg_add_cancel, ← hleft]
      exact (hinside b hb).left
    · dsimp only
      rw [hsideRight]
      exact add_le_add_left (hinside b hb).right _
  · obtain ⟨b, hb, hwide⟩ : ∃ b ∈ (stackFrom above 0 Metrics.newBox es).parts,
        b.br.x = (stackFrom above 0 Metrics.newBox es).box.br.x := by
      rcases widest_stackFrom above 0 Metrics.newBox es with h | h
      · -- Not even the first part is wider than the empty box that the stack starts from.
        obtain ⟨e, he⟩ := List.exists_mem_of_ne_nil es hne
        obtain ⟨b, hb, hsize⟩ := exists_of_mem_left (spread_stackFrom above 0 Metrics.newBox es).sizes he
        have hwidth := hes e he
        rw [hsize.1, width_eq, left_of_mem_stackFrom hb] at hwidth
        have hright := (hinside b hb).right
        rw [h] at hright ⊢
        exact ⟨b, hb, le_antisymm hright (by simpa using hwidth)⟩
      · exact h
    refine ⟨_, List.mem_map_of_mem hb, ?_⟩
    simp [normalize, Box.normalize, hsideRight, hwide]
    ring

end Stacks

section Fans

theorem top_of_mem_row (hbox : box.tl.x ≤ box.br.x) (h : b ∈ (row box es).parts) : b.tl.y = box.tl.y := by
  induction es generalizing box with
  | nil => cases h
  | cons e es ih =>
      have htl : (box.includeBox (e.moveTo box.trCorner)).tl = box.tl := by
        ext <;> simp [hbox]
      rcases List.mem_cons.mp h with rfl | h
      · simp
      · rw [ih ?_ h, htl]
        rw [htl]
        exact hbox.trans (inside_includeBox_left _ _).right

/-- A box that grows downwards keeps its anchor row. -/
theorem includePoint_below {p : Point Rat} (htop : box.tl.y ≤ p.y) :
    (box.includePoint p).tl.y = box.tl.y ∧ (box.includePoint p).yAnchor = box.yAnchor := by
  have htl : (box.includePoint p).tl.y = box.tl.y := by simpa using htop
  refine ⟨htl, ?_⟩
  change box.yAnchor + (box.tl.y - (box.includePoint p).tl.y) = box.yAnchor
  rw [htl, sub_self, add_zero]

/-- A fan keeps two radii clear above and below its alternatives, and has its anchor row in the middle of the
room above them. -/
theorem margins_fan (direction : Direction) (es : List (Box Rat)) :
    (fan direction es).box.yAnchor = 10 ∧
      ∀ b ∈ (fan direction es).parts, 20 ≤ b.tl.y ∧ b.br.y + 20 ≤ (fan direction es).box.br.y := by
  have htl : (row Metrics.newBox es).box.tl = .zero := tl_row (by simp)
  have hbr := (spread_row Metrics.newBox es).start.bottom
  have hlift : max (8 : Rat) 10 = 10 := by norm_num
  simp only [Metrics.newBox_br, Point.zero_y] at hbr
  simp only [fan, Scalar.max_rat, Metrics.padV_rat, Metrics.radius_rat, hlift]
  -- The box with the room above the alternatives, and the corner below them on the side of the flow.
  obtain ⟨lifted, hlifted⟩ : ∃ lifted, ((row Metrics.newBox es).box.setYAnchor (-10)).includePoint
    ⟨0, -10 * 2⟩ = lifted := ⟨_, rfl⟩
  have hedges : lifted.tl.y = -20 ∧ lifted.yAnchor = 10 ∧ lifted.br.y = (row Metrics.newBox es).box.br.y := by
    rw [← hlifted]
    refine ⟨?_, ?_, ?_⟩
    · norm_num [htl]
    · norm_num [includePoint, includeCorners, htl]
    · simp
      linarith
  rw [hlifted]
  generalize hcorner : (if direction = .right then lifted.brCorner.move (10 * 2) (10 * 2)
    else lifted.blCorner.move (-10 * 2) (10 * 2)) = corner
  have hcorner : corner.y = lifted.br.y + 20 := by
    rw [← hcorner]
    split <;> norm_num
  obtain ⟨htop, hrow⟩ := includePoint_below (show lifted.tl.y ≤ corner.y by linarith)
  constructor
  · exact hrow.trans hedges.2.1
  · rw [normalize, List.forall_mem_map]
    intro b hb
    have hbottom := ((spread_row Metrics.newBox es).inside b hb).bottom
    have hhigh := top_of_mem_row (by simp) hb
    have hhome : (lifted.includePoint corner).homing.y = 20 := by
      rw [homing, Point.negate_y, htop, hedges.1, neg_neg]
    have hlow : corner.y ≤ (lifted.includePoint corner).br.y := by simp
    rw [Metrics.newBox_tl, Point.zero_y] at hhigh
    simp only [Box.normalize, moveBy_tl, moveBy_br, Point.translate_y, hhome, hhigh, zero_add, le_refl,
      true_and]
    linarith

end Fans

theorem right_normalize {x room : Rat} :
    x + p.box.homing.x + room ≤ p.normalize.box.br.x ↔ x + room ≤ p.box.br.x := by
  simp only [normalize, Box.normalize, moveBy_br, Point.translate_x]
  constructor <;> intro h <;> linarith

section Hung

variable {body separator name expression : Box Rat} {left right : Rat}

theorem inset_clearOf (hbox : box.tl.x + left ≤ box.br.x) :
    (box.includePoint ((clearOf box (e.moveTo box.brCorner)).brCorner.move right 0)).Inset
      (clearOf box (e.moveTo box.brCorner)) left right := by
  obtain ⟨δ, -, hclear⟩ := exists_clearOf box (e.moveTo box.brCorner)
  rw [hclear]
  constructor
  · simp
    exact le_trans (add_le_add_left (min_le_left _ _) _) hbox
  · simp

/-- The body of a repetition that hangs below the line past it keeps clear of both sides. -/
theorem inset_repetition (body : Box Rat) : ∀ b ∈ (repetition false body).parts,
    (repetition false body).box.Inset b 20 20 := by
  refine inset_normalize (List.forall_mem_singleton.mpr ?_)
  norm_num
  refine inset_clearOf ?_
  norm_num

/-- The body of an option that hangs below the line past it hangs at the corner of a frame, which leaves room
on the left unless there is a rail. -/
theorem exists_optional (useLeft useRight : Bool) (body : Box Rat) : ∃ frame : Box Rat,
    frame.tl.x + Metrics.room useLeft ≤ frame.br.x ∧ optional false useLeft useRight body =
      normalize ⟨frame.includePoint ((clearOf frame (body.moveTo frame.brCorner)).brCorner.move
        (Metrics.room useRight) 0), [clearOf frame (body.moveTo frame.brCorner)]⟩ := by
  have hmove : ∀ p : Point Rat, p.move 0 0 = p := fun p => by ext <;> simp
  have hroom : Metrics.room false = Metrics.radius * 2 := by norm_num [Metrics.room]
  have hrail : Metrics.room true = 0 := rfl
  refine ⟨(Metrics.newBox.includePoint ⟨Metrics.room useLeft, Metrics.padV * 2 +
    Metrics.arrowSize⟩).setYAnchor (Metrics.padV + Metrics.arrowSize / 2), ?_, ?_⟩
  · simp [Metrics.room_nonneg]
  · cases useLeft <;> cases useRight <;>
      simp only [optional, hroom, hrail, hmove, if_true, if_false, Bool.false_eq_true]

/-- The body of an option that hangs below the line past it keeps clear of the sides on which there is no
rail. -/
theorem inset_optional (body : Box Rat) : ∀ b ∈ (optional false useLeft useRight body).parts,
    (optional false useLeft useRight body).box.Inset b (Metrics.room useLeft) (Metrics.room useRight) := by
  obtain ⟨frame, hframe, hoptional⟩ := exists_optional useLeft useRight body
  rw [hoptional]
  exact inset_normalize (List.forall_mem_singleton.mpr (inset_clearOf hframe))

/-- The body of a loop keeps clear of both sides, and of the way back over it. -/
theorem margins_loop (body : Box Rat) : ∀ b ∈ (loop body).parts,
    (loop body).box.Inset b 20 20 ∧ 20 ≤ b.tl.y ∧ 35 ≤ b.lAnchor.y := by
  have hinset : ∀ b ∈ (loop body).parts, (loop body).box.Inset b 20 20 := by
    refine inset_normalize (List.forall_mem_singleton.mpr ⟨?_, ?_⟩)
    · simp
      norm_num
    · simp
      norm_num
  refine fun b hb => ⟨hinset b hb, ?_⟩
  obtain rfl := List.mem_singleton.mp hb
  -- The box reaches up to the higher one of two points, one over the row of the body, one over its corner.
  obtain ⟨e, he⟩ : ∃ e, body.moveLAnchor ⟨Metrics.radius + Metrics.padH, Metrics.newBox.lAnchor.y⟩ = e :=
    ⟨_, rfl⟩
  simp only [he]
  generalize hhigh : (e.rAnchor.move 0 (-(Metrics.radius * 2 + Metrics.arrowSize / 2 +
    Metrics.padH))).min (e.trCorner.move 0 (-(Metrics.arrowSize + Metrics.padH))) = high
  have hrow : high.y ≤ e.lAnchor.y - 35 := by
    rw [← hhigh, Point.min_y]
    refine (min_le_left _ _).trans_eq ?_
    norm_num
    ring
  have htop : high.y ≤ e.tl.y - 20 := by
    rw [← hhigh, Point.min_y]
    refine (min_le_right _ _).trans_eq ?_
    norm_num
    ring
  have hlow : ((Metrics.newBox.includeBox e).includePoint (high.move (Metrics.radius + Metrics.padH) 0)).tl.y
      ≤ high.y := by
    simp
  rw [row_moveBy, moveBy_tl, Point.translate_y, homing, Point.negate_y]
  constructor <;> linarith

theorem inset_separatedLoop (body separator : Box Rat) : ∀ b ∈ (separatedLoop body separator).parts,
    (separatedLoop body separator).box.Inset b 20 20 := by
  refine inset_normalize ?_
  simp only [List.forall_mem_cons]
  refine ⟨⟨?_, ?_⟩, ⟨?_, ?_⟩, by simp⟩ <;> simp <;> norm_num

/-- The expression of a rule stands on the row of its name, with room for the end of the line behind it. -/
theorem margins_production (hname : name.Homed) (hexpression : 0 ≤ expression.width) :
    ∃ b e, (production name expression).parts = [b, e] ∧ b.lAnchor.y = e.lAnchor.y ∧ 0 ≤ b.lAnchor.x ∧
      b.lAnchor.x + 10 ≤ (production name expression).box.br.x ∧
      e.br.x + 34 ≤ (production name expression).box.br.x := by
  refine ⟨_, _, rfl, ?_, ?_, ?_, ?_⟩
  · rw [row_moveBy, row_moveBy, row_moveLAnchor]
    rfl
  · simp [homing, hname.x]
  · rw [production, lAnchor_x, moveBy_tl, Point.translate_x, right_normalize, includePoint_br, Point.max_x]
    refine le_trans ?_ (le_max_right _ _)
    have := hname.width
    simp [hname.x]
    linarith
  · rw [production, moveBy_br, Point.translate_x, right_normalize, includePoint_br, Point.max_x]
    refine le_trans ?_ (le_max_right _ _)
    simp
    norm_num

end Hung

end Placement

end Railroad
