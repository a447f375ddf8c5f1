import Railroad.Proofs.Drawing.Extents
import Railroad.Proofs.Drawing.Rails
import Railroad.Proofs.Layout.Margins
/-!
What each kind of node draws itself stays inside its box, if the parts have the room around them that the
size pass leaves, and inside all that the rails which it is offered run in.
-/
namespace Railroad

open Metrics

namespace Box

variable {b e : Box Rat} {p : Point Rat}

theorem holds_normalize : b.normalize.Holds p ↔ (0 ≤ p.x ∧ p.x ≤ b.width) ∧ 0 ≤ p.y ∧ p.y ≤ b.height := by
  rw [width_eq, height_eq]
  constructor
  · rintro ⟨hleft, hright, htop, hbottom⟩
    simp [normalize, homing, ← sub_eq_add_neg] at hleft hright htop hbottom
    exact ⟨⟨hleft, hright⟩, htop, hbottom⟩
  · rintro ⟨⟨hleft, hright⟩, htop, hbottom⟩
    constructor <;> simpa [normalize, homing, ← sub_eq_add_neg]

/-- A point in the frame of a box is held by all that the frame lies in. -/
theorem holds_of_frame {z : Box Rat} (hz : b.normalize.Inside z) {x y : Rat} (hx : 0 ≤ x ∧ x ≤ b.width)
    (hy : 0 ≤ y ∧ y ≤ b.height) : z.Holds ⟨x, y⟩ :=
  Holds.of_inside (holds_normalize.mpr ⟨hx, hy⟩) hz

variable (b)

theorem normalize_tl : b.normalize.tl = ⟨0, 0⟩ := by
  ext <;> simp [normalize, homing]

theorem normalize_br : b.normalize.br = ⟨b.width, b.height⟩ := by
  ext <;> simp [normalize, homing, width_eq, height_eq, ← sub_eq_add_neg]

/-- A box that stands at home has the corners of the frame of every box of its size. -/
theorem Homed.corners {e b : Box Rat} (h : e.Homed) (hsize : e.SameSize b) :
    b.normalize.tl = e.tl ∧ b.normalize.br = e.br := by
  obtain ⟨hwidth, hheight⟩ := hsize
  rw [width_eq, h.x, sub_zero] at hwidth
  rw [height_eq, h.y, sub_zero] at hheight
  rw [normalize_tl, normalize_br, ← hwidth, ← hheight]
  exact ⟨by ext <;> simp [h.x, h.y], rfl⟩

theorem normalize_row : b.normalize.lAnchor.y = b.yAnchor := by
  simp [normalize, homing]

theorem moveBy_normalize : b.normalize.moveBy b.tl = b := by
  ext <;> simp [normalize, homing]

theorem lAnchor_home : b.lAnchor.translate b.tlCorner.negate = ⟨0, b.yAnchor⟩ := by
  ext <;> simp

theorem rAnchor_home : b.rAnchor.translate b.tlCorner.negate = ⟨b.width, b.yAnchor⟩ := by
  ext <;> simp [width_eq, sub_eq_add_neg]

theorem tlAnchor_home : b.tlAnchor.translate b.tlCorner.negate = ⟨b.xAnchor, 0⟩ := by
  ext <;> simp [tlAnchor]

theorem trAnchor_home : b.trAnchor.translate b.tlCorner.negate = ⟨b.width - b.xAnchor, 0⟩ := by
  ext
  · simp [trAnchor, width_eq]
    ring
  · simp

theorem blCorner_home : (b.blCorner.move (10 * 2) (-10)).translate b.tlCorner.negate =
    ⟨20, b.height - 10⟩ := by
  ext
  · simp
    norm_num
  · simp [height_eq]
    ring

theorem brCorner_home : (b.brCorner.move (-10 * 2) (-10)).translate b.tlCorner.negate =
    ⟨b.width - 20, b.height - 10⟩ := by
  ext
  · simp [width_eq]
    ring
  · simp [height_eq]
    ring

end Box

/-- A part inside a zone that is wide enough for an arrowhead at its middle, and has room for an arc above and
below its anchor row. -/
structure Box.Lodges (z b : Box Rat) : Prop where
  inside : b.Inside z
  deep : b.Deep
  width : 30 ≤ b.width

namespace Box.Lodges

variable {b z z' : Box Rat}

theorem mono (h : z.Lodges b) (hz : z.Inside z') : z'.Lodges b :=
  ⟨h.inside.trans hz, h.deep, h.width⟩

theorem moveBy (h : z.Lodges b) (δ : Point Rat) : (z.moveBy δ).Lodges (b.moveBy δ) :=
  ⟨(inside_moveBy_iff δ).mpr h.inside, deep_moveBy.mpr h.deep, (sameSize_moveBy b δ).1 ▸ h.width⟩

theorem lAnchor (h : z.Lodges b) : z.Holds b.lAnchor := by
  obtain ⟨⟨hleft, htop, hright, hbottom⟩, ⟨habove, hbelow⟩, hwidth⟩ := h
  rw [width_eq] at hwidth
  have hroom : b.lAnchor.x + 30 ≤ b.br.x := by
    rw [lAnchor_x]
    linarith
  exact ⟨hleft, by linarith, by linarith, by linarith⟩

theorem rAnchor (h : z.Lodges b) : z.Holds b.rAnchor := by
  obtain ⟨hleft, hright, htop, hbottom⟩ := h.lAnchor
  have hwidth := h.width
  rw [lAnchor_x] at hleft
  rw [width_eq] at hwidth
  exact ⟨by rw [rAnchor_x]; linarith, h.inside.right, htop, hbottom⟩

/-- The room for an arc above the anchor row. -/
theorem above (h : z.Lodges b) : z.tl.y + 10 ≤ b.lAnchor.y :=
  (add_le_add_left h.inside.top 10).trans h.deep.above

theorem below (h : z.Lodges b) : b.lAnchor.y + 10 ≤ z.br.y :=
  h.deep.below.trans h.inside.bottom

end Box.Lodges

/-- An alternative in a fan, with room for the arcs above and below it. -/
structure Box.Fanned (box b : Box Rat) : Prop where
  left : 10 ≤ b.tCenter.x
  right : b.tCenter.x + 10 ≤ box.width
  top : 20 ≤ b.tCenter.y
  height : b.tCenter.y ≤ b.br.y
  bottom : b.br.y + 20 ≤ box.height

/-- The rails that are offered run inside a zone, a radius or more from its sides, and have been drawn from
inside it. -/
def Surroundings.RunsIn (s : Surroundings Rat) (z : Box Rat) : Prop :=
  ∀ side x, s.rail? side = some x → (z.tl.x + 10 ≤ x ∧ x + 10 ≤ z.br.x) ∧ z.tl.y ≤ s.bottom

namespace Strokes

variable {box body first last : Box Rat} {alternatives : List (Box Rat)} {direction : Direction}
  {above : Bool}

section Fans

variable (hx : box.xAnchor = 10) (hy : box.yAnchor = 10) (hwidth : 20 ≤ box.width)
  (hin : ∀ b ∈ alternatives, box.Fanned b)
include hx hy hwidth hin

theorem covers_fanRightwards (hfirst : first ∈ alternatives) (hlast : last ∈ alternatives) :
    ∀ c ∈ fanRightwards above box first last alternatives, box.normalize.Covers c := by
  have htl := box.normalize_tl
  have hbr := box.normalize_br
  have hcenter : ∀ b : Box Rat, b.bCenter = ⟨b.tCenter.x, b.br.y⟩ := fun _ => rfl
  simp only [fanRightwards, Box.lAnchor_home, Box.rAnchor_home, Box.tlAnchor_home, Box.trAnchor_home,
    Box.blCorner_home, Box.brCorner_home, hx, hy, radius_rat, List.forall_mem_append, hcenter]
  obtain ⟨hleft, hright, htop, hheight, hbottom⟩ := hin first hfirst
  obtain ⟨hleft', hright', htop', hheight', hbottom'⟩ := hin last hlast
  constructor
  · cases above with
    | true =>
        simp only [if_true, List.forall_mem_cons]
        refine ⟨covers_down_down ?_ ?_ ?_ ?_ ?_, covers_down_up ?_ ?_ ?_ ?_ ?_ ?_, by simp⟩
        all_goals simp only [Box.holds_normalize, htl, hbr]
        all_goals and_intros
        all_goals linarith
    | false =>
        simp only [if_false, List.forall_mem_cons, Bool.false_eq_true]
        refine ⟨covers_right_down ?_ ?_ ?_ ?_, covers_down_right ?_ ?_ ?_ ?_,
          covers_right_right ?_ ?_ ?_ (.inr ?_), by simp⟩
        all_goals simp only [Box.holds_normalize, htl, hbr]
        all_goals and_intros
        all_goals linarith
  · refine forall_mem_mapIdx fun i b hb => ?_
    obtain ⟨hleft, hright, htop, hheight, hbottom⟩ := hin b hb
    have hout : box.normalize.Covers (connect .down ⟨b.tCenter.x, b.br.y⟩
        ⟨b.tCenter.x + 10, box.height - 10⟩ .right) := by
      refine covers_down_right ?_ ?_ ?_ ?_ <;> simp only [Box.holds_normalize, htl, hbr] <;>
        and_intros <;> linarith
    have hback : box.normalize.Covers (connect .right ⟨b.tCenter.x - 10, 10⟩ b.tCenter .down) := by
      refine covers_right_down ?_ ?_ ?_ ?_ <;> simp only [Box.holds_normalize, htl, hbr] <;>
        and_intros <;> linarith
    split <;> split <;> simp [hout, hback]

theorem covers_fanLeftwards (hfirst : first ∈ alternatives) (hlast : last ∈ alternatives) :
    ∀ c ∈ fanLeftwards above box first last alternatives, box.normalize.Covers c := by
  have htl := box.normalize_tl
  have hbr := box.normalize_br
  have hcenter : ∀ b : Box Rat, b.bCenter = ⟨b.tCenter.x, b.br.y⟩ := fun _ => rfl
  simp only [fanLeftwards, Box.lAnchor_home, Box.rAnchor_home, Box.tlAnchor_home, Box.trAnchor_home,
    Box.blCorner_home, hx, hy, radius_rat, List.forall_mem_append, hcenter]
  obtain ⟨hleft, hright, htop, hheight, hbottom⟩ := hin first hfirst
  obtain ⟨hleft', hright', htop', hheight', hbottom'⟩ := hin last hlast
  constructor
  · cases above with
    | true =>
        simp only [if_true, List.forall_mem_cons]
        refine ⟨covers_down_down ?_ ?_ ?_ ?_ ?_, covers_down_up ?_ ?_ ?_ ?_ ?_ ?_, by simp⟩
        all_goals simp only [Box.holds_normalize, htl, hbr]
        all_goals and_intros
        all_goals linarith
    | false =>
        simp only [if_false, List.forall_mem_cons, Bool.false_eq_true]
        refine ⟨covers_left_down ?_ ?_ ?_ ?_, covers_down_left ?_ ?_ ?_ ?_,
          covers_left_left ?_ ?_ ?_ (.inr ?_), by simp⟩
        all_goals simp only [Box.holds_normalize, htl, hbr]
        all_goals and_intros
        all_goals linarith
  · refine forall_mem_mapIdx fun i b hb => ?_
    obtain ⟨hleft, hright, htop, hheight, hbottom⟩ := hin b hb
    have hback : box.normalize.Covers (connect .up b.tCenter ⟨b.tCenter.x + 10, 10⟩ .right) := by
      refine covers_up_right ?_ ?_ ?_ ?_ <;> simp only [Box.holds_normalize, hbr] <;> and_intros <;>
        linarith
    have hout : box.normalize.Covers (connect .down ⟨b.tCenter.x, b.br.y⟩
        ⟨b.tCenter.x - 10, box.height - 10⟩ .left) := by
      refine covers_down_left ?_ ?_ ?_ ?_ <;> simp only [Box.holds_normalize, htl] <;> and_intros <;>
        linarith
    split <;> split <;> simp [hout, hback]

theorem covers_fan (hfirst : first ∈ alternatives) (hlast : last ∈ alternatives) :
    ∀ c ∈ fan direction above box first last alternatives, box.normalize.Covers c := by
  rw [fan]
  split
  · exact covers_fanRightwards hx hy hwidth hin hfirst hlast
  · exact covers_fanLeftwards hx hy hwidth hin hfirst hlast

end Fans

section Ways

variable {s : Surroundings Rat} {z b : Box Rat} {x y : Rat} {p : Point Rat}

/-- The way down a line on the left and in to a part. -/
theorem covers_branch_in (h : z.Lodges b) (hleft : z.tl.x ≤ x) (hright : x + 10 ≤ z.br.x)
    (htop : z.tl.y ≤ y) (hbottom : y ≤ z.br.y) :
    z.Covers (connect .down ⟨x, y⟩ b.lAnchor .right) :=
  covers_down_right ⟨hleft, by linarith, htop, hbottom⟩ h.lAnchor hright h.above

/-- The way out of a part and up a line on the right. -/
theorem covers_branch_out (h : z.Lodges b) (hleft : z.tl.x + 10 ≤ x) (hright : x ≤ z.br.x)
    (htop : z.tl.y ≤ y) (hbottom : y ≤ z.br.y) :
    z.Covers (connect .right b.rAnchor ⟨x, y⟩ .up) :=
  covers_right_up h.rAnchor ⟨by linarith, hright, htop, hbottom⟩ hleft h.above

/-- Where branches on the left leave: a rail that is offered, or else a radius from the side. -/
theorem column_left (hrails : s.RunsIn z) (hown : s.useLeft = false → z.tl.x ≤ x ∧ x + 10 ≤ z.br.x) :
    z.tl.x ≤ (if s.useLeft then s.left else x) ∧ (if s.useLeft then s.left else x) + 10 ≤ z.br.x := by
  split
  · rename_i huse
    obtain ⟨⟨hleft, hright⟩, -⟩ := hrails .left s.left (if_pos huse)
    exact ⟨by linarith, hright⟩
  · rename_i huse
    exact hown (Bool.eq_false_iff.mpr huse)

theorem column_right (hrails : s.RunsIn z) (hown : s.useRight = false → z.tl.x + 10 ≤ x ∧ x ≤ z.br.x) :
    z.tl.x + 10 ≤ (if s.useRight then s.right else x) ∧ (if s.useRight then s.right else x) ≤ z.br.x := by
  split
  · rename_i huse
    obtain ⟨⟨hleft, hright⟩, -⟩ := hrails .right s.right (if_pos huse)
    exact ⟨hleft, by linarith⟩
  · rename_i huse
    exact hown (Bool.eq_false_iff.mpr huse)

/-- The way in to a part that hangs: off the line that leads in, or off a rail. -/
theorem covers_way_in (h : z.Lodges b) (hrails : s.RunsIn z) (hp : z.Holds p)
    (hrow : p.y + 20 ≤ b.lAnchor.y) (hroom : p.x + room s.useLeft ≤ b.tl.x)
    (htop : s.useLeft = true → z.tl.y ≤ y) (hbottom : y + 10 ≤ b.lAnchor.y) :
    z.Covers (if s.useLeft then connect .down ⟨s.left, y⟩ b.lAnchor .right
      else connect .right p b.lAnchor .right) := by
  split
  · rename_i huse
    obtain ⟨⟨hleft, hright⟩, -⟩ := hrails .left s.left (if_pos huse)
    exact covers_branch_in h (by linarith) hright (htop huse) (by linarith [h.below])
  · rename_i huse
    rw [Bool.eq_false_iff.mpr huse] at hroom
    exact covers_right_right hp h.lAnchor hroom (.inl hrow)

/-- The way out of a part that hangs: up to the line that leads out, or up to a rail. -/
theorem covers_way_out (h : z.Lodges b) (hrails : s.RunsIn z) (hp : z.Holds p)
    (hrow : p.y + 20 ≤ b.rAnchor.y) (hroom : b.br.x + room s.useRight ≤ p.x)
    (htop : s.useRight = true → z.tl.y ≤ y) (hbottom : y + 10 ≤ b.rAnchor.y) :
    z.Covers (if s.useRight then connect .right b.rAnchor ⟨s.right, y⟩ .up
      else connect .right b.rAnchor p .right) := by
  split
  · rename_i huse
    obtain ⟨⟨hleft, hright⟩, -⟩ := hrails .right s.right (if_pos huse)
    have hbelow : b.rAnchor.y + 10 ≤ z.br.y := h.below
    exact covers_branch_out h hleft (by linarith) (htop huse) (by linarith)
  · rename_i huse
    rw [Bool.eq_false_iff.mpr huse] at hroom
    exact covers_right_right h.rAnchor hp hroom (.inr hrow)

end Ways

section Stacks

variable {s : Surroundings Rat} {z b : Box Rat}

/-- What a stack draws that is entered from the side, in its own frame. -/
theorem stack_beside : stack s false box first last alternatives =
    (if s.useLeft then connect .down ⟨s.left, last.lAnchor.y - 10⟩ last.lAnchor .right
      else connect .right ⟨0, box.yAnchor⟩ last.lAnchor .right) ::
    (if s.useRight then
      connect .right last.rAnchor ⟨s.right, min s.bottom (last.rAnchor.y - 10)⟩ .up
      else connect .right last.rAnchor ⟨box.width, box.yAnchor⟩ .right) ::
    (if s.useLeft then connect .down ⟨s.left, box.yAnchor⟩ first.lAnchor .right
      else hline ⟨0, box.yAnchor⟩ first.lAnchor) ::
    (if s.useRight then hline first.rAnchor ⟨box.width, first.rAnchor.y - 10⟩
      else hline first.rAnchor ⟨box.width, box.yAnchor⟩) ::
    (alternatives.drop 1).dropLast.flatMap fun b =>
      [connect .down ⟨if s.useLeft then s.left else 10, b.lAnchor.y - 10⟩ b.lAnchor .right,
        connect .right b.rAnchor ⟨if s.useRight then s.right else box.width - 10, b.rAnchor.y - 10⟩ .up] := by
  have hwidth : box.rAnchor.x - box.tl.x = box.width := rfl
  simp only [stack, Box.lAnchor_home, Box.rAnchor_home, hwidth, radius_rat, Scalar.min_rat]
  cases s.useLeft <;> cases s.useRight <;> simp [Point.withX, sub_eq_add_neg]

/-- What a stack draws that is entered from above, in its own frame. -/
theorem stack_above (hx : box.xAnchor = 10) : stack s true box first last alternatives =
    connect .down ⟨10, 0⟩ last.lAnchor .right :: connect .right last.rAnchor ⟨box.width - 10, 0⟩ .up ::
    alternatives.dropLast.flatMap fun b =>
      [connect .down ⟨10, b.lAnchor.y - 10⟩ b.lAnchor .right,
        connect .right b.rAnchor ⟨box.width - 10, b.rAnchor.y - 10⟩ .up] := by
  simp [stack, - Box.tlCorner_eq, Box.tlAnchor_home, Box.trAnchor_home, hx]

theorem covers_branches {bs : List (Box Rat)} {x x' : Rat} (h : ∀ b ∈ bs, z.Lodges b)
    (hleft : z.tl.x ≤ x) (hright : x + 10 ≤ z.br.x) (hleft' : z.tl.x + 10 ≤ x') (hright' : x' ≤ z.br.x) :
    ∀ c ∈ bs.flatMap fun b => [connect .down ⟨x, b.lAnchor.y - 10⟩ b.lAnchor .right,
      connect .right b.rAnchor ⟨x', b.rAnchor.y - 10⟩ .up], z.Covers c := by
  intro c hc
  obtain ⟨b, hb, hc⟩ := List.mem_flatMap.mp hc
  have habove : z.tl.y + 10 ≤ b.rAnchor.y := (h b hb).above
  have hbelow : b.rAnchor.y + 10 ≤ z.br.y := (h b hb).below
  rcases List.mem_cons.mp hc with rfl | hc
  · exact covers_branch_in (h b hb) hleft hright (by linarith [(h b hb).above]) (by linarith [(h b hb).below])
  · obtain rfl := List.mem_singleton.mp hc
    exact covers_branch_out (h b hb) hleft' hright' (by linarith) (by linarith)

section Frames

variable (hbox : box.Deep) (hz : box.normalize.Inside z) (hrails : s.RunsIn z)
  (hparts : ∀ b ∈ alternatives, box.normalize.Lodges b ∧
    box.normalize.Inset b (room (s.useLeft && !above)) (room (s.useRight && !above)))
  (hlast : last ∈ alternatives.tail)
include hbox hz hrails hparts hlast

theorem covers_stack_beside (hfirst : first ∈ alternatives.head?) (habove : above = false)
    (h : Placement.Stacked box.normalize alternatives false s.useLeft s.useRight) :
    ∀ c ∈ stack s false box first last alternatives, z.Covers c := by
  subst habove
  simp only [Bool.not_false, Bool.and_true] at hparts
  obtain ⟨habove, hbelow⟩ := Box.deep_iff.mp hbox
  obtain ⟨hlodges, hroom, hroom'⟩ := hparts last (List.mem_of_mem_tail hlast)
  have hwidth := hlodges.width
  have hrow := (h.hangs rfl last hlast).row
  have hhead := h.head rfl first hfirst
  rw [Box.width_eq] at hwidth
  rw [Box.normalize_tl] at hroom
  rw [Box.normalize_br] at hroom'
  rw [Box.normalize_row] at hrow hhead
  have hnonneg := room_nonneg s.useLeft
  have hnonneg' := room_nonneg s.useRight
  dsimp only at hroom hroom'
  have hrows : 0 ≤ box.yAnchor ∧ box.yAnchor ≤ box.height := ⟨by linarith, by linarith⟩
  have hstart : z.Holds ⟨0, box.yAnchor⟩ := Box.holds_of_frame hz ⟨le_rfl, by linarith⟩ hrows
  have hstop : z.Holds ⟨box.width, box.yAnchor⟩ := Box.holds_of_frame hz ⟨by linarith, le_rfl⟩ hrows
  have hlodges := hlodges.mono hz
  have hlodges' := (hparts first (List.mem_of_mem_head? hfirst)).1.mono hz
  have hup : z.tl.y + 10 ≤ last.rAnchor.y := hlodges.above
  -- Where there is no rail, the placement has kept room on that side for a column of its own.
  have hin := column_left (x := 10) hrails fun huse => by
    have hroom : 0 + 20 ≤ last.tl.x := by rwa [huse] at hroom
    exact ⟨by linarith [hstart.left], by linarith [hstop.right]⟩
  have hout := column_right (x := box.width - 10) hrails fun huse => by
    have hroom' : last.br.x + 20 ≤ box.width := by rwa [huse] at hroom'
    exact ⟨by linarith [hstart.left], by linarith [hstop.right]⟩
  rw [stack_beside, List.forall_mem_cons, List.forall_mem_cons, List.forall_mem_cons, List.forall_mem_cons]
  refine ⟨covers_way_in hlodges hrails hstart hrow hroom (fun _ => ?_) ?_,
    covers_way_out hlodges hrails hstop hrow hroom' (fun huse => ?_) ?_, ?_, ?_,
    covers_branches (fun b hb => ?_) hin.1 hin.2 hout.1 hout.2⟩
  · linarith [hlodges.above]
  · linarith
  · exact le_min (hrails .right _ (if_pos huse)).2 (by linarith)
  · linarith [min_le_right s.bottom (last.rAnchor.y - 10)]
  · split
    · rename_i huse
      obtain ⟨⟨hleft, hright⟩, -⟩ := hrails .left _ (if_pos huse)
      exact covers_branch_in hlodges' (by linarith) hright hstart.top hstart.bottom
    · exact covers_hline hstart hlodges'.lAnchor.left hlodges'.lAnchor.right
  · split <;> exact covers_hline hlodges'.rAnchor hstop.left hstop.right
  · exact (hparts b (List.mem_of_mem_tail (List.dropLast_subset _ (by simpa using hb)))).1.mono hz

omit hrails in
theorem covers_stack_above (hx : box.xAnchor = 10) (habove : above = true) :
    ∀ c ∈ stack s true box first last alternatives, z.Covers c := by
  subst habove
  simp only [Bool.not_true, Bool.and_false] at hparts
  obtain ⟨habove, hbelow⟩ := Box.deep_iff.mp hbox
  obtain ⟨hlodges, hroom, hroom'⟩ := hparts last (List.mem_of_mem_tail hlast)
  have hwidth := hlodges.width
  rw [Box.width_eq] at hwidth
  rw [Box.normalize_tl] at hroom
  rw [Box.normalize_br] at hroom'
  have hroom : 0 + 20 ≤ last.tl.x := hroom
  have hroom' : last.br.x + 20 ≤ box.width := hroom'
  have hheight : (0 : Rat) ≤ 0 ∧ 0 ≤ box.height := ⟨le_rfl, by linarith⟩
  have hstart : z.Holds ⟨10, 0⟩ := Box.holds_of_frame hz ⟨by norm_num, by linarith⟩ hheight
  have hstop : z.Holds ⟨box.width - 10, 0⟩ := Box.holds_of_frame hz ⟨by linarith, by linarith⟩ hheight
  have hleft := hz.left
  have hright := hz.right
  rw [Box.normalize_tl] at hleft
  rw [Box.normalize_br] at hright
  dsimp only at hleft hright
  have hlodges := hlodges.mono hz
  rw [stack_above hx, List.forall_mem_cons, List.forall_mem_cons]
  refine ⟨covers_branch_in hlodges hstart.left ?_ hstart.top hstart.bottom,
    covers_branch_out hlodges ?_ hstop.right hstop.top hstop.bottom,
    covers_branches (fun b hb => ?_) hstart.left ?_ ?_ hstop.right⟩
  · linarith
  · linarith
  · exact (hparts b (List.dropLast_subset _ hb)).1.mono hz
  · linarith
  · linarith

end Frames

end Stacks

section Passing

variable {s : Surroundings Rat} {z : Box Rat}

/-- The arrowhead on the line past a part. -/
theorem covers_forwardArrow (h : z.Lodges box) : z.Covers (forwardArrow direction box) := by
  obtain ⟨hleft, htop, hright, hbottom⟩ := h.inside
  have hwidth := h.width
  have habove : z.tl.y + 10 ≤ box.cAnchor.y := h.above
  have hbelow : box.cAnchor.y + 10 ≤ z.br.y := h.below
  have hmiddle : box.cAnchor.x = (box.tl.x + box.br.x) / 2 := rfl
  rw [Box.width_eq] at hwidth
  have htip : z.Holds (box.cAnchor.move (arrowSize / 2) 0) := by
    constructor <;> simp only [Point.move_x, Point.move_y, arrowSize_rat, hmiddle] <;> linarith
  rw [forwardArrow]
  split
  · refine covers_arrowRight htip ?_ ?_ ?_ ?_ <;>
      simp only [Point.move_x, Point.move_y, arrowSize_rat, hmiddle] <;> linarith
  · refine covers_arrowLeft htip ?_ ?_ ?_ ?_ <;>
      simp only [Point.move_x, Point.move_y, arrowSize_rat, hmiddle] <;> linarith

/-- A part in a zone keeps the corners at which it is entered from above away from the sides. -/
theorem corners_of_lodges {b : Box Rat} (h : z.Lodges b) (hx : b.xAnchor = 10) :
    (z.Holds b.tlAnchor ∧ z.tl.x + 10 ≤ b.tlAnchor.x ∧ b.tlAnchor.x + 20 ≤ z.br.x) ∧
      z.Holds b.trAnchor ∧ z.tl.x + 20 ≤ b.trAnchor.x ∧ b.trAnchor.x + 10 ≤ z.br.x := by
  obtain ⟨hleft, htop, hright, hbottom⟩ := h.inside
  obtain ⟨habove, hbelow⟩ := h.deep
  have hwidth := h.width
  rw [Box.width_eq] at hwidth
  have hl : b.tlAnchor = ⟨b.tl.x + 10, b.tl.y⟩ := by rw [Box.tlAnchor, hx]
  have hr : b.trAnchor = ⟨b.br.x - 10, b.tl.y⟩ := by rw [Box.trAnchor, hx]
  rw [hl, hr]
  refine ⟨⟨⟨?_, ?_, ?_, ?_⟩, ?_, ?_⟩, ⟨?_, ?_, ?_, ?_⟩, ?_, ?_⟩ <;> dsimp only <;> linarith

theorem anchors_moveBy {b : Box Rat} (δ : Point Rat) :
    b.lAnchor.translate δ = (b.moveBy δ).lAnchor ∧ b.rAnchor.translate δ = (b.moveBy δ).rAnchor ∧
      b.tlAnchor.translate δ = (b.moveBy δ).tlAnchor ∧ b.trAnchor.translate δ = (b.moveBy δ).trAnchor := by
  and_intros
  · ext <;> simp [add_right_comm]
  · ext <;> simp [add_right_comm]
  · ext <;> simp [Box.tlAnchor, add_right_comm]
  · ext <;> simp [Box.trAnchor]
    ring

/-- What an option draws, with its body told from where the option is. -/
theorem optional_eq (e : Box Rat) (he : e = body.moveBy box.tl) : optional s above box body =
    hline box.lAnchor box.rAnchor :: forwardArrow s.direction box ::
      if above then
        [connect .right box.lAnchor e.tlAnchor .down, connect .up e.trAnchor box.rAnchor .right]
      else
        [if s.useLeft then connect .down ⟨s.left, min s.bottom (e.lAnchor.y - 10)⟩ e.lAnchor .right
          else connect .right box.lAnchor e.lAnchor .right,
         if s.useRight then connect .right e.rAnchor ⟨s.right, min s.bottom (e.rAnchor.y - 10)⟩ .up
          else connect .right e.rAnchor box.rAnchor .right] := by
  obtain ⟨hl, hr, htl, htr⟩ := anchors_moveBy (b := body) box.tl
  subst he
  simp only [optional, Box.tlCorner_eq, hl, hr, htl, htr, radius_rat, Scalar.min_rat, min_comm _ s.bottom]
  cases above <;> rfl

theorem covers_optional (hbox : z.Lodges box) (hbody : box.normalize.Lodges body)
    (hx : body.xAnchor = 10) (hrails : s.RunsIn z)
    (hangs : above = false → box.normalize.Hangs body s.useLeft s.useRight)
    (hinset : above = false → box.normalize.Inset body (room s.useLeft) (room s.useRight)) :
    ∀ c ∈ optional s above box body, z.Covers c := by
  have hbox' : box.normalize.moveBy box.tl = box := box.moveBy_normalize
  have hlodges : z.Lodges (body.moveBy box.tl) := (hbox' ▸ hbody.moveBy box.tl).mono hbox.inside
  have hline : z.Covers (Strokes.hline box.lAnchor box.rAnchor) :=
    covers_hline hbox.lAnchor hbox.rAnchor.left hbox.rAnchor.right
  rw [optional_eq _ rfl, List.forall_mem_cons, List.forall_mem_cons]
  refine ⟨hline, covers_forwardArrow hbox, ?_⟩
  cases above with
  | true =>
      obtain ⟨⟨hin, hleft, -⟩, hout, -, hright⟩ := corners_of_lodges hlodges hx
      simp only [if_true, List.forall_mem_cons]
      exact ⟨covers_right_down hbox.lAnchor hin hleft hbox.below,
        covers_up_right hout hbox.rAnchor hright hbox.below, by simp⟩
  | false =>
      have hangs := hbox' ▸ (hangs rfl).moveBy box.tl
      have hinset := hbox' ▸ (Box.inset_moveBy box.tl).mpr (hinset rfl)
      have hup : z.tl.y + 10 ≤ (body.moveBy box.tl).rAnchor.y := hlodges.above
      have hbottom (side : Side) (x : Rat) (h : s.rail? side = some x) :
          z.tl.y ≤ min s.bottom ((body.moveBy box.tl).rAnchor.y - 10) :=
        le_min (hrails side x h).2 (by linarith)
      simp only [Bool.false_eq_true, if_false, List.forall_mem_cons]
      refine ⟨covers_way_in hlodges hrails hbox.lAnchor hangs.row hinset.left (fun huse => ?_) ?_,
        covers_way_out hlodges hrails hbox.rAnchor hangs.row hinset.right (fun huse => ?_) ?_, by simp⟩
      · exact hbottom .left _ (if_pos huse)
      · linarith [min_le_right s.bottom ((body.moveBy box.tl).lAnchor.y - 10)]
      · exact hbottom .right _ (if_pos huse)
      · linarith [min_le_right s.bottom ((body.moveBy box.tl).rAnchor.y - 10)]

/-- What a repetition draws, with its body told from where the repetition is. -/
theorem repetition_eq (e : Box Rat) (he : e = body.moveBy box.tl) : repetition direction above box body =
    forwardArrow direction box :: hline box.lAnchor box.rAnchor ::
      if above then
        [connect .left ⟨e.trAnchor.x + 10, box.lAnchor.y⟩ e.tlAnchor .down,
          connect .right ⟨e.tlAnchor.x - 10, box.lAnchor.y⟩ e.trAnchor .down]
      else
        [connect .right ⟨e.rAnchor.x, box.lAnchor.y⟩ e.rAnchor .left,
          connect .left e.lAnchor ⟨e.lAnchor.x, box.lAnchor.y⟩ .right] := by
  obtain ⟨hl, hr, htl, htr⟩ := anchors_moveBy (b := body) box.tl
  subst he
  simp only [repetition, Box.tlCorner_eq, hl, hr, htl, htr, radius_rat]
  cases above <;> rfl

/-- The body of a repetition stands in its box, and hangs below the line past it unless it is entered from
above. -/
theorem covers_repetition (hbox : z.Lodges box) (hbody : box.normalize.Lodges body)
    (hx : body.xAnchor = 10) (hangs : above = false → box.normalize.Hangs body true true)
    (hinset : above = false → box.normalize.Inset body 20 20) :
    ∀ c ∈ repetition direction above box body, z.Covers c := by
  have hbox' : box.normalize.moveBy box.tl = box := box.moveBy_normalize
  have hlodges : z.Lodges (body.moveBy box.tl) := (hbox' ▸ hbody.moveBy box.tl).mono hbox.inside
  have hstart := hbox.lAnchor
  rw [repetition_eq _ rfl, List.forall_mem_cons, List.forall_mem_cons]
  refine ⟨covers_forwardArrow hbox, covers_hline hstart hbox.rAnchor.left hbox.rAnchor.right, ?_⟩
  cases above with
  | true =>
      obtain ⟨⟨hin, hleft, hleft'⟩, hout, hright, hright'⟩ := corners_of_lodges hlodges hx
      simp only [if_true, List.forall_mem_cons]
      refine ⟨covers_left_down ⟨?_, hright', hstart.top, hstart.bottom⟩ hin ?_ hbox.below,
        covers_right_down ⟨?_, ?_, hstart.top, hstart.bottom⟩ hout ?_ hbox.below, by simp⟩
      all_goals try dsimp only
      all_goals linarith
  | false =>
      have hrow := (hbox' ▸ (hangs rfl).moveBy box.tl).row
      obtain ⟨hleft, hright⟩ := hbox' ▸ (Box.inset_moveBy box.tl).mpr (hinset rfl)
      have hin := hlodges.lAnchor
      have hout := hlodges.rAnchor
      have hleft' := hbox.inside.left
      have hright' := hbox.inside.right
      have hr : (body.moveBy box.tl).rAnchor.x = (body.moveBy box.tl).br.x := Box.rAnchor_x _
      have hl : (body.moveBy box.tl).lAnchor.x = (body.moveBy box.tl).tl.x := Box.lAnchor_x _
      simp only [Bool.false_eq_true, if_false, List.forall_mem_cons]
      refine ⟨covers_right_left ⟨hout.left, hout.right, hstart.top, hstart.bottom⟩ hout ?_ ?_ (.inl hrow),
        covers_left_right hin ⟨hin.left, hin.right, hstart.top, hstart.bottom⟩ ?_ ?_ (.inr hrow), by simp⟩
      all_goals try dsimp only
      all_goals linarith

end Passing

section Loops

variable {z separator name expression : Box Rat}

/-- The lines into the body of a loop and out of it. -/
theorem covers_through (h : box.normalize.Lodges body) (hwidth : 0 ≤ box.width) :
    box.normalize.Covers (hline ⟨0, body.lAnchor.y⟩ body.lAnchor) ∧
      box.normalize.Covers (hline body.rAnchor ⟨box.width, body.rAnchor.y⟩) := by
  have hin := h.lAnchor
  have hout := h.rAnchor
  have htl := box.normalize_tl
  have hbr := box.normalize_br
  exact ⟨covers_hline ⟨by simp [htl], by simp [hbr, hwidth], hin.top, hin.bottom⟩ hin.left hin.right,
    covers_hline hout (by simp [htl, hwidth]) (by simp [hbr])⟩

/-- What a loop draws if its body leaves room for the way back over it. -/
theorem exists_loop (direction : Direction) (box : Box Rat) (htop : 20 ≤ body.tl.y) (hrow : 35 ≤ body.lAnchor.y) :
    ∃ y, 5 ≤ y ∧ y + 20 ≤ body.lAnchor.y ∧ loop direction box body =
      [hline ⟨0, body.lAnchor.y⟩ body.lAnchor, hline body.rAnchor ⟨box.width, body.rAnchor.y⟩,
        connect .right body.rAnchor ⟨body.br.x, y⟩ .left, connect .left ⟨body.br.x, y⟩ body.lAnchor .right,
        .composite (if direction = .right then .arrowLeft ⟨body.tCenter.x, y⟩ 0 arrowSize
          else .arrowRight ⟨body.tCenter.x, y⟩ 0 arrowSize)] := by
  refine ⟨body.lAnchor.y - max 20 (body.lAnchor.y - body.tl.y + 10), by grind, by grind, ?_⟩
  have hdouble : (10 : Rat) * 2 = 20 := by norm_num
  have hanchor (rise : Rat) : body.rAnchor.move 0 (-rise) = ⟨body.br.x, body.lAnchor.y - rise⟩ := by
    ext <;> simp [sub_eq_add_neg]
  have htip (y : Rat) : (⟨body.br.x, y⟩ : Point Rat).move (-body.width / 2) 0 = ⟨body.tCenter.x, y⟩ := by
    ext
    · simp [Box.width_eq, Box.tCenter]
      ring
    · simp
  simp only [loop, Scalar.max_rat, radius_rat, padH_rat, hanchor, htip, hdouble]
  rfl

theorem covers_loop (h : box.normalize.Lodges body) (hinset : box.normalize.Inset body 20 20)
    (htop : 20 ≤ body.tl.y) (hrow : 35 ≤ body.lAnchor.y) :
    ∀ c ∈ loop direction box body, box.normalize.Covers c := by
  obtain ⟨hleft, hright⟩ := hinset
  obtain ⟨y, hhigh, hlow, hloop⟩ := exists_loop direction box htop hrow
  have hwidth := h.width
  have hin := h.lAnchor
  have hout := h.rAnchor
  have hr : body.rAnchor = ⟨body.br.x, body.lAnchor.y⟩ := rfl
  have hl : body.lAnchor.x = body.tl.x := Box.lAnchor_x _
  have hmiddle : body.tCenter.x = (body.tl.x + body.br.x) / 2 := rfl
  have htl := box.normalize_tl
  have hbr := box.normalize_br
  have hbottom := hin.bottom
  rw [hbr] at hbottom
  rw [Box.width_eq] at hwidth
  simp only [htl, hbr] at hleft hright
  dsimp only at hbottom
  -- The way back runs over the body at `y`: its connectors meet above the end, its arrow is at the middle.
  have hanchor : box.normalize.Holds ⟨body.br.x, y⟩ := by
    refine Box.holds_normalize.mpr ⟨⟨?_, ?_⟩, ?_, ?_⟩ <;> dsimp only <;> linarith
  have htip : box.normalize.Holds ⟨body.tCenter.x, y⟩ := by
    refine Box.holds_normalize.mpr ⟨⟨?_, ?_⟩, ?_, ?_⟩ <;> dsimp only <;> linarith
  obtain ⟨hthrough, hthrough'⟩ := covers_through h (by linarith)
  rw [hloop]
  simp only [List.forall_mem_cons]
  refine ⟨hthrough, hthrough', covers_right_left hout hanchor ?_ ?_ (.inr ?_),
    covers_left_right hanchor hin ?_ ?_ (.inl hlow), ?_, by simp⟩
  · rw [hbr, hr]
    linarith
  · rw [hbr]
    linarith
  · exact hlow
  · rw [htl]
    dsimp only
    linarith
  · rw [htl, hl]
    dsimp only
    linarith
  · split
    · refine covers_arrowLeft htip ?_ ?_ ?_ ?_ <;> simp only [htl, hbr] <;> linarith
    · refine covers_arrowRight htip ?_ ?_ ?_ ?_ <;> simp only [htl, hbr] <;> linarith

theorem covers_separatedLoop (hbody : box.normalize.Lodges body) (hseparator : box.normalize.Lodges separator)
    (hinset : box.normalize.Inset body 20 20) (hinset' : box.normalize.Inset separator 20 20)
    (hrows : body.lAnchor.y + 20 ≤ separator.lAnchor.y) :
    ∀ c ∈ separatedLoop box body separator, box.normalize.Covers c := by
  obtain ⟨hleft, hright⟩ := hinset
  obtain ⟨hleft', hright'⟩ := hinset'
  have hl (b : Box Rat) : b.lAnchor.x = b.tl.x := Box.lAnchor_x b
  have hr (b : Box Rat) : b.rAnchor.x = b.br.x := Box.rAnchor_x b
  have hwidth : 0 ≤ box.width := by
    have := hbody.width
    rw [Box.width_eq] at this
    simp only [box.normalize_tl, box.normalize_br] at hleft hright
    linarith
  obtain ⟨hthrough, hthrough'⟩ := covers_through hbody hwidth
  simp only [separatedLoop, List.forall_mem_cons]
  refine ⟨hthrough, hthrough', covers_right_left hbody.rAnchor hseparator.rAnchor ?_ ?_ (.inl hrows),
    covers_left_right hseparator.lAnchor hbody.lAnchor ?_ ?_ (.inr hrows), by simp⟩
  all_goals simp only [hl, hr]
  all_goals linarith

/-- The expression of a rule stands on the row of its name, with room for the end of the line behind it. -/
theorem covers_production (h : z.Lodges expression) (hrow : name.lAnchor.y = expression.lAnchor.y)
    (hleft : z.tl.x ≤ name.lAnchor.x + 10) (hright : name.lAnchor.x + 10 ≤ z.br.x)
    (hroom : expression.br.x + 34 ≤ z.br.x) : ∀ c ∈ production name expression, z.Covers c := by
  have hout := h.rAnchor
  have habove : z.tl.y + 10 ≤ expression.rAnchor.y := h.above
  have hbelow : expression.rAnchor.y + 10 ≤ z.br.y := h.below
  have hr : expression.rAnchor.x = expression.br.x := Box.rAnchor_x _
  have hstop := hout.left
  simp only [production, List.forall_mem_cons]
  refine ⟨covers_hline ⟨hleft, hright, ?_, ?_⟩ h.lAnchor.left h.lAnchor.right,
    covers_hline hout ?_ ?_, ?_, by simp⟩
  · simpa [hrow] using h.lAnchor.top
  · simpa [hrow] using h.lAnchor.bottom
  · simp
    linarith
  · simp
    linarith
  · refine covers_circle ?_ ?_ ?_ ?_ ?_ <;>
      simp only [Point.move_x, Point.move_y, padH_rat, circle_rat] <;> linarith

end Loops

section Leaves

variable {z : Box Rat} {isLinked isPlain : Bool} {style : Style} {text : String}

/-- The arrow before the text of a leaf, and the line behind it. -/
def leafArrow (direction : Direction) (box : Box Rat) : List (Call Rat) :=
  match direction with
  | .down => [.composite (.arrowDown box.tCenter (padV + arrowSize) arrowSize),
      vline (box.bCenter.move 0 (-padV)) box.bCenter]
  | .left => [.composite (.arrowLeft box.rAnchor (padH + arrowSize) arrowSize),
      hline box.lAnchor (box.lAnchor.move padH 0)]
  | .right => [.composite (.arrowRight box.lAnchor (padH + arrowSize) arrowSize),
      hline box.rAnchor (box.rAnchor.move (-padH) 0)]
  | .none | .up => []

theorem covers_leafArrow (h : z.Lodges box) : ∀ c ∈ leafArrow direction box, z.Covers c := by
  obtain ⟨hleft, htop, hright, hbottom⟩ := h.inside
  obtain ⟨habove, hbelow⟩ := h.deep
  have hin := h.lAnchor
  have hout := h.rAnchor
  have hwidth := h.width
  have hl : box.lAnchor.x = box.tl.x := Box.lAnchor_x _
  have hr : box.rAnchor = ⟨box.br.x, box.lAnchor.y⟩ := rfl
  have htc : box.tCenter = ⟨(box.tl.x + box.br.x) / 2, box.tl.y⟩ := rfl
  have hbc : box.bCenter = ⟨(box.tl.x + box.br.x) / 2, box.br.y⟩ := rfl
  rw [Box.width_eq] at hwidth
  cases direction with
  | none | up => simp [leafArrow]
  | right =>
      simp only [leafArrow, List.forall_mem_cons, padH_rat, arrowSize_rat]
      refine ⟨covers_arrowRight hin ?_ ?_ ?_ ?_, covers_hline hout ?_ ?_, by simp⟩
      all_goals try simp only [hr, hl, Point.move_x]
      all_goals linarith
  | left =>
      simp only [leafArrow, List.forall_mem_cons, padH_rat, arrowSize_rat]
      refine ⟨covers_arrowLeft hout ?_ ?_ ?_ ?_, covers_hline hin ?_ ?_, by simp⟩
      all_goals try simp only [hr, hl, Point.move_x]
      all_goals linarith
  | down =>
      have htip : z.Holds box.tCenter := by
        constructor <;> rw [htc] <;> dsimp only <;> linarith
      have hend : z.Holds (box.bCenter.move 0 (-8)) := by
        constructor <;> rw [hbc] <;> simp only [Point.move_x, Point.move_y] <;> linarith
      simp only [leafArrow, List.forall_mem_cons, padV_rat, arrowSize_rat]
      refine ⟨covers_arrowDown htip ?_ ?_ ?_ ?_, covers_vline hend ?_ ?_, by simp⟩
      all_goals simp only [htc, hbc]
      all_goals linarith

/-- The text of a leaf with its outline between two corners. -/
def leafText (isLinked isPlain : Bool) (style : Style) (low high : Point Rat) (text : String) :
    List (Call Rat) :=
  let w := Scalar.max 0 (high.x - low.x)
  let h := Scalar.max 0 (high.y - low.y)
  let textHeight := Scalar.max 0 (h - textPad)
  let centered : Call Rat := .primitive (.centeredText low.x low.y w textHeight text style)
  if style = .production || style = .title then
    [.primitive (.text (low.x + padH) low.y w textHeight text style)]
  else if style = .identifier then
    (if isLinked then [.primitive (.beginLink text)] else [])
      ++ [.primitive (.rectangle low.x low.y w h style), centered]
      ++ (if isLinked then [.primitive .endLink] else [])
  else if isPlain then [centered]
  else [.primitive (.roundedRectangle low.x low.y w h style), centered]

theorem covers_leafText {low high : Point Rat}
    (h : style = .production ∨ style = .title ∨ z.Holds low ∧ z.Holds high) :
    ∀ c ∈ leafText isLinked isPlain style low high text, z.Covers c := by
  have htext : ∀ x y w h content style, z.Covers (.primitive (.text x y w h content style)) ∧
      z.Covers (.primitive (.centeredText x y w h content style)) := fun _ _ _ _ _ _ => ⟨nofun, nofun⟩
  have hlink : z.Covers (.primitive (.beginLink text)) := nofun
  have hunlink : z.Covers (.primitive .endLink) := nofun
  simp only [leafText, Scalar.max_rat]
  split
  · exact List.forall_mem_singleton.mpr (htext ..).1
  · rename_i hstyle
    rw [Bool.or_eq_true, decide_eq_true_eq, decide_eq_true_eq, not_or] at hstyle
    obtain ⟨hlow, hhigh⟩ := (h.resolve_left hstyle.1).resolve_left hstyle.2
    have hcorner : z.Holds ⟨low.x + max 0 (high.x - low.x), low.y + max 0 (high.y - low.y)⟩ := by
      obtain ⟨hleft, hright, htop, hbottom⟩ := hlow
      obtain ⟨hleft', hright', htop', hbottom'⟩ := hhigh
      constructor <;> dsimp only <;> grind
    obtain ⟨hplain, hrounded⟩ := covers_rectangle style hlow hcorner
    split
    · cases isLinked <;> simp [hplain, htext, hlink, hunlink]
    · cases isPlain <;> simp [hrounded, htext]

/-- The corners of the outline of a leaf within the flow lie in its box. -/
theorem exists_outline (isLinked isPlain : Bool) (style : Style) (text : String)
    (h : direction ≠ .none → z.Lodges box) : ∃ low high : Point Rat,
    leaf direction isLinked isPlain style box text = leafArrow direction box ++
      leafText isLinked isPlain (if direction = .none && style != .title then .production else style)
        low high text ∧
      (direction ≠ .none → z.Holds low ∧ z.Holds high) := by
  have hcorners (hdirection : direction ≠ .none) {low high : Point Rat}
      (hlow : (box.tl.x ≤ low.x ∧ low.x ≤ box.tl.x + 20) ∧ box.tl.y ≤ low.y ∧ low.y ≤ box.tl.y + 18)
      (hhigh : (box.br.x - 20 ≤ high.x ∧ high.x ≤ box.br.x) ∧ box.br.y - 8 ≤ high.y ∧ high.y ≤ box.br.y) :
      z.Holds low ∧ z.Holds high := by
    obtain ⟨hleft, htop, hright, hbottom⟩ := (h hdirection).inside
    obtain ⟨habove, hbelow⟩ := (h hdirection).deep
    have hwidth := (h hdirection).width
    rw [Box.width_eq] at hwidth
    constructor <;> constructor <;> linarith
  cases direction with
  | none => exact ⟨_, _, rfl, fun hne => absurd rfl hne⟩
  | up | right | left | down =>
      refine ⟨_, _, rfl, fun hne => hcorners hne ?_ ?_⟩
      · simp only [Point.move_x, Point.move_y, Box.tlCorner_eq, padH_rat, padV_rat, arrowSize_rat]
        and_intros <;> linarith
      · simp only [Point.move_x, Point.move_y, Box.brCorner_eq, padH_rat, padV_rat, arrowSize_rat]
        and_intros <;> linarith

/-- A leaf within the flow marks points of its box only; outside it there is its text alone. -/
theorem covers_leaf (h : direction ≠ .none → z.Lodges box) :
    ∀ c ∈ leaf direction isLinked isPlain style box text, z.Covers c := by
  obtain ⟨low, high, hleaf, hcorners⟩ := exists_outline isLinked isPlain style text h
  rw [hleaf, List.forall_mem_append]
  by_cases hdirection : direction = .none
  · subst hdirection
    refine ⟨by simp [leafArrow], covers_leafText ?_⟩
    by_cases htitle : style = .title <;> simp [htitle]
  · exact ⟨covers_leafArrow (h hdirection), covers_leafText (.inr (.inr (hcorners hdirection)))⟩

end Leaves

end Strokes

end Railroad
