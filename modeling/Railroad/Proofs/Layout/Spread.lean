import Mathlib.Data.List.Pairwise
import Railroad.Proofs.Geometry.Exact
import Railroad.Proofs.Layout.Arrangement
/-!
Every way of placing parts keeps them inside the box that grows around them, and apart from each other.
-/
namespace Railroad.Placement

/-- A box has grown from another one, around boxes of given sizes that lie apart. -/
structure Spread (start : Box Rat) (p : Placement Rat) (es : List (Box Rat)) : Prop where
  start : start.Inside p.box
  sizes : List.Forall₂ Box.SameSize es p.parts
  inside : ∀ b ∈ p.parts, b.Inside p.box
  apart : p.parts.Pairwise Box.Apart

/-- A box at home, with boxes of given sizes inside that lie apart. -/
structure Sound (p : Placement Rat) (es : List (Box Rat)) : Prop where
  homed : p.box.Homed
  sizes : List.Forall₂ Box.SameSize es p.parts
  inside : ∀ b ∈ p.parts, b.Inside p.box
  apart : p.parts.Pairwise Box.Apart

variable {start e b : Box Rat} {p rest : Placement Rat} {es : List (Box Rat)}

namespace Spread

theorem nil (start : Box Rat) : Spread start ⟨start, []⟩ [] :=
  ⟨.refl start, .nil, by simp, .nil⟩

/-- One part more, placed before the box grows around the others. -/
theorem cons (hsize : e.SameSize b) (h : Spread (start.includeBox b) rest es)
    (hapart : ∀ c ∈ rest.parts, b.Apart c) : Spread start ⟨rest.box, b :: rest.parts⟩ (e :: es) where
  start := (Box.inside_includeBox_left start b).trans h.start
  sizes := .cons hsize h.sizes
  inside := by
    rw [List.forall_mem_cons]
    exact ⟨(Box.inside_includeBox_right start b).trans h.start, h.inside⟩
  apart := List.pairwise_cons.mpr ⟨hapart, h.apart⟩

theorem single {box : Box Rat} (hstart : start.Inside box) (hsize : e.SameSize b)
    (hinside : b.Inside box) : Spread start ⟨box, [b]⟩ [e] :=
  ⟨hstart, .cons hsize .nil, by simpa using hinside, List.pairwise_singleton _ _⟩

theorem pair {box e' b' : Box Rat} (hstart : start.Inside box) (hsize : e.SameSize b)
    (hsize' : e'.SameSize b') (hinside : b.Inside box) (hinside' : b'.Inside box)
    (hapart : b.Apart b') : Spread start ⟨box, [b, b']⟩ [e, e'] :=
  ⟨hstart, .cons hsize (.cons hsize' .nil), by simpa using ⟨hinside, hinside'⟩,
    List.pairwise_pair.mpr hapart⟩

theorem grow {box : Box Rat} (h : Spread start p es) (hgrow : p.box.Inside box) :
    Spread start ⟨box, p.parts⟩ es :=
  ⟨h.start.trans hgrow, h.sizes, fun b hb => (h.inside b hb).trans hgrow, h.apart⟩

theorem forall₂_moveBy {bs : List (Box Rat)} (h : List.Forall₂ Box.SameSize es bs) (δ : Point Rat) :
    List.Forall₂ Box.SameSize es (bs.map (·.moveBy δ)) := by
  rw [List.forall₂_map_right_iff]
  refine h.imp fun a b hsize => ?_
  obtain ⟨hwidth, hheight⟩ := Box.sameSize_moveBy b δ
  exact ⟨hsize.1.trans hwidth, hsize.2.trans hheight⟩

/-- What has grown from the empty box and is then moved home is sound. -/
theorem normalize (h : Spread Metrics.newBox p es) : p.normalize.Sound es where
  homed := by
    obtain ⟨hl, ht, hr, hb⟩ := h.start
    simp only [Metrics.newBox_tl, Metrics.newBox_br, Point.zero_x, Point.zero_y] at hl ht hr hb
    constructor <;> simp [Placement.normalize, Box.normalize, Box.homing] <;> linarith
  sizes := forall₂_moveBy h.sizes _
  inside := by
    simp only [Placement.normalize, List.forall_mem_map]
    intro b hb
    exact (Box.inside_moveBy_iff _).mpr (h.inside b hb)
  apart := by
    rw [Placement.normalize, List.pairwise_map]
    exact h.apart.imp fun h => (Box.apart_moveBy_iff _).mpr h

/-- Without a move home, if the box has grown to the right and downwards only. -/
theorem sound (h : Spread Metrics.newBox p es) (htl : p.box.tl = .zero) : p.Sound es where
  homed := by
    obtain ⟨-, -, hr, hb⟩ := h.start
    exact ⟨congrArg Point.x htl, congrArg Point.y htl, hr, hb⟩
  sizes := h.sizes
  inside := h.inside
  apart := h.apart

end Spread

section Rows

variable {box : Box Rat}

theorem below_of_mem_pile (h : b ∈ (pile box es).parts) : box.br.y ≤ b.tl.y := by
  induction es generalizing box with
  | nil => simp [pile] at h
  | cons e es ih =>
      rcases List.mem_cons.mp h with rfl | h
      · simp
      · exact (Box.inside_includeBox_left _ _).bottom.trans (ih h)

theorem spread_pile (box : Box Rat) (es : List (Box Rat)) : Spread box (pile box es) es := by
  induction es generalizing box with
  | nil => exact .nil box
  | cons e es ih =>
      refine .cons (Box.sameSize_moveTo _ _) (ih _) fun c hc => Box.apart_of_below ?_
      exact (Box.inside_includeBox_right _ _).bottom.trans (below_of_mem_pile hc)

theorem tl_pile (hbox : box.tl.y ≤ box.br.y) : (pile box es).box.tl = box.tl := by
  induction es generalizing box with
  | nil => rfl
  | cons e es ih =>
      have htl : (box.includeBox (e.moveTo box.blCorner)).tl = box.tl := by
        ext <;> simp [hbox]
      rw [pile, ih, htl]
      rw [htl]
      exact hbox.trans (Box.inside_includeBox_left _ _).bottom

theorem right_of_mem_row (h : b ∈ (row box es).parts) : box.br.x ≤ b.tl.x := by
  induction es generalizing box with
  | nil => simp [row] at h
  | cons e es ih =>
      rcases List.mem_cons.mp h with rfl | h
      · simp
      · exact (Box.inside_includeBox_left _ _).right.trans (ih h)

theorem spread_row (box : Box Rat) (es : List (Box Rat)) : Spread box (row box es) es := by
  induction es generalizing box with
  | nil => exact .nil box
  | cons e es ih =>
      refine .cons (Box.sameSize_moveTo _ _) (ih _) fun c hc => Box.apart_of_right ?_
      exact (Box.inside_includeBox_right _ _).right.trans (right_of_mem_row hc)

/-- A stack grows downwards, once its first part is placed. -/
theorem below_of_mem_stackFrom {above : Bool} {index : Nat} (hindex : 0 < index)
    (h : b ∈ (stackFrom above index box es).parts) : box.br.y ≤ b.tl.y := by
  induction es generalizing box index with
  | nil => simp [stackFrom] at h
  | cons e es ih =>
      rcases List.mem_cons.mp h with rfl | h
      · rw [if_neg (by omega)]
        split <;> simp
      · exact (Box.inside_includeBox_left _ _).bottom.trans (ih (by omega) h)

theorem spread_stackFrom (above : Bool) (index : Nat) (box : Box Rat) (es : List (Box Rat)) :
    Spread box (stackFrom above index box es) es := by
  induction es generalizing box index with
  | nil => exact .nil box
  | cons e es ih =>
      refine .cons ?_ (ih _ _) fun c hc => Box.apart_of_below ?_
      · split
        · exact Box.sameSize_moveLAnchor _ _
        · split <;> exact Box.sameSize_moveTo _ _
      · exact (Box.inside_includeBox_right _ _).bottom.trans
          (below_of_mem_stackFrom (Nat.succ_pos _) hc)

/-- A chain grows away from its anchor. -/
theorem beyond_of_mem_chain {rightwards : Bool} {anchor : Point Rat} (hes : ∀ e ∈ es, 0 ≤ e.width)
    (h : b ∈ (chain rightwards box anchor es).parts) :
    if rightwards then anchor.x ≤ b.tl.x else b.br.x ≤ anchor.x := by
  induction es generalizing box anchor with
  | nil => simp [chain] at h
  | cons e es ih =>
      rw [List.forall_mem_cons] at hes
      cases rightwards with
      | true =>
          rcases List.mem_cons.mp h with rfl | h
          · simp
          · have := ih hes.2 h
            simp at this ⊢
            linarith
      | false =>
          rcases List.mem_cons.mp h with rfl | h
          · simp
          · have := ih hes.2 h
            simp at this ⊢
            linarith

theorem spread_chain (rightwards : Bool) (box : Box Rat) (anchor : Point Rat)
    (hes : ∀ e ∈ es, 0 ≤ e.width) : Spread box (chain rightwards box anchor es) es := by
  induction es generalizing box anchor with
  | nil => exact .nil box
  | cons e es ih =>
      rw [List.forall_mem_cons] at hes
      refine .cons ?_ (ih _ _ hes.2) fun c hc => ?_
      · split
        · exact Box.sameSize_moveLAnchor _ _
        · exact Box.sameSize_moveRAnchor _ _
      · have hbeyond := beyond_of_mem_chain hes.2 hc
        cases rightwards with
        | true => exact Box.apart_of_right hbeyond
        | false => exact (Box.apart_of_right hbeyond).symm

end Rows

section Kinds

variable {above useLeft useRight : Bool} {direction : Direction} {body name expression : Box Rat}

theorem sound_leaf (letters : Nat) : Sound ⟨leaf direction letters, []⟩ [] where
  homed := by
    constructor <;> simp only [leaf] <;> (repeat' split) <;>
      simp [Box.setHeight, Box.setWidth]
  sizes := .nil
  inside := by simp
  apart := .nil

theorem sound_rules (es : List (Box Rat)) : (rules es).Sound es :=
  (spread_pile _ es).sound (tl_pile (by simp))

theorem homed_newBox : (Metrics.newBox : Box Rat).Homed := by
  constructor <;> simp

theorem spread_heading {title rules : Box Rat} (ht : title.Homed) (hr : rules.Homed)
    (comment : Box Rat) :
    Spread Metrics.newBox (heading title rules comment) [title, rules, comment] ∧
      (heading title rules comment).box.tl = .zero := by
  have hrules : 0 ≤ rules.height := by
    rw [Box.height_eq, hr.y, sub_zero]
    exact hr.height
  constructor
  · refine .cons ⟨rfl, rfl⟩ (.cons (Box.sameSize_moveTo _ _) (.cons (Box.sameSize_moveTo _ _)
      (.nil _) (by simp)) ?_) ?_
    · rw [List.forall_mem_singleton]
      exact Box.apart_of_below (by simp)
    · rw [List.forall_mem_cons, List.forall_mem_singleton]
      constructor
      · exact Box.apart_of_below (by simp)
      · exact Box.apart_of_below (by simpa using hrules)
  · have := add_nonneg ht.height hrules
    ext <;> simp [heading, ht.x, ht.y, ht.height, this]

theorem sound_headed {title comment : Option (Box Rat)} {rules : Box Rat}
    (ht : ∀ b ∈ title, b.Homed) (hr : rules.Homed) :
    (headed title rules comment).Sound (title.toList ++ rules :: comment.toList) := by
  have htitle : (title.getD Metrics.newBox).Homed := by
    cases title with
    | none => exact homed_newBox
    | some b => exact ht b rfl
  obtain ⟨hspread, htl⟩ := spread_heading htitle hr (comment.getD Metrics.newBox)
  obtain ⟨hhomed, -, hinside, hapart⟩ := hspread.sound htl
  -- an absent title or comment is an empty box in the pile and no part of the grammar
  have hsublist : (headed title rules comment).parts.Sublist
      (heading (title.getD Metrics.newBox) rules (comment.getD Metrics.newBox)).parts := by
    cases title <;> cases comment <;> simp [headed, heading]
  refine ⟨hhomed, ?_, fun b hb => hinside b (hsublist.subset hb), hapart.sublist hsublist⟩
  refine List.rel_append ?_ (.cons (Box.sameSize_moveTo _ _) ?_)
  · exact List.forall₂_same.mpr fun b _ => ⟨rfl, rfl⟩
  · cases comment with
    | none => exact .nil
    | some b => exact .cons (Box.sameSize_moveTo _ _) .nil

theorem sound_production (name expression : Box Rat) :
    (production name expression).Sound [name, expression] := by
  refine Spread.normalize (.pair ?_ ⟨rfl, rfl⟩ (Box.sameSize_moveLAnchor _ _) ?_ ?_ ?_)
  · exact (Box.inside_includeBox_left _ _).trans
      ((Box.inside_includeBox_left _ _).trans (Box.inside_includePoint _ _))
  · exact (Box.inside_includeBox_right _ _).trans
      ((Box.inside_includeBox_left _ _).trans (Box.inside_includePoint _ _))
  · exact (Box.inside_includeBox_right _ _).trans (Box.inside_includePoint _ _)
  · exact Box.apart_of_right (by simp)

theorem sound_fan (es : List (Box Rat)) : (fan direction es).Sound es :=
  ((spread_row _ es).grow ((Box.inside_setYAnchor _ _).trans
    ((Box.inside_includePoint _ _).trans (Box.inside_includePoint _ _)))).normalize

theorem sound_stack (es : List (Box Rat)) : (stack above useLeft useRight es).Sound es := by
  refine ((spread_stackFrom above 0 _ es).grow ?_).normalize
  split
  · exact (Box.inside_includePoint _ _).trans (Box.inside_includePoint _ _)
  · split <;> split
    · exact .refl _
    · exact Box.inside_includePoint _ _
    · exact Box.inside_includePoint _ _
    · exact (Box.inside_includePoint _ _).trans (Box.inside_includePoint _ _)

theorem parts_sequence (rightwards : Bool) (es : List (Box Rat)) : (sequence rightwards es).parts =
    (normalize (chain rightwards Metrics.newBox
      (if rightwards then Metrics.newBox.lAnchor else Metrics.newBox.rAnchor) es)).parts := by
  rw [sequence]
  split <;> rfl

theorem sound_sequence {rightwards : Bool} {es : List (Box Rat)} (hes : ∀ e ∈ es, 0 ≤ e.width) :
    (sequence rightwards es).Sound es := by
  obtain ⟨hhomed, hsizes, hinside, hapart⟩ := (spread_chain rightwards Metrics.newBox
    (if rightwards then Metrics.newBox.lAnchor else Metrics.newBox.rAnchor) hes).normalize
  rw [sequence]
  split
  · exact ⟨hhomed, hsizes, hinside, hapart⟩
  · -- the box gets the anchor row of the first item and keeps its edges
    exact ⟨⟨hhomed.x, hhomed.y, hhomed.width, hhomed.height⟩, hsizes,
      fun b hb => (hinside b hb).trans (Box.inside_setYAnchor _ _), hapart⟩

/-- A body that hangs below the corner of a box, with some room to its right. -/
theorem spread_hung {box e : Box Rat} {room : Rat} (hbox : Metrics.newBox.Inside box)
    (hsize : body.SameSize e) (hx : box.br.x ≤ e.tl.x) (hy : box.br.y ≤ e.tl.y) (hroom : 0 ≤ room) :
    Spread Metrics.newBox ⟨box.includePoint (e.brCorner.move room 0), [e]⟩ [body] := by
  have hwidth : box.tl.x ≤ e.tl.x := (hbox.left.trans hbox.right).trans hx
  have hheight : box.tl.y ≤ e.tl.y := (hbox.top.trans hbox.bottom).trans hy
  refine .single (hbox.trans (Box.inside_includePoint _ _)) hsize ?_
  constructor
  · simp [hwidth]
  · simp [hheight]
  · simp [hroom]
  · simp

theorem exists_clearOf (box e : Box Rat) : ∃ δ, 0 ≤ δ ∧ clearOf box e = e.moveBy ⟨0, δ⟩ := by
  rw [clearOf]
  split
  · rename_i hδ
    exact ⟨_, hδ.le, rfl⟩
  · exact ⟨0, le_rfl, by ext <;> simp⟩

theorem spread_hung_moveBy (body : Box Rat) {box : Box Rat} {δ room : Rat}
    (hbox : Metrics.newBox.Inside box) (hδ : 0 ≤ δ) (hroom : 0 ≤ room) :
    Spread Metrics.newBox ⟨box.includePoint
      (((body.moveTo box.brCorner).moveBy ⟨0, δ⟩).brCorner.move room 0),
        [(body.moveTo box.brCorner).moveBy ⟨0, δ⟩]⟩ [body] :=
  spread_hung hbox ((Box.sameSize_moveBy _ _).trans (Box.sameSize_moveBy _ _)) (by simp)
    (by simpa using hδ) hroom

theorem spread_hung_clearOf (body : Box Rat) {box : Box Rat} {room : Rat}
    (hbox : Metrics.newBox.Inside box) (hroom : 0 ≤ room) :
    Spread Metrics.newBox ⟨box.includePoint
      ((clearOf box (body.moveTo box.brCorner)).brCorner.move room 0),
        [clearOf box (body.moveTo box.brCorner)]⟩ [body] := by
  obtain ⟨δ, hδ, hclear⟩ := exists_clearOf box (body.moveTo box.brCorner)
  rw [hclear]
  exact spread_hung_moveBy body hbox hδ hroom

theorem sound_repetition (body : Box Rat) : (repetition above body).Sound [body] := by
  have hbox := fun p => (Box.inside_setYAnchor (Metrics.newBox : Box Rat) (Metrics.padV +
    Metrics.arrowSize / 2)).trans (Box.inside_includePoint _ p)
  cases above with
  | true => exact (spread_hung_moveBy body (hbox _) (by simp) (by norm_num)).normalize
  | false => exact (spread_hung_clearOf body (hbox _) (by norm_num)).normalize

theorem sound_optional (body : Box Rat) :
    (optional above useLeft useRight body).Sound [body] := by
  have hbox := fun p => (Box.inside_includePoint (Metrics.newBox : Box Rat) p).trans
    (Box.inside_setYAnchor _ (Metrics.padV + Metrics.arrowSize / 2))
  cases above with
  | true =>
      -- the body stays where it is moved to
      have hstay : ∀ e : Box Rat, e.moveBy ⟨0, 0⟩ = e := fun e => by ext <;> simp
      have hroom : (0 : Rat) ≤ Metrics.radius - Metrics.padH := by norm_num
      have hspread := fun p => spread_hung_moveBy body (hbox p) le_rfl hroom
      simp only [hstay] at hspread
      exact (hspread _).normalize
  | false =>
      cases useRight with
      | true =>
          have hroom : ∀ p : Point Rat, p.move 0 0 = p := fun p => by ext <;> simp
          have hspread := fun p => spread_hung_clearOf body (hbox p) le_rfl
          simp only [hroom] at hspread
          exact (hspread _).normalize
      | false => exact (spread_hung_clearOf body (hbox _) (by norm_num)).normalize

theorem sound_loop (body : Box Rat) : (loop body).Sound [body] :=
  (Spread.single ((Box.inside_includeBox_left _ _).trans (Box.inside_includePoint _ _))
    (Box.sameSize_moveLAnchor _ _)
    ((Box.inside_includeBox_right _ _).trans (Box.inside_includePoint _ _))).normalize

theorem sound_separatedLoop (body separator : Box Rat) :
    (separatedLoop body separator).Sound [body, separator] := by
  refine Spread.normalize (.pair ?_ (Box.sameSize_moveLAnchor _ _)
    ((Box.sameSize_moveTo _ _).trans (Box.sameSize_moveBy _ _)) ?_ ?_ ?_)
  · exact (Box.inside_includeBox_left _ _).trans
      ((Box.inside_includeBox_left _ _).trans (Box.inside_includePoint _ _))
  · exact (Box.inside_includeBox_right _ _).trans
      ((Box.inside_includeBox_left _ _).trans (Box.inside_includePoint _ _))
  · exact (Box.inside_includeBox_right _ _).trans (Box.inside_includePoint _ _)
  · exact Box.apart_of_below (by simp)

end Kinds

end Railroad.Placement
