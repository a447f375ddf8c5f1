import Railroad.Proofs.Layout.Nesting
/-!
The room that placements reserve for the connectors between the rows of a node and of its parts.
-/
namespace Railroad

namespace Box

/-- The anchor row passes through the box. -/
def Level (b : Box Rat) : Prop :=
  b.tl.y ≤ b.lAnchor.y ∧ b.lAnchor.y ≤ b.br.y

/-- The anchor row passes through the box with room for an arc above it and one below. -/
structure Deep (b : Box Rat) : Prop where
  above : b.tl.y + 10 ≤ b.lAnchor.y
  below : b.lAnchor.y + 10 ≤ b.br.y

/-- The box is another one elsewhere, with the anchor row where it was in the box. -/
structure Moved (b e : Box Rat) : Prop where
  size : b.SameSize e
  row : b.yAnchor = e.yAnchor

/-- The part hangs two arc radii or more below the anchor row, with room on the sides where there is no
rail. -/
structure Hangs (b e : Box Rat) (useLeft useRight : Bool) : Prop where
  row : b.lAnchor.y + 20 ≤ e.lAnchor.y
  left : useLeft = false → b.tl.x < e.tl.x
  right : useRight = false → e.br.x < b.br.x

variable {b e : Box Rat} {p δ : Point Rat} {useLeft useRight : Bool}

theorem row_moveBy : (b.moveBy δ).lAnchor.y = b.lAnchor.y + δ.y := by
  simp
  ring

@[simp] theorem level_moveBy : (b.moveBy δ).Level ↔ b.Level := by
  simp only [Level, row_moveBy, moveBy_tl, moveBy_br, Point.translate_y, add_le_add_iff_right]

theorem Hangs.moveBy (h : b.Hangs e useLeft useRight) (δ : Point Rat) :
    (b.moveBy δ).Hangs (e.moveBy δ) useLeft useRight where
  row := by
    rw [row_moveBy, row_moveBy]
    linarith [h.row]
  left hl := by simpa using h.left hl
  right hr := by simpa using h.right hr

theorem Hangs.of_homed {b' : Box Rat} (h : b.Hangs e useLeft useRight) (hhomed : b.Homed)
    (hmoved : b.Moved b') : b'.normalize.Hangs e useLeft useRight where
  row := by
    have := h.row
    simp [normalize, homing, ← hmoved.row]
    simp [hhomed.y] at this
    exact this
  left hl := by
    have := h.left hl
    simpa [normalize, homing, hhomed.x] using this
  right hr := by
    have hwidth := hmoved.size.1
    rw [width_eq, width_eq, hhomed.x, sub_zero] at hwidth
    have := h.right hr
    rw [hwidth] at this
    simpa [normalize, homing, ← sub_eq_add_neg] using this

theorem Hangs.coordinates (h : b.normalize.Hangs e useLeft useRight) :
    b.yAnchor + 20 ≤ e.tl.y + e.yAnchor ∧ (useLeft = false → 0 < e.tl.x) ∧
      (useRight = false → e.br.x + b.tl.x < b.br.x) := by
  refine ⟨by simpa [normalize, homing] using h.row, ?_, ?_⟩
  · intro hl
    simpa [normalize, homing] using h.left hl
  · intro hr
    simpa [normalize, homing, lt_sub_iff_add_lt, ← sub_eq_add_neg] using h.right hr

theorem row_includeBox : (b.includeBox e).lAnchor.y = b.lAnchor.y := includeBox_row b e

theorem row_includePoint : (b.includePoint p).lAnchor.y = b.lAnchor.y := includePoint_row b p

theorem level_iff : b.Level ↔ 0 ≤ b.yAnchor ∧ b.yAnchor ≤ b.height := by
  rw [Level, lAnchor_y, height_eq, le_add_iff_nonneg_right, le_sub_iff_add_le']

theorem Level.moved (h : b.Level) (hmoved : b.Moved e) : e.Level := by
  rw [level_iff] at h ⊢
  rwa [← hmoved.row, ← hmoved.size.2]

theorem Deep.level (h : b.Deep) : b.Level :=
  ⟨by linarith [h.above], by linarith [h.below]⟩

theorem deep_iff : b.Deep ↔ 10 ≤ b.yAnchor ∧ b.yAnchor + 10 ≤ b.height := by
  rw [height_eq]
  constructor
  · rintro ⟨habove, hbelow⟩
    rw [lAnchor_y] at habove hbelow
    constructor <;> linarith
  · rintro ⟨habove, hbelow⟩
    constructor <;> rw [lAnchor_y] <;> linarith

@[simp] theorem deep_moveBy : (b.moveBy δ).Deep ↔ b.Deep := by
  rw [deep_iff, deep_iff, moveBy_yAnchor, ← (sameSize_moveBy b δ).2]

theorem Deep.moved (h : b.Deep) (hmoved : b.Moved e) : e.Deep := by
  rw [deep_iff] at h ⊢
  rwa [← hmoved.row, ← hmoved.size.2]

theorem Deep.grow {b' : Box Rat} (h : b.Deep) (hinside : b.Inside b')
    (hrow : b'.lAnchor.y = b.lAnchor.y) : b'.Deep where
  above := by
    rw [hrow]
    linarith [hinside.top, h.above]
  below := by
    rw [hrow]
    exact h.below.trans hinside.bottom

theorem Deep.includePoint (h : b.Deep) (p : Point Rat) : (b.includePoint p).Deep :=
  h.grow (inside_includePoint b p) row_includePoint

theorem Deep.includeBox (h : b.Deep) (e : Box Rat) : (b.includeBox e).Deep :=
  h.grow (inside_includeBox_left b e) row_includeBox

theorem Deep.includeBox_of_row (h : e.Deep) (hrow : e.lAnchor.y = b.lAnchor.y) :
    (b.includeBox e).Deep :=
  h.grow (inside_includeBox_right b e) (row_includeBox.trans hrow.symm)

theorem deep_moveLAnchor : (b.moveLAnchor p).Deep ↔ b.Deep := deep_moveBy

end Box

namespace Placement

open Box

variable {box e b : Box Rat} {p : Placement Rat} {es : List (Box Rat)} {direction : Direction}
  {above useLeft useRight : Bool}

theorem row_le_normalize {d : Rat} :
    p.normalize.box.lAnchor.y + d ≤ p.normalize.box.br.y ↔ p.box.lAnchor.y + d ≤ p.box.br.y := by
  simp only [normalize, Box.normalize, row_moveBy, moveBy_br, Point.translate_y,
    add_right_comm _ _ d, add_le_add_iff_right]

theorem deep_normalize : p.normalize.box.Deep ↔ p.box.Deep := deep_moveBy

theorem deep_leaf (letters : Nat) : (leaf direction letters : Box Rat).Deep := by
  simp only [leaf]
  split
  · constructor <;> norm_num [setHeight, setWidth]
  · split
    · constructor <;> norm_num [setHeight, setWidth]
    · constructor <;> norm_num [setHeight, setWidth]

section Rows

variable {β : Type} {f : Box Rat → β} (hf : ∀ b δ, f (b.moveBy δ) = f b)
include hf

/-- What moves leave alone is found again in the parts of a pile, and in those of every other arrangement. -/
theorem map_pile (box : Box Rat) (es : List (Box Rat)) : (pile box es).parts.map f = es.map f := by
  induction es generalizing box with
  | nil => rfl
  | cons e es ih => rw [pile, List.map_cons, ih, List.map_cons, moveTo, hf]

theorem map_headed (title comment : Option (Box Rat)) (rules : Box Rat) :
    (headed title rules comment).parts.map f =
      (title.toList ++ rules :: comment.toList).map f := by
  cases comment <;> simp [headed, moveTo, hf]

theorem map_row (box : Box Rat) (es : List (Box Rat)) : (row box es).parts.map f = es.map f := by
  induction es generalizing box with
  | nil => rfl
  | cons e es ih => rw [row, List.map_cons, ih, List.map_cons, moveTo, hf]

theorem map_stackFrom (above : Bool) (index : Nat) (box : Box Rat) (es : List (Box Rat)) :
    (stackFrom above index box es).parts.map f = es.map f := by
  induction es generalizing index box with
  | nil => rfl
  | cons e es ih =>
      rw [stackFrom, List.map_cons, ih, List.map_cons]
      split
      · rw [moveLAnchor, hf]
      · split <;> rw [moveTo, hf]

theorem map_chain (rightwards : Bool) (box : Box Rat) (anchor : Point Rat) (es : List (Box Rat)) :
    (chain rightwards box anchor es).parts.map f = es.map f := by
  induction es generalizing box anchor with
  | nil => rfl
  | cons e es ih =>
      rw [chain, List.map_cons, ih, List.map_cons]
      split
      · rw [moveLAnchor, hf]
      · rw [moveRAnchor, hf]

theorem map_normalize (p : Placement Rat) : p.normalize.parts.map f = p.parts.map f := by
  rw [normalize, List.map_map]
  exact List.map_congr_left fun b _ => hf b _

theorem map_fan (es : List (Box Rat)) : (fan direction es).parts.map f = es.map f := by
  rw [fan, map_normalize hf, map_row hf]

theorem map_stack (es : List (Box Rat)) :
    (stack above useLeft useRight es).parts.map f = es.map f := by
  rw [stack, map_normalize hf, map_stackFrom hf]

theorem map_sequence {rightwards : Bool} (es : List (Box Rat)) :
    (sequence rightwards es).parts.map f = es.map f := by
  rw [sequence]
  split <;> rw [map_normalize hf, map_chain hf]

theorem apply_clearOf : f (clearOf box e) = f e := by
  rw [clearOf]
  split
  · exact hf _ _
  · rfl

theorem map_repetition (body : Box Rat) : (repetition above body).parts.map f = [f body] := by
  cases above <;> simp [repetition, normalize, apply_clearOf hf, moveTo, hf]

theorem map_optional (body : Box Rat) :
    (optional above useLeft useRight body).parts.map f = [f body] := by
  cases above <;> simp [optional, normalize, apply_clearOf hf, moveTo, hf]

theorem map_loop (body : Box Rat) : (loop body).parts.map f = [f body] := by
  simp [loop, normalize, moveLAnchor, hf]

theorem map_separatedLoop (body separator : Box Rat) :
    (separatedLoop body separator).parts.map f = [f body, f separator] := by
  simp [separatedLoop, normalize, moveLAnchor, moveTo, hf]

omit hf

theorem forall₂_moved {bs : List (Box Rat)} (hsizes : List.Forall₂ SameSize es bs)
    (hanchors : bs.map yAnchor = es.map yAnchor) : List.Forall₂ Moved es bs := by
  induction hsizes with
  | nil => exact .nil
  | cons hsize _ ih =>
      rw [List.map_cons, List.map_cons, List.cons.injEq] at hanchors
      exact .cons ⟨hsize, hanchors.1.symm⟩ (ih hanchors.2)

theorem level_of_moved {bs : List (Box Rat)} (h : List.Forall₂ Moved es bs)
    (hes : ∀ e ∈ es, e.Level) (hb : b ∈ bs) : b.Level := by
  obtain ⟨e, he, hmoved⟩ := exists_of_mem_right h hb
  exact (hes e he).moved hmoved

end Rows

section Fans

theorem tl_row (hbox : box.tl.x ≤ box.br.x) : (row box es).box.tl = box.tl := by
  induction es generalizing box with
  | nil => rfl
  | cons e es ih =>
      have htl : (box.includeBox (e.moveTo box.trCorner)).tl = box.tl := by
        ext <;> simp [hbox]
      rw [row, ih, htl]
      rw [htl]
      exact hbox.trans (inside_includeBox_left _ _).right

/-- A fan keeps three arc radii clear below its anchor row. -/
theorem clear_fan (direction : Direction) (es : List (Box Rat)) :
    (fan direction es).box.Deep ∧ (fan direction es).box.lAnchor.y + 30 ≤ (fan direction es).box.br.y := by
  have htl : (row Metrics.newBox es).box.tl = .zero := tl_row (by simp)
  have hbr := (spread_row Metrics.newBox es).start.bottom
  simp only [Metrics.newBox_br, Point.zero_y] at hbr
  have hlift : max (8 : Rat) 10 = 10 := by norm_num
  rw [fan, deep_normalize, row_le_normalize, row_includePoint, row_includePoint]
  constructor
  · refine Deep.includePoint ⟨?_, ?_⟩ _
    · rw [row_includePoint]
      simp [htl, hlift]
      norm_num
    · rw [row_includePoint]
      simp [htl, hlift, hbr]
  · simp [htl, hlift]
    right
    split
    · simp
      linarith [le_max_left (row Metrics.newBox es).box.br.y (-(10 * 2))]
    · simp
      linarith [le_max_left (row Metrics.newBox es).box.br.y (-(10 * 2))]

end Fans

section Stacks

theorem left_of_mem_stackFrom {index : Nat} (h : b ∈ (stackFrom above index box es).parts) :
    b.tl.x = box.tl.x := by
  induction es generalizing index box with
  | nil => simp [stackFrom] at h
  | cons e es ih =>
      rw [stackFrom] at h
      rcases List.mem_cons.mp h with rfl | h
      · split
        · simp
        · split <;> simp
      · rw [ih h]
        split
        · simp
        · split <;> simp

theorem row_stackFrom (index : Nat) :
    (stackFrom above index box es).box.lAnchor.y = box.lAnchor.y := by
  induction es generalizing index box with
  | nil => rfl
  | cons e es ih => rw [stackFrom, ih, row_includeBox]

/-- Unless the stack is entered from above, all parts from the second on hang clear of the anchor
row. -/
theorem clear_stackFrom (hes : ∀ e ∈ es, e.Homed ∧ e.Level)
    (h : b ∈ (stackFrom false 1 box es).parts) : box.lAnchor.y + 20 ≤ b.lAnchor.y := by
  cases es with
  | nil => simp [stackFrom] at h
  | cons e es =>
      rw [List.forall_mem_cons] at hes
      have hsecond : box.lAnchor.y + 20 ≤ (e.moveTo (box.blCorner.max
          (box.lAnchor.move 0 (Metrics.radius * 2 - e.lAnchor.y)))).lAnchor.y := by
        simp
        linarith [le_max_right box.br.y (box.tl.y + box.yAnchor + (10 * 2 - (e.tl.y + e.yAnchor))),
          hes.1.1.y]
      rcases List.mem_cons.mp h with rfl | h
      · exact hsecond
      · -- the others lie below the second, which contains its row
        have hbelow := below_of_mem_stackFrom (by decide) h
        have hrow := (level_of_moved (forall₂_moved (spread_stackFrom false _ _ _).sizes
          (map_stackFrom moveBy_yAnchor _ _ _ _)) (fun e he => (hes.2 e he).2) h).1
        have hlevel := (level_moveBy (δ := (box.blCorner.max (box.lAnchor.move 0
          (Metrics.radius * 2 - e.lAnchor.y))).minus e.tl)).mpr hes.1.2
        have hinside := (inside_includeBox_right box (e.moveTo (box.blCorner.max
          (box.lAnchor.move 0 (Metrics.radius * 2 - e.lAnchor.y))))).bottom
        exact hsecond.trans (hlevel.2.trans (hinside.trans (hbelow.trans hrow)))

theorem deep_stackFrom (index : Nat) (h : box.Deep) :
    (stackFrom above index box es).box.Deep :=
  h.grow (spread_stackFrom above index box es).start (row_stackFrom index)

theorem deep_stack (he : e.Deep) : (stack above useLeft useRight (e :: es)).box.Deep := by
  have hfirst : (Metrics.newBox.includeBox (e.moveLAnchor Metrics.newBox.lAnchor)).Deep :=
    (deep_moveLAnchor.mpr he).includeBox_of_row (by simp)
  have hinner : (stackFrom above 1 _ es).box.Deep := deep_stackFrom 1 hfirst
  rw [stack, deep_normalize]
  dsimp only
  split
  · exact (hinner.includePoint _).includePoint _
  · split <;> split
    · exact hinner
    · exact hinner.includePoint _
    · exact hinner.includePoint _
    · exact (hinner.includePoint _).includePoint _

/-- Parts that hang below the anchor row still do so once box and parts have moved home. -/
theorem hangs_normalize (h : ∀ b ∈ p.parts.tail, p.box.Hangs b useLeft useRight) :
    ∀ b ∈ p.normalize.parts.tail, p.normalize.box.Hangs b useLeft useRight := by
  intro b hb
  rw [normalize, ← List.map_tail, List.mem_map] at hb
  obtain ⟨c, hc, rfl⟩ := hb
  exact (h c hc).moveBy _

theorem hangs_sides {inner : Box Rat} (hrow : inner.lAnchor.y + 20 ≤ b.lAnchor.y)
    (hleft : b.tl.x = 0) (hright : b.br.x ≤ inner.br.x) :
    let box := if useLeft then inner else inner.includePoint ⟨-Metrics.radius * 2, 0⟩
    (if useRight then box else box.includePoint (box.brCorner.move (Metrics.radius * 2) 0)).Hangs b
      useLeft useRight where
  row := by
    cases useLeft <;> cases useRight <;> simpa only [row_includePoint, if_true, if_false,
      Bool.false_eq_true] using hrow
  left hl := by
    cases useRight <;> simp [hl, hleft]
  right hr := by
    cases useLeft
    · simp [hr]
      linarith [le_max_left inner.br.x (-(10 * 2))]
    · simp [hr]
      linarith

/-- All alternatives but the first hang below the anchor row, with room for the lines on the sides. -/
theorem hangs_stack (hes : ∀ e ∈ es, e.Homed ∧ e.Level) :
    ∀ b ∈ (stack false useLeft useRight (e :: es)).parts.tail,
      (stack false useLeft useRight (e :: es)).box.Hangs b useLeft useRight := by
  rw [stack]
  refine hangs_normalize ?_
  intro b hb
  let first := Metrics.newBox.includeBox (e.moveLAnchor Metrics.newBox.lAnchor)
  have hb : b ∈ (stackFrom false 1 first es).parts := hb
  have hrow : (stackFrom false 1 first es).box.lAnchor.y + 20 ≤ b.lAnchor.y := by
    rw [row_stackFrom]
    exact clear_stackFrom hes hb
  have hleft : b.tl.x = 0 := by
    rw [left_of_mem_stackFrom hb]
    simp [first]
  have hright := ((spread_stackFrom false 1 first es).inside b hb).right
  exact hangs_sides hrow hleft hright

end Stacks

section Hung

theorem row_clearOf (box e : Box Rat) : box.lAnchor.y + 20 ≤ (clearOf box e).lAnchor.y := by
  rw [clearOf]
  split
  · rw [row_moveBy]
    simp
    linarith
  · rename_i hδ
    simp at hδ ⊢
    linarith

/-- A body that hangs below the corner of a box, with some room to its right. -/
theorem hangs_clearOf {corner : Point Rat} (hbox : useLeft = false → box.tl.x < box.br.x)
    (hcorner : useRight = false → (clearOf box (e.moveTo box.brCorner)).br.x < corner.x) :
    (box.includePoint corner).Hangs (clearOf box (e.moveTo box.brCorner)) useLeft useRight where
  row := by
    rw [row_includePoint]
    exact row_clearOf _ _
  left hl := by
    obtain ⟨δ, -, hclear⟩ := exists_clearOf box (e.moveTo box.brCorner)
    rw [hclear]
    simp [hbox hl]
  right hr := (hcorner hr).trans_le (by simp)

theorem hangs_repetition (body : Box Rat) :
    ∀ b ∈ (repetition false body).parts, (repetition false body).box.Hangs b true true :=
  List.forall_mem_singleton.mpr ((hangs_clearOf (by simp) (by simp)).moveBy _)

theorem hangs_optional (body : Box Rat) : ∀ b ∈ (optional false useLeft useRight body).parts,
    (optional false useLeft useRight body).box.Hangs b useLeft useRight := by
  cases useRight with
  | true =>
      refine List.forall_mem_singleton.mpr ((hangs_clearOf ?_ (by simp)).moveBy _)
      rintro rfl
      simp
  | false =>
      refine List.forall_mem_singleton.mpr ((hangs_clearOf ?_ (by simp)).moveBy _)
      rintro rfl
      simp

theorem hangs_separatedLoop (body separator : Box Rat) :
    ∃ b e, (separatedLoop body separator).parts = [b, e] ∧ b.lAnchor.y + 20 ≤ e.lAnchor.y := by
  refine ⟨_, _, rfl, ?_⟩
  rw [row_moveBy, row_moveBy, add_right_comm, add_le_add_iff_right, row_moveBy]
  simp
  linarith [le_max_right 0
    (10 * 2 - (24 - body.yAnchor + body.height + separator.yAnchor - 24))]

/-- A box of some height with the anchor row of a line past a body. -/
theorem deep_passing (hy : b.tl.y = 0) (hrow : b.yAnchor = Metrics.padV + Metrics.arrowSize / 2)
    (hheight : 23 ≤ b.br.y) : b.Deep := by
  constructor
  · rw [lAnchor_y, hy, hrow]
    norm_num
  · rw [lAnchor_y, hy, hrow]
    norm_num
    linarith

theorem deep_repetition (body : Box Rat) : (repetition above body).box.Deep := by
  cases above <;> refine deep_normalize.mpr (Deep.includePoint (deep_passing ?_ ?_ ?_) _)
  all_goals norm_num [includePoint, includeCorners]

theorem deep_optional (body : Box Rat) : (optional above useLeft useRight body).box.Deep := by
  cases above
  · cases useRight <;> refine deep_normalize.mpr (Deep.includePoint (deep_passing ?_ rfl ?_) _) <;>
      cases useLeft <;> norm_num [setYAnchor]
  · refine deep_normalize.mpr (Deep.includePoint (deep_passing ?_ rfl ?_) _) <;>
      norm_num [setYAnchor]

theorem deep_loop (he : e.Deep) : (loop e).box.Deep := by
  rw [loop, deep_normalize]
  exact ((deep_moveLAnchor.mpr he).includeBox_of_row (by simp)).includePoint _

theorem deep_separatedLoop (he : e.Deep) (separator : Box Rat) :
    (separatedLoop e separator).box.Deep := by
  rw [separatedLoop, deep_normalize]
  exact (((deep_moveLAnchor.mpr he).includeBox_of_row (by simp)).includeBox _).includePoint _

end Hung

section Moved

theorem moved_fan (es : List (Box Rat)) : List.Forall₂ Moved es (fan direction es).parts :=
  forall₂_moved (sound_fan es).sizes (map_fan moveBy_yAnchor es)

theorem moved_stack (es : List (Box Rat)) :
    List.Forall₂ Moved es (stack above useLeft useRight es).parts :=
  forall₂_moved (sound_stack es).sizes (map_stack moveBy_yAnchor es)

theorem moved_sequence {rightwards : Bool} (hes : ∀ e ∈ es, 0 ≤ e.width) :
    List.Forall₂ Moved es (sequence rightwards es).parts :=
  forall₂_moved (sound_sequence hes).sizes (map_sequence moveBy_yAnchor es)

theorem moved_repetition (body : Box Rat) :
    List.Forall₂ Moved [body] (repetition above body).parts :=
  forall₂_moved (sound_repetition body).sizes (map_repetition moveBy_yAnchor body)

theorem moved_optional (body : Box Rat) :
    List.Forall₂ Moved [body] (optional above useLeft useRight body).parts :=
  forall₂_moved (sound_optional body).sizes (map_optional moveBy_yAnchor body)

theorem moved_loop (body : Box Rat) : List.Forall₂ Moved [body] (loop body).parts :=
  forall₂_moved (sound_loop body).sizes (map_loop moveBy_yAnchor body)

theorem moved_separatedLoop (body separator : Box Rat) :
    List.Forall₂ Moved [body, separator] (separatedLoop body separator).parts :=
  forall₂_moved (sound_separatedLoop body separator).sizes
    (map_separatedLoop moveBy_yAnchor body separator)

end Moved

theorem deep_sequence {rightwards : Bool} (hes : ∀ e ∈ es, e.Homed ∧ e.Deep) (hne : es ≠ []) :
    (sequence rightwards es).box.Deep := by
  have hwidths : ∀ e ∈ es, 0 ≤ e.width := fun e he => (hes e he).1.width_nonneg
  have hsound : (sequence rightwards es).Sound es := sound_sequence hwidths
  obtain ⟨first, hfirst, hrow⟩ : ∃ first ∈ (sequence rightwards es).parts,
      (sequence rightwards es).box.yAnchor = first.lAnchor.y := by
    rw [sequence]
    split
    · rename_i hparts
      have hlength := congrArg List.length hparts
      rw [length_normalize, length_chain, List.length_nil, List.length_eq_zero_iff] at hlength
      exact absurd hlength hne
    · rename_i first rest hparts
      exact ⟨first, hparts ▸ List.mem_cons_self, rfl⟩
  obtain ⟨e, he, hmoved⟩ := exists_of_mem_right (moved_sequence hwidths) hfirst
  refine ((hes e he).2.moved hmoved).grow (hsound.inside first hfirst) ?_
  rw [lAnchor_y, hsound.homed.y, zero_add, hrow]

end Placement

section Expressions

open Placement

variable {n : Node} {f : Flow} {above : Bool} {ss : List (Sized Rat)} {p : Placement Rat}

/-- What moves leave alone is found again in the placed children of any node but a production. -/
theorem Arranges.map_parts {β : Type} {g : Box Rat → β} (hg : ∀ b δ, g (b.moveBy δ) = g b)
    (h : Arranges n f above ss p) (hn : ∀ id name expression, n ≠ .production id name expression) :
    p.parts.map g = (ss.map Sized.box).map g := by
  cases h with
  | grammar _ _ _ hheading hclosing =>
      rw [map_headed hg, List.map_append (f := Sized.box), List.map_cons, map_box_eq_toList hheading,
        map_box_eq_toList hclosing]
  | productionList => exact map_pile hg _ _
  | production => exact absurd rfl (hn _ _ _)
  | fan => exact map_fan hg _
  | stack => exact map_stack hg _
  | sequence => exact map_sequence hg _
  | repetition => exact map_repetition hg _
  | loop => exact map_loop hg _
  | separatedLoop => exact map_separatedLoop hg _ _
  | optional => exact map_optional hg _
  | leaf => rfl

theorem Arranges.moved (h : Arranges n f above ss p) (hn : n.IsExpression)
    (hss : ∀ s ∈ ss, s.box.Homed) : List.Forall₂ (fun s b => s.box.Moved b) ss p.parts := by
  rw [← List.forall₂_map_left_iff (f := Sized.box)]
  cases h with
  | grammar | productionList | production => cases hn
  | fan => exact moved_fan _
  | stack => exact moved_stack _
  | sequence =>
      refine moved_sequence ?_
      rw [List.forall_mem_map]
      exact fun s hs => (hss s hs).width_nonneg
  | repetition => exact moved_repetition _
  | loop => exact moved_loop _
  | separatedLoop => exact moved_separatedLoop _ _
  | optional => exact moved_optional _
  | leaf => exact .nil

theorem Arranges.deep (h : Arranges n f above ss p) (hn : n.IsExpression)
    (hlength : ss.length = n.children.length) (hss : ∀ s ∈ ss, s.box.Homed ∧ s.box.Deep) :
    p.box.Deep := by
  cases h with
  | grammar | productionList | production => cases hn
  | fan => exact (clear_fan _ _).1
  | stack _ _ hne =>
      cases ss with
      | nil => exact absurd (List.length_eq_zero_iff.mp hlength.symm) hne
      | cons s ss => exact deep_stack (hss s List.mem_cons_self).2
  | sequence =>
      cases hn with
      | sequence _ hmany _ =>
          refine deep_sequence (List.forall_mem_map.mpr hss) ?_
          rintro hnil
          rw [List.map_eq_nil_iff.mp hnil] at hlength
          simp only [Node.children, List.length_nil] at hlength
          omega
  | repetition => exact deep_repetition _
  | loop => exact deep_loop (hss _ List.mem_cons_self).2
  | separatedLoop => exact deep_separatedLoop (hss _ List.mem_cons_self).2 _
  | optional => exact deep_optional _
  | leaf => exact deep_leaf _

variable {t : BoxTable Rat} {k : Nat} {v : Visit} {s : Sized Rat} {b : Box Rat}

/-- The anchor row of an expression that stands in a table passes through its box, with room for arcs above
and below it. -/
theorem Visit.Stands.deep (hn : v.node.IsExpression) (h : v.Stands t k s b) : s.box.Deep := by
  generalize hnode : v.node = n at hn
  induction n using Node.descend generalizing v k s b with
  | _ n ih =>
      subst hnode
      have hcomplete := hn.isComplete
      obtain ⟨ss, p, hholds⟩ := h.holds hcomplete
      rw [hholds.size]
      refine hholds.arranges.deep hn ?_ fun s' hs' => ⟨hholds.homed hcomplete s' hs', ?_⟩
      · rw [← map_node_onward .right v.flow, List.length_map, hholds.measures.length_eq]
      · obtain ⟨v', hv', b', hstands⟩ := hholds.exists_stands_of_mem hs'
        have hm := Visit.node_mem_children hv'
        exact ih v'.node hm hstands rfl (hn.of_mem_children hm)

theorem Visit.Stands.level (hn : v.node.IsExpression) (h : v.Stands t k s b) : s.box.Level :=
  (h.deep hn).level

end Expressions

end Railroad
