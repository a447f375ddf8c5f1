import Railroad.Proofs.Layout.Clearance
/-!
The rows that parts stand on: the items of a sequence all stand on its anchor row, and the alternatives of a
stack stand below one another, the first on the anchor row unless the stack is entered from above.
-/
namespace Railroad

/-- The box ends above another one. -/
def Box.Above (b e : Box Rat) : Prop :=
  b.br.y ≤ e.tl.y

namespace Box

variable {b e : Box Rat}

theorem above_moveBy_iff (δ : Point Rat) : (b.moveBy δ).Above (e.moveBy δ) ↔ b.Above e := by
  simp [Above]

theorem row_moveLAnchor (p : Point Rat) : (b.moveLAnchor p).lAnchor.y = p.y := by
  simp

theorem row_moveRAnchor (p : Point Rat) : (b.moveRAnchor p).lAnchor.y = p.y := by
  simp

/-- The anchor row of a box that stands above another one does not lie below that of the other. -/
theorem Above.row_le (h : b.Above e) (hb : b.Level) (he : e.Level) : b.lAnchor.y ≤ e.lAnchor.y :=
  hb.2.trans (h.trans he.1)

end Box

namespace Placement

open Box

variable {box b : Box Rat} {es : List (Box Rat)} {p : Placement Rat}

theorem normalize_tl (p : Placement Rat) : p.normalize.box.tl = .zero := by
  ext <;> simp [normalize, Box.normalize, homing]

/-- A first part that stands on the anchor row still does so once box and parts have moved home. -/
theorem row_head_normalize (h : ∀ b ∈ p.parts.head?, b.lAnchor.y = p.box.lAnchor.y) :
    ∀ b ∈ p.normalize.parts.head?, b.lAnchor.y = p.normalize.box.lAnchor.y := by
  intro b hb
  rw [normalize, List.head?_map, Option.mem_def, Option.map_eq_some_iff] at hb
  obtain ⟨c, hc, rfl⟩ := hb
  rw [row_moveBy, h c hc, normalize, Box.normalize, row_moveBy]

section Sequences

variable {rightwards : Bool}

theorem row_of_mem_chain {anchor : Point Rat} (h : b ∈ (chain rightwards box anchor es).parts) :
    b.lAnchor.y = anchor.y := by
  induction es generalizing box anchor with
  | nil => cases h
  | cons e es ih =>
      cases rightwards with
      | true =>
          rcases List.mem_cons.mp h with rfl | h
          · exact row_moveLAnchor anchor
          · exact (ih h).trans (row_moveLAnchor (b := e) anchor)
      | false =>
          rcases List.mem_cons.mp h with rfl | h
          · exact row_moveRAnchor anchor
          · exact (ih h).trans (row_moveRAnchor (b := e) anchor)

/-- The items of a sequence stand on its anchor row. -/
theorem row_of_mem_sequence (h : b ∈ (sequence rightwards es).parts) :
    b.lAnchor.y = (sequence rightwards es).box.lAnchor.y := by
  rw [sequence] at h ⊢
  generalize hchain : chain rightwards Metrics.newBox
    (if rightwards then Metrics.newBox.lAnchor else Metrics.newBox.rAnchor) es = inner at h ⊢
  have hrows : ∀ c ∈ inner.normalize.parts, ∀ c' ∈ inner.normalize.parts,
      c.lAnchor.y = c'.lAnchor.y := by
    subst hchain
    simp only [normalize, List.forall_mem_map, row_moveBy]
    intro c hc c' hc'
    rw [row_of_mem_chain hc, row_of_mem_chain hc']
  split at h
  · rename_i hparts
    rw [hparts] at h
    cases h
  · rename_i first rest hparts
    have hfirst := hrows b h first (by rw [hparts]; exact List.mem_cons_self)
    rw [hparts]
    dsimp only
    rw [hfirst, lAnchor_y (Box.setYAnchor _ _), setYAnchor_tl, setYAnchor_yAnchor, normalize_tl,
      Point.zero_y, zero_add]

end Sequences

section Stacks

variable {above useLeft useRight : Bool}

theorem pairwise_stackFrom (index : Nat) : (stackFrom above index box es).parts.Pairwise Above := by
  induction es generalizing index box with
  | nil => exact .nil
  | cons e es ih =>
      refine List.pairwise_cons.mpr ⟨fun c hc => ?_, ih _⟩
      exact (inside_includeBox_right _ _).bottom.trans (below_of_mem_stackFrom (Nat.succ_pos _) hc)

theorem pairwise_stack : (stack above useLeft useRight es).parts.Pairwise Above := by
  rw [stack, normalize, List.pairwise_map]
  exact (pairwise_stackFrom 0).imp (above_moveBy_iff _).mpr

theorem row_head_stack : ∀ b ∈ (stack above useLeft useRight es).parts.head?,
    b.lAnchor.y = (stack above useLeft useRight es).box.lAnchor.y := by
  rw [stack]
  refine row_head_normalize ?_
  cases es with
  | nil =>
      intro b hb
      cases hb
  | cons e es =>
      rintro b ⟨rfl⟩
      rw [if_pos rfl, row_moveLAnchor]
      cases above <;> cases useLeft <;> cases useRight <;>
        simp only [row_includePoint, row_stackFrom, if_true, if_false, Bool.false_eq_true]

end Stacks

/-- Alternatives that stand on top of one another in a box. -/
structure Stacked (box : Box Rat) (alternatives : List (Box Rat)) (above useLeft useRight : Bool) :
    Prop where
  level : ∀ b ∈ alternatives, b.Level
  inside : ∀ b ∈ alternatives, b.Inside box
  order : alternatives.Pairwise Above
  head : above = false → ∀ b ∈ alternatives.head?, b.lAnchor.y = box.lAnchor.y
  hangs : above = false → ∀ b ∈ alternatives.tail, box.Hangs b useLeft useRight

namespace Stacked

variable {last : Box Rat} {above useLeft useRight : Bool}

/-- Each alternative but the last stands above the last one. -/
theorem above_last {bs : List (Box Rat)} (h : Stacked box (bs ++ [last]) above useLeft useRight)
    (hb : b ∈ bs) : b.Above last :=
  (List.pairwise_append.mp h.order).2.2 b hb last (List.mem_singleton_self _)

theorem row_le_last (h : Stacked box es above useLeft useRight) (hlast : last ∈ es.getLast?)
    (hb : b ∈ es) : b.lAnchor.y ≤ last.lAnchor.y := by
  have hlevel := h.level last (List.mem_of_getLast? hlast)
  obtain ⟨bs, rfl⟩ := List.getLast?_eq_some_iff.mp hlast
  rcases List.mem_append.mp hb with hb' | hb'
  · exact (h.above_last hb').row_le (h.level b hb) hlevel
  · rw [List.mem_singleton.mp hb']

theorem row_le (h : Stacked box es false useLeft useRight) (hb : b ∈ es) :
    box.lAnchor.y ≤ b.lAnchor.y := by
  cases es with
  | nil => cases hb
  | cons e es =>
      rcases List.mem_cons.mp hb with rfl | hb
      · exact (h.head rfl b rfl).ge
      · linarith [(h.hangs rfl b hb).row]

end Stacked

section Insets

variable {rightwards above useLeft useRight : Bool} {direction : Direction}

theorem xAnchor_row : (row box es).box.xAnchor = box.xAnchor := by
  induction es generalizing box with
  | nil => rfl
  | cons e es ih => exact ih

theorem xAnchor_stackFrom (index : Nat) :
    (stackFrom above index box es).box.xAnchor = box.xAnchor := by
  induction es generalizing index box with
  | nil => rfl
  | cons e es ih => exact ih (index + 1)

theorem xAnchor_chain {anchor : Point Rat} :
    (chain rightwards box anchor es).box.xAnchor = box.xAnchor := by
  induction es generalizing box anchor with
  | nil => rfl
  | cons e es ih => exact ih

theorem xAnchor_stack : (stack above useLeft useRight es).box.xAnchor = 10 := by
  cases above <;> cases useLeft <;> cases useRight <;> exact xAnchor_stackFrom 0

theorem xAnchor_sequence : (sequence rightwards es).box.xAnchor = 10 := by
  rw [sequence]
  split <;> exact xAnchor_chain

theorem xAnchor_repetition (body : Box Rat) : (repetition above body).box.xAnchor = 10 := by
  cases above <;> rfl

theorem xAnchor_optional (body : Box Rat) :
    (optional above useLeft useRight body).box.xAnchor = 10 := by
  cases above <;> rfl

theorem xAnchor_leaf (letters : Nat) : (leaf direction letters : Box Rat).xAnchor = 10 := by
  simp only [leaf]
  split
  · rfl
  · split <;> rfl

end Insets

end Placement

section Insets

open Placement

variable {n : Node} {f : Flow} {above : Bool} {ss : List (Sized Rat)} {p : Placement Rat}

/-- Vertical connectors attach at the same distance from the sides to all boxes of expressions. -/
theorem Arranges.xAnchor (h : Arranges n f above ss p) (hn : n.IsExpression) :
    p.box.xAnchor = 10 ∧ p.parts.map Box.xAnchor = ss.map (·.box.xAnchor) := by
  have hproduction : ∀ id name expression, n ≠ .production id name expression := by
    rintro _ _ _ rfl
    cases hn
  refine ⟨?_, (h.map_parts Box.moveBy_xAnchor hproduction).trans (List.map_map ..)⟩
  cases h with
  | grammar | productionList | production => cases hn
  | fan => exact xAnchor_row
  | stack => exact xAnchor_stack
  | sequence => exact xAnchor_sequence
  | repetition => exact xAnchor_repetition _
  | optional => exact xAnchor_optional _
  | loop | separatedLoop => rfl
  | leaf => exact xAnchor_leaf _

variable {t : BoxTable Rat} {k : Nat} {v : Visit} {s : Sized Rat} {b : Box Rat}

theorem Visit.Stands.xAnchor (hn : v.node.IsExpression) (h : v.Stands t k s b) :
    s.box.xAnchor = 10 := by
  obtain ⟨ss, p, -, hsize, -, harranges, -, -⟩ := h.holds hn.isComplete
  rw [hsize]
  exact (harranges.xAnchor hn).1

end Insets

end Railroad
