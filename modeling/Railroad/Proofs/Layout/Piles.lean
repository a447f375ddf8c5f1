import Railroad.Proofs.Layout.Clearance
/-!
The parts of a grammar stand on top of one another: title, rules and comment, and the rules in their list.
Whatever is absent takes up no room, so in exact coordinates both are the same pile of boxes.
-/
namespace Railroad

/-- Boxes on top of one another, flush left at zero, from some row on: each begins on the row where the one
above it ends. -/
inductive Box.Stacked : Rat → List (Box Rat) → Prop
  | nil (y : Rat) : Stacked y []
  | cons {b : Box Rat} {bs : List (Box Rat)} {y : Rat} (left : b.tl.x = 0) (top : b.tl.y = y)
      (width : 0 ≤ b.width) (height : 0 ≤ b.height) (below : Stacked b.br.y bs) : Stacked y (b :: bs)

namespace Box

variable {b e : Box Rat}

theorem Homed.height_nonneg (h : b.Homed) : 0 ≤ b.height := by
  rw [height_eq, h.y, sub_zero]
  exact h.height

/-- A box at home may as well be moved there. -/
theorem Homed.moveTo_zero (h : b.Homed) : b.moveTo .zero = b := by
  ext <;> simp [moveTo, h.x, h.y]

/-- What stands below a box at home makes it higher, and wider if it is wider itself. -/
theorem Homed.includeBox_below (h : b.Homed) (he : e.Homed) :
    (b.includeBox (e.moveTo b.blCorner)).Homed ∧
      (b.includeBox (e.moveTo b.blCorner)).br.x = max b.br.x e.width ∧
      (b.includeBox (e.moveTo b.blCorner)).br.y = b.br.y + e.height := by
  have hwidth := he.width_nonneg
  have hheight := he.height_nonneg
  refine ⟨⟨?_, ?_, ?_, ?_⟩, ?_, ?_⟩
  · simp [h.x]
  · simp [h.y, h.height]
  · simp [h.width]
  · simp [h.height]
  · simp [h.x]
  · simp [hheight]

/-- The bottom-left corner of a pile is that of the box at its bottom. -/
theorem Homed.blCorner_includeBox (h : b.Homed) (he : e.Homed) :
    (b.includeBox (e.moveTo b.blCorner)).blCorner = (e.moveTo b.blCorner).blCorner := by
  obtain ⟨hhomed, -, hbottom⟩ := h.includeBox_below he
  ext
  · rw [blCorner_x, blCorner_x, hhomed.x, moveTo_tl, blCorner_x, h.x]
  · rw [blCorner_y, blCorner_y, hbottom, moveTo_br_y, blCorner_y]

/-- An empty box below takes up no room. -/
theorem Homed.includeBox_newBox (h : b.Homed) :
    b.includeBox (Metrics.newBox.moveTo b.blCorner) = b := by
  have hempty : (Metrics.newBox : Box Rat).width = 0 ∧ (Metrics.newBox : Box Rat).height = 0 := by
    simp [width_eq, height_eq]
  have htl : (b.includeBox (Metrics.newBox.moveTo b.blCorner)).tl = b.tl := by
    ext <;> simp [h.y, h.height]
  have hrow := includeBox_row b (Metrics.newBox.moveTo b.blCorner)
  rw [htl, add_right_inj] at hrow
  ext
  · rw [htl]
  · rw [htl]
  · simp [hempty, h.x, h.width]
  · simp [hempty]
  · rfl
  · exact hrow

end Box

namespace Placement

open Box

variable {box title rules comment : Box Rat} {es : List (Box Rat)}

theorem stacked_pile (hbox : box.Homed) (hes : ∀ e ∈ es, e.Homed) :
    Stacked box.br.y (pile box es).parts := by
  induction es generalizing box with
  | nil => exact .nil _
  | cons e es ih =>
      rw [List.forall_mem_cons] at hes
      obtain ⟨hhomed, -, hbottom⟩ := hbox.includeBox_below hes.1
      have hbelow := ih hhomed hes.2
      rw [hbottom] at hbelow
      refine .cons ?_ ?_ ?_ ?_ ?_
      · rw [moveTo_tl, blCorner_x, hbox.x]
      · rw [moveTo_tl, blCorner_y]
      · exact (sameSize_moveTo e box.blCorner).1 ▸ hes.1.width_nonneg
      · exact (sameSize_moveTo e box.blCorner).2 ▸ hes.1.height_nonneg
      · rw [moveTo_br_y, blCorner_y]
        exact hbelow

/-- A pile grows by the height of each of its boxes, and is as wide as the widest. -/
theorem br_pile (hbox : box.Homed) (hes : ∀ e ∈ es, e.Homed) :
    (pile box es).box.br.y = box.br.y + (es.map Box.height).sum ∧
      (pile box es).box.br.x = max box.br.x ((es.map Box.width).foldr max 0) := by
  induction es generalizing box with
  | nil =>
      constructor
      · exact (add_zero _).symm
      · exact (max_eq_left hbox.width).symm
  | cons e es ih =>
      rw [List.forall_mem_cons] at hes
      obtain ⟨hhomed, hright, hbottom⟩ := hbox.includeBox_below hes.1
      obtain ⟨hheight, hwidth⟩ := ih hhomed hes.2
      rw [pile]
      constructor
      · rw [hheight, hbottom, List.map_cons, List.sum_cons, add_assoc]
      · rw [hwidth, hright, List.map_cons, List.foldr_cons, max_assoc]

/-- A pile that may end with a comment: an absent one is an empty box at its bottom. -/
theorem pile_rules_comment (hbox : box.Homed) (hr : rules.Homed) (comment : Option (Box Rat)) :
    pile box (rules :: comment.toList) =
      ⟨(pile box [rules, comment.getD Metrics.newBox]).box, rules.moveTo box.blCorner ::
        (comment.map (·.moveTo (rules.moveTo box.blCorner).blCorner)).toList⟩ := by
  cases comment with
  | none =>
      have hgrown := (hbox.includeBox_below hr).1
      simp only [pile, Option.toList_none, Option.getD_none, Option.map_none, hgrown.includeBox_newBox]
  | some k =>
      simp only [pile, Option.toList_some, Option.getD_some, Option.map_some,
        hbox.blCorner_includeBox hr]

/-- Title, rules and comment are piled up, and what is absent leaves the pile as it is. -/
theorem headed_eq_pile {title comment : Option (Box Rat)} (ht : ∀ b ∈ title, b.Homed)
    (hr : rules.Homed) :
    headed title rules comment = pile Metrics.newBox (title.toList ++ rules :: comment.toList) := by
  cases title with
  | none =>
      have hmove : (Metrics.newBox : Box Rat).moveTo (Metrics.newBox : Box Rat).blCorner =
        Metrics.newBox := homed_newBox.moveTo_zero
      have hempty := homed_newBox.includeBox_newBox
      rw [hmove] at hempty
      have hcorner := homed_newBox.blCorner_includeBox hr
      rw [Option.toList_none, List.nil_append, pile_rules_comment homed_newBox hr]
      simp only [headed, heading, pile, Option.getD_none, hempty, hcorner, Option.toList_none,
        List.nil_append]
  | some t =>
      have hmove : t.moveTo (Metrics.newBox : Box Rat).blCorner = t := (ht t rfl).moveTo_zero
      have hgrown := (homed_newBox.includeBox_below (ht t rfl)).1
      have hcorner := homed_newBox.blCorner_includeBox (ht t rfl)
      rw [hmove] at hgrown hcorner
      have hbelow := hgrown.blCorner_includeBox hr
      rw [hcorner] at hbelow
      rw [Option.toList_some, List.singleton_append, pile, hmove, pile_rules_comment hgrown hr]
      simp only [headed, heading, pile, Option.getD_some, hcorner, hbelow, Option.toList_some,
        List.singleton_append]

/-- From the empty box on, a pile is as high as all its boxes together, and as wide as the widest. -/
theorem size_pile (hes : ∀ e ∈ es, e.Homed) :
    (pile Metrics.newBox es).box.height = ((pile Metrics.newBox es).parts.map Box.height).sum ∧
      (pile Metrics.newBox es).box.width =
        ((pile Metrics.newBox es).parts.map Box.width).foldr max 0 := by
  obtain ⟨hheight, hwidth⟩ := br_pile homed_newBox hes
  have htl : (pile Metrics.newBox es).box.tl = .zero := tl_pile (by simp)
  rw [map_pile fun b δ => (sameSize_moveBy b δ).2.symm, map_pile fun b δ => (sameSize_moveBy b δ).1.symm]
  constructor
  · rw [height_eq, hheight, htl, Metrics.newBox_br, Point.zero_y, sub_zero, zero_add]
  · have hnonneg : 0 ≤ (es.map Box.width).foldr max 0 := by
      cases es with
      | nil => exact le_rfl
      | cons e es =>
          rw [List.forall_mem_cons] at hes
          exact hes.1.width_nonneg.trans (le_max_left _ _)
    rw [width_eq, hwidth, htl, Metrics.newBox_br, Point.zero_x, sub_zero, max_eq_right hnonneg]

end Placement

/-- A grammar, and a list of rules, piles up its parts. -/
def Node.PilesUp : Node → Prop
  | grammar .. | productionList .. => True
  | _ => False

theorem Arranges.eq_pile {n : Node} {f : Flow} {above : Bool} {ss : List (Sized Rat)} {p : Placement Rat}
    (h : Arranges n f above ss p) (hn : n.PilesUp) (hss : ∀ s ∈ ss, s.box.Homed) :
    p = .pile Metrics.newBox (ss.map Sized.box) := by
  cases h with
  | @grammar _ title comment _ _ _ heading closing rules hheading hclosing =>
      rw [List.map_append, List.map_cons, map_box_eq_toList hheading, map_box_eq_toList hclosing]
      refine Placement.headed_eq_pile ?_ (hss rules (by simp))
      intro b hb
      obtain ⟨s, hs, rfl⟩ := Option.map_eq_some_iff.mp hb
      exact hss s (List.mem_append_left _ (List.mem_of_mem_head? hs))
  | productionList => rfl
  | leaf htext => cases n <;> cases htext <;> cases hn
  | _ => cases hn

section Standing

variable {t : BoxTable Rat} {k : Nat} {v : Visit} {s : Sized Rat} {b : Box Rat} {n : Node}

/-- Every node below one that stands in a table stands there too, in a box of the size that it is measured
with. -/
theorem Visit.Stands.exists_holds (hcomplete : v.node.isComplete = true) (h : v.Stands t k s b)
    (hsize : s.box.SameSize b) (hn : n ∈ v.node.preorder) :
    ∃ (j : Nat) (v' : Visit) (s' : Sized Rat) (b' : Box Rat) (ss : List (Sized Rat)) (p : Placement Rat),
      v'.node = n ∧ n.isComplete = true ∧ v'.Holds t j s' b' ss p ∧ s'.box.SameSize b' := by
  generalize hnode : v.node = m at hcomplete hn
  induction m using Node.descend generalizing v k s b with
  | _ m ih =>
      subst hnode
      rcases Node.mem_preorder_iff.mp hn with rfl | ⟨l, hl, hn⟩
      · obtain ⟨ss, p, hholds⟩ := h.holds hcomplete
        exact ⟨k, v, s, b, ss, p, rfl, hcomplete, hholds, hsize⟩
      · obtain ⟨v', s', b', hv', hstands, hsize'⟩ := (h.nests hcomplete hsize).2 l hl
        exact ih l hl hstands hsize' hv' (((Node.isComplete_iff_children _).mp hcomplete).2 l hl) hn

end Standing

/-- The boxes of a node's children are on top of one another in the box of the node, which is as high as all
of them together and as wide as the widest. -/
def BoxTable.Piles (t : BoxTable Rat) (n : Node) (children : List Node) : Prop :=
  ∃ (b : Box Rat) (bs : List (Box Rat)), t.box? n = some b ∧ children.map t.box? = bs.map some ∧
    Box.Stacked 0 bs ∧ b.height = (bs.map Box.height).sum ∧ b.width = (bs.map Box.width).foldr max 0

section Layouts

variable {root n : Node} {direction : Direction} {table : BoxTable Rat} {e : Engine Rat}

theorem piles_of_layout (h : Engine.layout root direction = (.ok table, e)) (hn : n ∈ root.walk)
    (hpiles : n.PilesUp) : table.Piles n n.children := by
  have hcomplete := (Engine.conditions_of_layout h).1
  rw [Node.walk_eq_preorder] at hn
  obtain ⟨k, v, s, b, ss, p, rfl, hcomplete', hholds, hsize⟩ :=
    (stands_of_layout h).exists_holds hcomplete ⟨rfl, rfl⟩ hn
  have hhomed := hholds.homed hcomplete'
  have hboxes : ∀ e ∈ ss.map Sized.box, e.Homed := List.forall_mem_map.mpr hhomed
  have hpile := hholds.arranges.eq_pile hpiles hhomed
  obtain ⟨hheight, hwidth⟩ := Placement.size_pile hboxes
  have hstacked := Placement.stacked_pile Placement.homed_newBox hboxes
  rw [← hpile] at hheight hwidth hstacked
  refine ⟨b, p.parts, hholds.box?, hholds.map_box? hcomplete', hstacked, ?_, ?_⟩
  · rw [← hsize.2, hholds.size, hheight]
  · rw [← hsize.1, hholds.size, hwidth]

/-- In the exact table of a tree that is laid out, the root stands at the origin, title, rules and comment of
a grammar stand on top of one another at the left edge of its box, and so do the rules in their list.  The
box is as high as all that stands in it together, and as wide as the widest. -/
theorem parts_piled_up (h : Engine.layout root direction = (.ok table, e)) :
    (∃ b, table.box? root = some b ∧ b.tl = .zero) ∧
    (∀ id title productions comment, .grammar id title productions comment ∈ root.walk →
      table.Piles (.grammar id title productions comment)
        (title.toList ++ productions.toList ++ comment.toList)) ∧
    ∀ id productions, .productionList id productions ∈ root.walk →
      table.Piles (.productionList id productions) productions := by
  refine ⟨?_, fun _ _ _ _ hn => piles_of_layout h hn trivial, fun _ _ hn => piles_of_layout h hn trivial⟩
  have hcomplete := (Engine.conditions_of_layout h).1
  obtain ⟨ss, p, hholds⟩ := (stands_of_layout h).holds hcomplete
  have hhomed := homed_measure hcomplete (.new direction) 0 false
  refine ⟨_, hholds.box?, ?_⟩
  ext
  · exact hhomed.x
  · exact hhomed.y

/-- A title, two rules, of which the second is longer, and no comment. -/
def titledRules : Node :=
  .grammar 8 (some (.literal 0 "t" .title)) (some (.productionList 7
    [.production 3 (some (.identifier 2 "a")) (some (.literal 1 "b" .quoted)),
      .production 6 (some (.identifier 5 "c")) (some (.literal 4 "longer" .quoted))])) none

theorem parts_piled_up_titled : ∃ (table : BoxTable Rat) (e : Engine Rat),
    Engine.layout titledRules .none = (.ok table, e) ∧
      (∃ b, table.box? titledRules = some b ∧ b.tl = .zero) ∧
      (∀ id title productions comment, .grammar id title productions comment ∈ titledRules.walk →
        table.Piles (.grammar id title productions comment)
          (title.toList ++ productions.toList ++ comment.toList)) ∧
      ∀ id productions, .productionList id productions ∈ titledRules.walk →
        table.Piles (.productionList id productions) productions := by
  have hcomplete : titledRules.isComplete = true := by decide
  obtain ⟨table, e, hlayout⟩ := Engine.layout_of_complete (α := Rat) hcomplete
    (by decide) (by decide) .none
  exact ⟨table, e, hlayout, parts_piled_up hlayout⟩

end Layouts

end Railroad
