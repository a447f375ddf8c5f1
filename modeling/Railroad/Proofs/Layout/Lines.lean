import Mathlib.Data.List.Chain
import Mathlib.Logic.Relation
import Railroad.Proofs.Layout.Descent
import Railroad.Proofs.Layout.Nesting
import Railroad.Proofs.Layout.Rows
/-!
The line that runs straight through a node.  The items of a sequence are joined to one another by their
anchors and take up its whole width; the items of a sequence, the body of a loop and the first alternative of
a stack stand on the anchor row of the node, and so the line goes on in the nodes inside one another.

The name of a rule is the exception.  The production moves its anchor row down to the line that leads in
below the name, and leaves what is inside the name where it is.
-/
namespace Railroad

/-- The second of two boxes takes the line up where the first leaves it. -/
def Box.Joins (rightwards : Bool) (b e : Box Rat) : Prop :=
  if rightwards then e.lAnchor = b.rAnchor else e.rAnchor = b.lAnchor

/-- The children that the line through a node leads through. -/
def Node.through : Node → List Node
  | sequence _ items => items
  | alternation _ alternatives => if isFan alternatives then [] else alternatives.head?.toList
  | oneOrMore _ body _ => body.toList
  | _ => []

/-- The line through a node leads through another one inside it, at any depth. -/
def Node.LeadsThrough : Node → Node → Prop :=
  Relation.ReflTransGen fun n m => m ∈ n.through

/-- Some production of a tree has the node for its name. -/
def Node.Names (root n : Node) : Prop :=
  ∃ id expression, production id (some n) expression ∈ root.walk

namespace Box

variable {rightwards : Bool} {b e : Box Rat} {p : Point Rat}

theorem lAnchor_moveBy (b : Box Rat) (δ : Point Rat) :
    (b.moveBy δ).lAnchor = b.lAnchor.translate δ := by
  ext
  · rfl
  · exact row_moveBy

theorem rAnchor_moveBy (b : Box Rat) (δ : Point Rat) :
    (b.moveBy δ).rAnchor = b.rAnchor.translate δ := by
  ext
  · rfl
  · exact row_moveBy

theorem lAnchor_moveLAnchor (b : Box Rat) (p : Point Rat) : (b.moveLAnchor p).lAnchor = p := by
  ext <;> simp

theorem rAnchor_moveRAnchor (b : Box Rat) (p : Point Rat) : (b.moveRAnchor p).rAnchor = p := by
  ext <;> simp

theorem Joins.moveBy (h : Joins rightwards b e) (δ : Point Rat) :
    Joins rightwards (b.moveBy δ) (e.moveBy δ) := by
  unfold Joins at h ⊢
  rw [lAnchor_moveBy, rAnchor_moveBy, lAnchor_moveBy, rAnchor_moveBy]
  split at h
  · rw [if_pos ‹_›, h]
  · rw [if_neg ‹_›, h]

theorem width_moveBy (b : Box Rat) (δ : Point Rat) : (b.moveBy δ).width = b.width :=
  (sameSize_moveBy b δ).1.symm

end Box

namespace Placement

open Box

variable {rightwards : Bool} {box : Box Rat} {es : List (Box Rat)}

theorem isChain_chain (box : Box Rat) (anchor : Point Rat) :
    (chain rightwards box anchor es).parts.IsChain (Joins rightwards) := by
  induction es generalizing box anchor with
  | nil => exact .nil
  | cons e es ih =>
      refine List.isChain_cons.mpr ⟨?_, ih _ _⟩
      cases es with
      | nil =>
          intro b hb
          cases hb
      | cons e' es =>
          rintro b ⟨rfl⟩
          cases rightwards with
          | true => exact lAnchor_moveLAnchor e' _
          | false => exact rAnchor_moveRAnchor e' _

/-- A chain grows by the width of each of its items. -/
theorem width_chain {anchor : Point Rat} (hes : ∀ e ∈ es, 0 ≤ e.width) (hbox : 0 ≤ box.width)
    (hanchor : anchor.x = if rightwards then box.br.x else box.tl.x) :
    (chain rightwards box anchor es).box.width = box.width + (es.map Box.width).sum := by
  induction es generalizing box anchor with
  | nil => exact (add_zero _).symm
  | cons e es ih =>
      rw [List.forall_mem_cons] at hes
      obtain ⟨he, hes⟩ := hes
      have hgrow : ∀ {box' : Box Rat} {anchor' : Point Rat}, box'.width = box.width + e.width →
          (anchor'.x = if rightwards then box'.br.x else box'.tl.x) →
          (chain rightwards box' anchor' es).box.width =
            box.width + ((e :: es).map Box.width).sum := by
        intro box' anchor' hwidth hanchor'
        rw [ih hes (by linarith) hanchor', hwidth, List.map_cons, List.sum_cons, add_assoc]
      rw [width_eq] at hbox
      -- The anchor is on the side that the chain grows to, so the item is put next to the box.
      cases rightwards with
      | true =>
          rw [if_pos rfl] at hanchor
          have htl : (box.includeBox (e.moveLAnchor anchor)).tl.x = box.tl.x := by
            rw [includeBox_tl, Point.min_x, moveLAnchor_tl_x, hanchor]
            exact min_eq_left (by linarith)
          have hbr : (box.includeBox (e.moveLAnchor anchor)).br.x = box.br.x + e.width := by
            rw [includeBox_br, Point.max_x, moveLAnchor_br_x, hanchor]
            exact max_eq_right (by linarith)
          refine hgrow ?_ ?_
          · rw [if_pos rfl, width_eq, width_eq box, htl, hbr]
            ring
          · rw [if_pos rfl, if_pos rfl, if_pos rfl, hbr, rAnchor_x, moveLAnchor_br_x, hanchor]
      | false =>
          rw [if_neg Bool.false_ne_true] at hanchor
          have htl : (box.includeBox (e.moveRAnchor anchor)).tl.x = box.tl.x - e.width := by
            rw [includeBox_tl, Point.min_x, moveRAnchor_tl_x, hanchor]
            exact min_eq_right (by linarith)
          have hbr : (box.includeBox (e.moveRAnchor anchor)).br.x = box.br.x := by
            rw [includeBox_br, Point.max_x, moveRAnchor_br_x, hanchor]
            exact max_eq_left (by linarith)
          refine hgrow ?_ ?_
          · rw [if_neg Bool.false_ne_true, width_eq, width_eq box, htl, hbr]
            ring
          · rw [if_neg Bool.false_ne_true, if_neg Bool.false_ne_true, if_neg Bool.false_ne_true, htl,
              lAnchor_x, moveRAnchor_tl_x, hanchor]

/-- The items of a sequence are joined to one another. -/
theorem isChain_sequence : (sequence rightwards es).parts.IsChain (Joins rightwards) := by
  rw [parts_sequence, normalize, List.isChain_map]
  exact (isChain_chain _ _).imp fun _ _ h => h.moveBy _

theorem width_sequence (hes : ∀ e ∈ es, 0 ≤ e.width) :
    ((sequence rightwards es).parts.map Box.width).sum = (sequence rightwards es).box.width := by
  have hbox : (sequence rightwards es).box.width = (chain rightwards Metrics.newBox
      (if rightwards then Metrics.newBox.lAnchor else Metrics.newBox.rAnchor) es).box.width := by
    rw [sequence]
    split <;> exact width_moveBy _ _
  rw [map_sequence width_moveBy, hbox, width_chain hes]
  · rw [width_eq, Metrics.newBox_br, Metrics.newBox_tl, sub_self, zero_add]
  · rw [width_eq, Metrics.newBox_br, Metrics.newBox_tl, sub_self]
  · cases rightwards <;> rfl

theorem row_loop (body : Box Rat) :
    ∀ b ∈ (loop body).parts.head?, b.lAnchor.y = (loop body).box.lAnchor.y := by
  refine row_head_normalize ?_
  rintro b ⟨rfl⟩
  rw [row_moveLAnchor, row_includePoint, row_includeBox]

theorem row_separatedLoop (body separator : Box Rat) :
    ∀ b ∈ (separatedLoop body separator).parts.head?,
      b.lAnchor.y = (separatedLoop body separator).box.lAnchor.y := by
  refine row_head_normalize ?_
  rintro b ⟨rfl⟩
  rw [row_moveLAnchor, row_includePoint, row_includeBox, row_includeBox]

end Placement

section Arranged

open Placement

variable {n m : Node} {f : Flow} {above : Bool} {ss : List (Sized Rat)} {p : Placement Rat}

/-- The line through a node goes on on the same row in the children that it leads through. -/
theorem Arranges.row_through {t : BoxTable Rat} (h : Arranges n f above ss p)
    (hboxes : n.children.map t.box? = p.parts.map some) (hm : m ∈ n.through) :
    ∃ b, t.box? m = some b ∧ b.lAnchor.y = p.box.lAnchor.y := by
  -- The line leads through the first child, and through others only in a sequence.
  have hfirst : m ∈ n.children.head? → (∀ b ∈ p.parts.head?, b.lAnchor.y = p.box.lAnchor.y) →
      ∃ b, t.box? m = some b ∧ b.lAnchor.y = p.box.lAnchor.y := by
    intro hhead hrow
    have hbox := congrArg List.head? hboxes
    rw [List.head?_map, List.head?_map, hhead, Option.map_some, eq_comm, Option.map_eq_some_iff]
      at hbox
    obtain ⟨b, hb, hbox⟩ := hbox
    exact ⟨b, hbox.symm, hrow b hb⟩
  cases h with
  | grammar | productionList | production | repetition | optional => cases hm
  | fan _ hfan => simp [Node.through, hfan] at hm
  | stack _ hfan =>
      rw [Node.through, if_neg (by simp [hfan]), Option.mem_toList] at hm
      exact hfirst hm row_head_stack
  | sequence =>
      obtain ⟨b, hb, hbox⟩ := List.mem_map.mp (hboxes ▸ List.mem_map_of_mem (f := t.box?) hm)
      exact ⟨b, hbox.symm, row_of_mem_sequence hb⟩
  | loop =>
      obtain rfl := List.mem_singleton.mp hm
      exact hfirst rfl (row_loop _)
  | separatedLoop =>
      obtain rfl := List.mem_singleton.mp hm
      exact hfirst rfl (row_separatedLoop _ _)
  | leaf htext => cases n <;> cases htext <;> cases hm

end Arranged

section Standing

variable {t : BoxTable Rat} {k : Nat} {v : Visit} {s : Sized Rat} {b : Box Rat} {ss : List (Sized Rat)}
  {p : Placement Rat} {m : Node}

/-- A child keeps the anchor row that it is measured with, unless it is the name of a production. -/
theorem Visit.Holds.kept_or_name (h : v.Holds t k s b ss p) {v' : Visit} {x : Sized Rat × Box Rat}
    (hx : (v', x) ∈ (v.flow.onward .right v.node).zip (ss.zip p.parts)) :
    x.2.yAnchor = x.1.box.yAnchor ∨ ∃ id expression, v.node = .production id (some v'.node) expression := by
  have harranges := h.arranges
  by_cases hn : ∃ id name expression, v.node = .production id name expression
  · obtain ⟨id, name, expression, hn⟩ := hn
    rw [hn] at harranges hx ⊢
    obtain ⟨_, _, first, second, rfl, rfl, rfl, rfl⟩ := harranges.eq_of_production
    rcases List.mem_cons.mp hx with hx | hx
    · cases hx
      exact .inr ⟨_, _, rfl⟩
    · cases List.mem_singleton.mp hx
      exact .inl rfl
  · have hmap := harranges.map_parts Box.moveBy_yAnchor fun id name expression h => hn ⟨_, _, _, h⟩
    rw [List.map_map, ← List.forall₂_eq_eq_eq, List.forall₂_map_left_iff, List.forall₂_map_right_iff]
      at hmap
    exact .inl (List.forall₂_zip hmap.flip (List.of_mem_zip hx).2)

theorem Node.mem_children_of_mem_through {n : Node} (hm : m ∈ n.through) : m ∈ n.children := by
  cases n with
  | sequence => exact hm
  | alternation _ as =>
      rw [Node.through] at hm
      split at hm
      · cases hm
      · exact List.mem_of_mem_head? (Option.mem_toList.mp hm)
  | oneOrMore => exact List.mem_append_left _ hm
  | _ => cases hm

/-- Where the line leads on from a node that has kept its anchor row: to a child that has kept its own, and
stands on the row of the node. -/
theorem Visit.Stands.through (hcomplete : v.node.isComplete = true) (h : v.Stands t k s b)
    (hkept : b.yAnchor = s.box.yAnchor) (hm : m ∈ v.node.through) :
    ∃ (v' : Visit) (s' : Sized Rat) (b' : Box Rat), v'.node = m ∧ v'.Stands t (k + 1) s' b' ∧
      b'.yAnchor = s'.box.yAnchor ∧ t.box? m = some b' ∧ b'.lAnchor.y = b.yAnchor := by
  obtain ⟨ss, p, hholds⟩ := h.holds hcomplete
  obtain ⟨b', hbox, hrow⟩ := hholds.arranges.row_through (hholds.map_box? hcomplete) hm
  have hchild := Node.mem_children_of_mem_through hm
  obtain ⟨v', hv', rfl⟩ := exists_visit_of_child .right v.flow hchild
  obtain ⟨x, -, hx⟩ := exists_of_mem_left
    (List.forall₂_iff_zip.mpr ⟨hholds.parts.length_eq, fun {v' x} hx => hx⟩) hv'
  have hstands := List.forall₂_zip hholds.parts hx
  obtain ⟨_, _, hholds'⟩ := hstands.holds (((Node.isComplete_iff_children _).mp hcomplete).2 _ hchild)
  cases hbox.symm.trans hholds'.box?
  refine ⟨v', x.1, x.2, rfl, hstands, (hholds.kept_or_name hx).resolve_right ?_, hbox, ?_⟩
  · rintro ⟨id, expression, hn⟩
    rw [hn] at hm
    cases hm
  · have hhomed := (hholds.arranges.sound (hholds.homed hcomplete)).homed
    rw [hrow, Box.lAnchor_y, hhomed.y, zero_add, hkept, hholds.size]

/-- The line goes on straight through everything that it leads through. -/
theorem Visit.Stands.row_leadsThrough (hcomplete : v.node.isComplete = true) (h : v.Stands t k s b)
    (hkept : b.yAnchor = s.box.yAnchor) (hm : v.node.LeadsThrough m) (origin : Point Rat) :
    ∃ a, t.Lies origin v.node m a ∧ a.lAnchor.y = b.lAnchor.y + origin.y := by
  generalize hnode : v.node = n at hm
  induction hm using Relation.ReflTransGen.head_induction_on generalizing v k s b origin with
  | refl =>
      subst hnode
      obtain ⟨_, _, hholds⟩ := h.holds hcomplete
      exact ⟨b.moveBy origin, .here origin _ hholds.box?, Box.row_moveBy⟩
  | head hl _ ih =>
      subst hnode
      have hchild := Node.mem_children_of_mem_through hl
      obtain ⟨_, _, hholds⟩ := h.holds hcomplete
      obtain ⟨v', s', b', hv', hstands, hkept', -, hrow⟩ := h.through hcomplete hkept hl
      have hcomplete' := ((Node.isComplete_iff_children _).mp hcomplete).2 _ hchild
      obtain ⟨a, hlies, ha⟩ := ih (hv' ▸ hcomplete') hstands hkept' (b.tl.translate origin) hv'
      refine ⟨a, .under hholds.box? hchild hlies, ?_⟩
      rw [ha, hrow, Point.translate_y, Box.lAnchor_y]
      ring

end Standing

section Layouts

variable {root n : Node} {direction : Direction} {table : BoxTable Rat} {e : Engine Rat}

/-- A node of a tree that stands in a box as wide as it is measured, and on its own anchor row unless it is
a name. -/
structure Visit.Fits (root : Node) (v : Visit) (s : Sized Rat) (b : Box Rat) : Prop where
  mem : v.node ∈ root.preorder
  width : b.width = s.box.width
  row : b.yAnchor = s.box.yAnchor ∨ root.Names v.node

theorem Visit.Holds.fits {t : BoxTable Rat} {k : Nat} {v : Visit} {s : Sized Rat} {b : Box Rat}
    {ss : List (Sized Rat)} {p : Placement Rat} (hcomplete : v.node.isComplete = true)
    (h : v.Holds t k s b ss p) (hv : v.Fits root s b) (v' : Visit) (x : Sized Rat × Box Rat)
    (hx : (v', x) ∈ (v.flow.onward .right v.node).zip (ss.zip p.parts)) : v'.Fits root x.1 x.2 where
  mem := Node.mem_preorder_trans hv.mem
    ((Node.preorder_sublist (Visit.node_mem_children (List.of_mem_zip hx).1)).subset
      v'.node.mem_preorder_self)
  width := by
    have hsizes := (h.arranges.sound (h.homed hcomplete)).sizes
    rw [List.forall₂_map_left_iff] at hsizes
    exact (List.forall₂_zip hsizes (List.of_mem_zip hx).2).1.symm
  row := by
    refine (h.kept_or_name hx).imp_right ?_
    rintro ⟨id, expression, hn⟩
    exact ⟨id, expression, Node.walk_eq_preorder root ▸ hn ▸ hv.mem⟩

theorem Node.isComplete_of_mem_preorder {m : Node} (h : n.isComplete = true) (hm : m ∈ n.preorder) :
    m.isComplete = true :=
  (isComplete_iff_preorder m).mpr fun l hl =>
    (isComplete_iff_preorder n).mp h l (mem_preorder_trans hm hl)

/-- Every node that the size pass enters stands in the table, in the box of that step. -/
theorem stands_of_step (h : Engine.layout root direction = (.ok table, e)) {c : Context Rat}
    {above handsBack : Bool} {k : Nat} {box : Box Rat}
    (hn : .enter n c above handsBack k box ∈ (measure root (.new direction) 0 false).steps 0) :
    table.box? n = some box ∧ ∃ j s, (⟨n, c.flow, above, handsBack⟩ : Visit).Stands table j s box ∧
      Visit.Fits root ⟨n, c.flow, above, handsBack⟩ s box := by
  obtain ⟨hcomplete, -, hheight⟩ := Engine.conditions_of_layout h
  have hvisit := List.mem_map_of_mem (f := Step.visit?) hn
  rw [Sized.map_visit?_steps, visits_measure] at hvisit
  obtain ⟨j, s, box', hstands, hfits⟩ := (stands_of_layout h).exists_of_mem_tour
    (P := Visit.Fits root) Visit.Holds.fits hcomplete (by rwa [Nat.zero_add]) rfl
    ⟨root.mem_preorder_self, rfl, .inl rfl⟩ hvisit
  have hbox : table.box? n = some box := by
    obtain ⟨_, _, _, _, _, _, hst, hbox⟩ := BoxTable.boxes_of_fill (Engine.layout_eq_ok h).1 _ hn
    cases hst
    exact hbox
  obtain ⟨_, _, hholds⟩ := hstands.holds (Node.isComplete_of_mem_preorder hcomplete hfits.mem)
  cases hbox.symm.trans hholds.box?
  exact ⟨hbox, j, s, hstands, hfits⟩

/-- The name of a production stands on the line that leads in below it, whatever is inside it. -/
theorem yAnchor_of_names (h : Engine.layout root direction = (.ok table, e)) (hn : root.Names n)
    {b : Box Rat} (hb : table.box? n = some b) : b.yAnchor = Metrics.lineHeight + Metrics.padH := by
  obtain ⟨id, expression, hproduction⟩ := hn
  rw [Node.walk_eq_preorder] at hproduction
  obtain ⟨c, above, handsBack, k, box, hst, -⟩ := Engine.step_of_layout h hproduction
  obtain ⟨-, j, s, hstands, -⟩ := stands_of_step h hst
  have hcomplete :=
    Node.isComplete_of_mem_preorder (Engine.conditions_of_layout h).1 hproduction
  obtain ⟨ss, p, hholds⟩ := hstands.holds hcomplete
  have hboxes := hholds.map_box? hcomplete
  obtain ⟨_, _, first, second, hname, rfl, -, rfl⟩ := hholds.arranges.eq_of_production
  cases hname
  cases hb.symm.trans (List.cons.inj hboxes).1
  rfl

/-- The line through a node of a tree, which is entered heading in a direction and stands in a box. -/
structure BoxTable.Lined (t : BoxTable Rat) (root n : Node) (d : Direction) (b : Box Rat) : Prop where
  box : t.box? n = some b
  /-- Items are joined along the flow, and take up the whole width. -/
  items : ∀ id items, n = .sequence id items → ∃ bs : List (Box Rat), items.map t.box? = bs.map some ∧
    bs.IsChain (Box.Joins (d = .right)) ∧ (bs.map Box.width).sum = b.width
  /-- The children that the line leads through stand on the anchor row of the node. -/
  row : ¬ root.Names n → ∀ m ∈ n.through, ∃ c, t.box? m = some c ∧ c.lAnchor.y = b.yAnchor
  /-- At any depth the line is still on that row. -/
  straight : ¬ root.Names n → ∀ m, n.LeadsThrough m →
    ∃ a, t.Lies .zero n m a ∧ a.lAnchor.y = b.lAnchor.y
  name : root.Names n → b.yAnchor = Metrics.lineHeight + Metrics.padH

/-- In the exact table of a tree that is laid out, every node has a line: the items of a sequence are joined
to one another by their anchors, along the direction that it is entered in, and take up its width, and the
line goes on straight through the nodes inside one another, save for what is inside a name. -/
theorem lines_run_through (h : Engine.layout root direction = (.ok table, e)) :
    (∀ n ∈ root.walk, ∃ c above handsBack k b, .enter n c above handsBack k b ∈
      (measure root (.new direction : Context Rat) 0 false).steps 0) ∧
    ∀ n c above handsBack k b,
      .enter n c above handsBack k b ∈ (measure root (.new direction) 0 false).steps 0 →
        table.Lined root n c.live.direction b := by
  constructor
  · intro n hn
    rw [Node.walk_eq_preorder] at hn
    obtain ⟨c, above, handsBack, k, b, hst, -⟩ := Engine.step_of_layout h hn
    exact ⟨c, above, handsBack, k, b, hst⟩
  intro n c above handsBack k b hst
  obtain ⟨hbox, j, s, hstands, hfits⟩ := stands_of_step h hst
  have hcomplete := Node.isComplete_of_mem_preorder (Engine.conditions_of_layout h).1 hfits.mem
  refine ⟨hbox, ?_, fun hname m hm => ?_, fun hname m hm => ?_, fun hname => yAnchor_of_names h hname hbox⟩
  · rintro id items rfl
    obtain ⟨ss, p, hholds⟩ := hstands.holds hcomplete
    have hboxes := hholds.map_box? hcomplete
    have harranges := hholds.arranges
    have hsize := hfits.width.trans (congrArg Box.width hholds.size)
    have hwidths : ∀ e ∈ ss.map Sized.box, 0 ≤ e.width := by
      rw [List.forall_mem_map]
      exact fun s hs => (hholds.homed hcomplete s hs).width_nonneg
    cases harranges with
    | sequence =>
        exact ⟨_, hboxes, Placement.isChain_sequence, (Placement.width_sequence hwidths).trans hsize.symm⟩
    | leaf htext => cases htext
  · obtain ⟨_, _, b, -, -, -, hb, hrow⟩ :=
      hstands.through hcomplete (hfits.row.resolve_right hname) hm
    exact ⟨b, hb, hrow⟩
  · obtain ⟨a, hlies, hrow⟩ :=
      hstands.row_leadsThrough hcomplete (hfits.row.resolve_right hname) hm .zero
    exact ⟨a, hlies, hrow.trans (add_zero _)⟩

/-- A loop around two letters in a row, and a choice behind it. -/
def loopThenChoice : Node :=
  .sequence 7 [.oneOrMore 3 (some (.sequence 2 [.literal 0 "a" .quoted, .literal 1 "b" .quoted])) none,
    .alternation 6 [.literal 4 "c" .quoted, .identifier 5 "d"]]

theorem lines_run_through_loopThenChoice : ∃ (table : BoxTable Rat) (e : Engine Rat),
    Engine.layout loopThenChoice .right = (.ok table, e) ∧
      (∀ n ∈ loopThenChoice.walk, ∃ c above handsBack k b, .enter n c above handsBack k b ∈
        (measure loopThenChoice (.new .right : Context Rat) 0 false).steps 0) ∧
      ∀ n c above handsBack k b,
        .enter n c above handsBack k b ∈ (measure loopThenChoice (.new .right) 0 false).steps 0 →
          table.Lined loopThenChoice n c.live.direction b := by
  have hcomplete : loopThenChoice.isComplete = true := by decide
  obtain ⟨table, e, hlayout⟩ := Engine.layout_of_complete (α := Rat) hcomplete
    (by decide) (by decide) .right
  exact ⟨table, e, hlayout, lines_run_through hlayout⟩

/-- A sequence of one letter in the place of a name. -/
def namedBySequence : Node :=
  .production 3 (some (.sequence 1 [.literal 0 "a" .quoted])) (some (.literal 2 "b" .quoted))

/-- The line through the sequence leads in below the letter in it. -/
theorem name_leaves_line : ∃ (table : BoxTable Rat) (e : Engine Rat) (b b' : Box Rat),
    Engine.layout namedBySequence .none = (.ok table, e) ∧
      table.box? (.sequence 1 [.literal 0 "a" .quoted]) = some b ∧
      table.box? (.literal 0 "a" .quoted) = some b' ∧ b.yAnchor = 42 ∧ b'.lAnchor.y = 24 := by
  have hcomplete : namedBySequence.isComplete = true := by decide
  obtain ⟨table, e, hlayout⟩ := Engine.layout_of_complete (α := Rat) hcomplete
    (by decide) (by decide) .none
  obtain ⟨hfill, rfl⟩ := Engine.layout_eq_ok hlayout
  have hrows : ((Engine.layout namedBySequence .none : _ × Engine Rat).2.table.box?
        (.sequence 1 [.literal 0 "a" .quoted])).map Box.yAnchor = some 42 ∧
      ((Engine.layout namedBySequence .none : _ × Engine Rat).2.table.box?
        (.literal 0 "a" .quoted)).map (·.lAnchor.y) = some 24 := by
    decide +kernel
  rw [hlayout, Option.map_eq_some_iff, Option.map_eq_some_iff] at hrows
  obtain ⟨⟨b, hb, hrow⟩, b', hb', hrow'⟩ := hrows
  exact ⟨_, _, b, b', hlayout, hb, hb', hrow, hrow'⟩

end Layouts

end Railroad
