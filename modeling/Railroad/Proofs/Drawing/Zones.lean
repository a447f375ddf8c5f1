import Railroad.Proofs.Drawing.RailLines
import Railroad.Proofs.Drawing.StrokeExtents
/-!
What lies inside the box of the root: the boxes of all nodes, and the rails that they are offered, a radius or
more from its sides.
-/
namespace Railroad

open Metrics

/-- A box in absolute coordinates, told from the origin in force. -/
def Scope.zone (σ : Scope Rat) (z : Box Rat) : Box Rat :=
  z.moveBy σ.origins.current.negate

section Zones

variable {d : Backdrop Rat} {e e' : Entrance Rat} {z b : Box Rat} {σ : Scope Rat} {p : Point Rat}

theorem Scope.holds_zone : (σ.zone z).Holds p ↔ z.Holds (p.translate σ.origins.current) := by
  have hback : p = (p.translate σ.origins.current).translate σ.origins.current.negate := by
    ext <;> simp
  rw [zone, hback, Box.holds_moveBy, ← hback]

theorem Entrance.zone_within : (e.within d).zone z = (e.scope.zone z).moveBy (d.box e.node).tl.negate := by
  rw [within_eq]
  ext <;> simp [Scope.zone, Origins.push] <;> ring

/-- The frame of a node lies in a zone if the box of the node does. -/
theorem Entrance.inside_frame :
    (d.box e.node).normalize.Inside ((e.within d).zone z) ↔ (d.box e.node).Inside (e.scope.zone z) := by
  rw [zone_within]
  exact Box.inside_moveBy_iff _

theorem Entrance.runsIn_framed (h : e.context.live.RunsIn (e.scope.zone z)) :
    (e.framed d).live.RunsIn ((e.within d).zone z) := by
  intro side x hx
  rw [framed, rail?_translateRails, Option.map_eq_some_iff] at hx
  obtain ⟨y, hy, rfl⟩ := hx
  obtain ⟨⟨hleft, hright⟩, hbottom⟩ := h side y hy
  rw [zone_within]
  simp only [Box.moveBy_tl, Box.moveBy_br, Point.translate_x, Point.translate_y, Point.negate_x,
    Point.negate_y]
  refine ⟨⟨by linarith, by linarith⟩, ?_⟩
  change _ ≤ e.context.live.bottom - (d.box e.node).tl.y
  linarith

/-- Within the flow the box of an expression is wide enough for an arrowhead. -/
theorem Entrance.Stands.le_width (h : e.Stands d) (hn : e.node.IsExpression)
    (hdirection : e.context.live.direction ≠ .none) : 30 ≤ (d.box e.node).width := by
  obtain ⟨k, s, b, hstands, hmoved, -⟩ := h
  obtain ⟨hbox, -⟩ := hstands.finds hn hmoved
  have hb : d.box e.node = b := Backdrop.box_of_box? hbox
  rw [hb, ← hmoved.size.1]
  exact hstands.le_width hn hdirection

/-- The parts of an expression within the flow lie in its frame, with room for arcs at their rows. -/
theorem Entrance.Stands.lodges (h : e.Stands d) (hn : e.node.IsExpression)
    (hdirection : e.context.live.direction ≠ .none) {m : Node} (hm : m ∈ e.node.children) :
    (d.box e.node).normalize.Lodges (d.box m) := by
  obtain ⟨-, ss, p, hfinds, -⟩ := h.finds hn
  obtain ⟨e', he', rfl⟩ := Entrance.exists_onward (d := d) hm
  exact ⟨hfinds.inside (List.mem_map_of_mem hm), h.deep_of_mem_children hn hm,
    (h.onward hn he').le_width (hn.of_mem_children hm) (direction_onward hn he' hdirection)⟩

/-- The rail that a stack opens runs a radius from a side of its box. -/
theorem Entrance.Stands.x_of_mem_spans {id : Nat} {a : Node} {as : List Node} (h : e.Stands d)
    (hn : e.node.IsExpression) (hnode : e.node = .alternation id (a :: as))
    (hfan : Node.isFan (a :: as) = false) {r : RailSpan Rat} (hr : r ∈ e.spans d) :
    r.x = 10 ∨ r.x = (d.box e.node).normalize.br.x - 10 := by
  rw [spans_stack hnode hfan] at hr
  obtain ⟨-, -, -, ⟨-, hx⟩ | ⟨hright, hx⟩⟩ := of_mem_openRails (d.lastBox a as) hr
  · exact .inl hx
  · exact .inr (hx.trans (rail_right_of_stack hnode hfan hn h hright))

section Stacks

variable {id : Nat} {a : Node} {as : List Node} (hn : e.node.IsExpression) (hstands : e.Stands d)
  (hdirection : e.context.live.direction ≠ .none) (hinside : (d.box e.node).Inside (e.scope.zone z))
  (hnode : e.node = .alternation id (a :: as))
include hn hstands hdirection hinside hnode

/-- The rails that a stack opens run a radius or more from the sides of what its box lies in. -/
theorem Entrance.inside_of_mem_spans (hfan : Node.isFan (a :: as) = false) {r : RailSpan Rat}
    (hr : r ∈ e.spans d) :
    ((e.within d).zone z).tl.x + 10 ≤ r.x ∧ r.x + 10 ≤ ((e.within d).zone z).br.x := by
  have hframe := inside_frame.mpr hinside
  have hwidth := hstands.le_width hn hdirection
  have hleft := hframe.left
  have hright := hframe.right
  rw [Box.normalize_tl] at hleft
  rw [Box.normalize_br] at hright
  dsimp only at hleft hright
  obtain hx | hx := hstands.x_of_mem_spans hn hnode hfan hr
  · constructor <;> linarith
  · rw [Box.normalize_br] at hx
    constructor <;> linarith

/-- The last part of a stack stands so deep that an arc above it stays inside what the stack lies in. -/
theorem Entrance.above_last_of_stack :
    ((e.within d).zone z).tl.y ≤ (d.lastBox a as).rAnchor.y - radius := by
  obtain ⟨m, hm, hbox⟩ := List.mem_map.mp (List.mem_of_getLast? (d.lastBox_mem a as))
  have hlodges : (d.box e.node).normalize.Lodges (d.box m) := hstands.lodges hn hdirection (hnode ▸ hm)
  have habove := (hlodges.mono (inside_frame.mpr hinside)).above
  rw [hbox] at habove
  change _ ≤ (d.lastBox a as).lAnchor.y - radius
  rw [radius_rat]
  linarith

theorem Entrance.runsIn_railed (hfan : Node.isFan (a :: as) = false)
    (h : e.context.live.RunsIn (e.scope.zone z)) :
    (e.railed d a as).1.live.RunsIn ((e.within d).zone z) := by
  have hframed := runsIn_framed (d := d) h
  intro side x hx
  constructor
  · obtain ⟨hsame, -⟩ | ⟨-, r, hr, -, -, -, hopen⟩ := openRails_rail? (c := (e.framed d).push) e.node
      (d.box a) (d.lastBox a as) ((a :: as).map d.box) side
    · exact (hframed side x (hsame.symm.trans hx)).1
    · obtain rfl := Option.some.inj (hopen.symm.trans hx)
      have hspan : r ∈ e.spans d := by
        rw [spans_stack hnode hfan]
        exact List.mem_reverse.mp (List.mem_of_find?_eq_some hr)
      exact inside_of_mem_spans hn hstands hdirection hinside hnode hfan hspan
  · rw [railed, openRails_bottom]
    split
    · rename_i huse
      exact (hframed .left _ (if_pos ((Bool.and_eq_true _ _).mp huse).1)).2
    · exact above_last_of_stack hn hstands hdirection hinside hnode

end Stacks

/-- The rails that a node offers its parts run inside what its own do, if the node lies inside it too. -/
theorem Entrance.runsIn_onward (hn : e.node.IsExpression) (hstands : e.Stands d)
    (hdirection : e.context.live.direction ≠ .none) (hinside : (d.box e.node).Inside (e.scope.zone z))
    (h : e.context.live.RunsIn (e.scope.zone z)) (he' : e' ∈ e.onward d) :
    e'.context.live.RunsIn (e'.scope.zone z) := by
  rw [(of_mem_onward he').1]
  intro side x hx
  obtain ⟨id, items, hnode, first, last, hcontext⟩ | ⟨id, a, as, hnode, hfan, hcontext⟩ :=
    offers hn he' hx
  · rw [hcontext] at hx ⊢
    exact runsIn_framed h side x (rail?_of_itemContext hx)
  · rw [hcontext] at hx ⊢
    exact runsIn_railed hn hstands hdirection hinside hnode hfan h side x hx

end Zones

section Grammars

variable {d : Backdrop Rat} {e : Entrance Rat} {root : Node} {direction : Direction} {above : Bool}
  {o : Origins Rat} {engine : Engine Rat}

/-- Every node of the drawing of a tree that has been laid out lies in the box of the root. -/
theorem Entrance.Leads.inside (hcomplete : root.isComplete = true)
    (hlayout : Engine.layout root direction = (.ok d.table, engine))
    (h : (start o root direction above).Leads d e) : e.node ∈ root.preorder ∧
      (d.box e.node).Inside (e.scope.zone ((start o root direction above).box d)) := by
  have hnests := (stands_of_layout hlayout).nests_all hcomplete rfl ⟨rfl, rfl⟩
  -- Along the way from the root each node lies in the frame of the one above.
  induction h with
  | refl =>
      refine ⟨Node.mem_preorder_self _, ?_⟩
      have hhere : (start o root direction above).scope.zone ((start o root direction above).box d) =
          d.box root := by
        ext <;> simp [Scope.zone, Entrance.box, start]
      rw [hhere]
      exact .refl _
  | @tail e e' _ he' ih =>
      have hm := node_mem_children he'
      obtain ⟨b, hb⟩ := hnests e.node ih.1
      obtain ⟨c, hc, ⟨hleft, htop⟩, hright, hbottom⟩ := hb.inside e'.node hm
      refine ⟨Node.mem_preorder_trans ih.1 ((Node.preorder_sublist hm).subset e'.node.mem_preorder_self), ?_⟩
      rw [(of_mem_onward he').1, Backdrop.box_of_box? hc]
      refine .trans ?_ (inside_frame.mpr ih.2)
      rw [Backdrop.box_of_box? hb.box]
      constructor
      · rwa [Box.normalize_tl]
      · rwa [Box.normalize_tl]
      · rwa [Box.normalize_br]
      · rwa [Box.normalize_br]

/-- Every rail that is offered in the drawing of a grammar runs inside the box of the root. -/
theorem Entrance.Leads.runsIn (hroot : root.IsGrammar)
    (hlayout : Engine.layout root direction = (.ok d.table, engine))
    (h : (start o root direction above).Leads d e) :
    e.context.live.RunsIn (e.scope.zone ((start o root direction above).box d)) := by
  obtain ⟨z, hz⟩ : ∃ z, (start o root direction above).box d = z := ⟨_, rfl⟩
  rw [hz]
  refine h.of_expressions (P := fun e => e.context.live.RunsIn (e.scope.zone z)) hroot ?_ ?_
  · exact fun e hfree side x hx => absurd hfree (Context.not_isFree hx)
  · intro e hleads hn hruns e' he'
    obtain ⟨hstands, hdirection⟩ := hleads.stands hroot hlayout hn
      (Node.isLeaf_of_mem_children (node_mem_children he'))
    exact runsIn_onward hn hstands hdirection (hz ▸ (hleads.inside hroot.isComplete hlayout).2) hruns he'

end Grammars

end Railroad
