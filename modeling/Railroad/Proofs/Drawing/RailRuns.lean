import Railroad.Proofs.Drawing.Places
import Railroad.Proofs.Drawing.Rails
import Railroad.Proofs.Drawing.Verticals
/-!
How far the rails that a node is offered have been drawn.

A stack that opens a rail on the left draws it itself, down to the row of its last alternative.  On the right
each alternative that is a stack draws the part of the rail that is missing down to its own last alternative,
so that the rail has been drawn as far as the context says.
-/
namespace Railroad

open Metrics

/-- The alternative that stands at the bottom of a stack. -/
def Node.lastAlternative? : Node → Option Node
  | .alternation _ alternatives => alternatives.getLast?
  | _ => none

namespace Strokes

variable {s : Surroundings Rat} {box last : Box Rat} {bs : List (Box Rat)} {above : Bool}

/-- A stack that meets a rail on the right draws it from its bottom down to the last alternative. -/
theorem exists_run_right (box first last : Box Rat) (bs : List (Box Rat))
    (hright : s.useRight = true) :
    ∃ c ∈ stack s false box first last bs,
      ⟨s.right, min s.bottom (last.lAnchor.y - 10), last.lAnchor.y - 10⟩ ∈ c.verticalRuns := by
  refine ⟨connect .right last.rAnchor ⟨s.right, min s.bottom (last.rAnchor.y - radius)⟩ .up, ?_, ?_⟩
  · simp [stack, hright]
  · rw [verticalRuns_right_up]
    simp

/-- A stack that opens a rail on the left draws it down to the last alternative. -/
theorem exists_run_left (first : Box Rat)
    (h : Placement.Stacked box.normalize bs above s.useLeft s.useRight) (hinset : box.xAnchor = 10)
    (hlong : last ∈ bs.tail) (hleft : s.useLeft = false) :
    ∃ leaving p q arriving, connect leaving p q arriving ∈ stack s above box first last bs ∧
      ∃ r ∈ (connect leaving p q arriving).verticalRuns, r.x = 10 ∧
        (∀ b ∈ bs, r.top ≤ b.lAnchor.y + 10) ∧ r.top ≤ last.lAnchor.y - 10 ∧
        last.lAnchor.y - 10 ≤ r.bottom := by
  cases above with
  | true =>
      refine ⟨.down, box.tlAnchor.translate box.tlCorner.negate, last.lAnchor, .right, ?_, ?_⟩
      · simp [stack]
      · rw [verticalRuns_down_right]
        refine ⟨_, List.mem_singleton_self _, ?_, fun b hb => ?_, min_le_right _ _, le_max_right _ _⟩
        · simp [Box.tlAnchor, hinset]
        · refine (min_le_left _ _).trans ?_
          have htop : 0 ≤ b.tl.y := by simpa [Box.normalize, Box.homing] using (h.inside b hb).top
          have hrow := (h.level b hb).1
          simp only [Box.tlAnchor, Box.tlCorner, Point.translate_y, Point.negate_y]
          linarith
  | false =>
      obtain ⟨hrow, hx, -⟩ := (h.hangs rfl last hlong).coordinates
      refine ⟨.right, box.lAnchor.translate box.tlCorner.negate, last.lAnchor, .right, ?_, ?_⟩
      · simp [stack, hleft]
      · rw [verticalRuns_right_right (by simpa using hx hleft) (by simp; linarith)]
        refine ⟨_, List.mem_singleton_self _, ?_, fun b hb => ?_, min_le_right _ _, le_max_right _ _⟩
        · simp
        · have hlow := h.row_le hb
          rw [Box.normalize, Box.row_moveBy] at hlow
          exact (min_le_left _ _).trans (add_le_add_left hlow 10)

end Strokes

/-- The row of the bottom that the context gives the rails, in absolute coordinates. -/
def Entrance.reach (e : Entrance Rat) : Rat :=
  e.scope.origins.toY e.context.live.bottom

/-- All that the node itself draws is shown. -/
def Entrance.IsShown (d : Backdrop Rat) (shown : List (Scope Rat × Event Rat)) (e : Entrance Rat) :
    Prop :=
  ∀ c ∈ e.strokes d, (e.pen d, .call c) ∈ shown

def Backdrop.lastBox (d : Backdrop Rat) (a : Node) (as : List Node) : Box Rat :=
  ((a :: as).map d.box).getLast?.getD (d.box a)

section Stacks

variable {d : Backdrop Rat} {e e' : Entrance Rat} {shown : List (Scope Rat × Event Rat)} {id : Nat}
  {a : Node} {as : List Node} {side : Side}

theorem Entrance.above_eq_false (habove : e.above = true → e.context.IsFree) {x : Rat}
    (hrail : e.context.live.rail? side = some x) : e.above = false :=
  Bool.eq_false_iff.mpr fun h => Context.not_isFree hrail (habove h)

theorem Backdrop.lastBox_mem (d : Backdrop Rat) (a : Node) (as : List Node) :
    d.lastBox a as ∈ ((a :: as).map d.box).getLast? := by
  rw [lastBox, List.map_cons, List.getLast?_cons]
  rfl

theorem Entrance.mem_alternatives (hnode : e.node = .alternation id (a :: as))
    (he' : e' ∈ e.onward d) : e'.node ∈ a :: as := by
  have hm := node_mem_children he'
  rwa [hnode] at hm

section Nodes

variable (hnode : e.node = .alternation id (a :: as)) (hfan : Node.isFan (a :: as) = false)
include hnode hfan

theorem Entrance.strokes_stack : e.strokes d = Strokes.stack (e.framed d).live e.above
    (d.box e.node) (d.box a) (d.lastBox a as) ((a :: as).map d.box) := by
  rw [strokes, hnode]
  exact if_neg (by simp [hfan])

theorem Entrance.Stands.stacked (h : e.Stands d) (hn : e.node.IsExpression) :
    Placement.Stacked (d.box e.node).normalize ((a :: as).map d.box) e.above
      (e.framed d).live.useLeft (e.framed d).live.useRight := by
  obtain ⟨-, ss, p, hfinds, -⟩ := h.finds hn
  generalize d.box e.node = b at hfinds ⊢
  rw [hnode] at hfinds
  exact hfinds.stacked hfan

omit hfan in
theorem Entrance.lastBox_mem_tail (hn : e.node.IsExpression) :
    d.lastBox a as ∈ ((a :: as).map d.box).tail := by
  rw [hnode] at hn
  cases hn with
  | alternation _ hmany => exact getLast?_mem_tail (by simpa using hmany) _

omit hfan in
theorem Entrance.pen_stack : e.pen d = e.within d := by
  rw [pen, hnode]

theorem Entrance.isCovered_of_stack (hshown : e.IsShown d shown) {c : Call Rat}
    (hc : c ∈ Strokes.stack (e.framed d).live e.above (d.box e.node) (d.box a) (d.lastBox a as)
      ((a :: as).map d.box)) {r : VerticalRun Rat} (hr : r ∈ c.verticalRuns) {x y : Rat}
    (hx : (e.within d).origins.toX r.x = x) (htop : (e.within d).origins.toY r.top ≤ y)
    (hbottom : y ≤ (e.within d).origins.toY r.bottom) : IsCovered shown x y := by
  rw [← strokes_stack hnode hfan] at hc
  have hmem := hshown c hc
  rw [pen_stack hnode] at hmem
  exact ⟨_, hmem, r, hr, hx, htop, hbottom⟩

/-- The row of the last alternative, less a radius, in absolute coordinates. -/
def Entrance.foot (d : Backdrop Rat) (e : Entrance Rat) (a : Node) (as : List Node) : Rat :=
  (e.within d).origins.toY ((d.lastBox a as).lAnchor.y - 10)

/-- A stack leaves the rail on a side that it is offered, and else opens one. -/
theorem Entrance.rails_of_stack (hscope : e'.scope = e.within d)
    (hcontext : e'.context = (e.railed d a as).1.push) {x : Rat}
    (hrail : e'.context.live.rail? side = some x) :
    ((∃ x', e.context.live.rail? side = some x') ∧
      e'.scope.lastRail? side = e.scope.lastRail? side) ∨
    (e.context.live.rail? side = none ∧ ∃ r, e'.scope.lastRail? side = some r ∧ r.opener = e.node ∧
      r.bottom = e.foot d a as ∧ (side = .left → r.x = (e.within d).origins.toX 10)) := by
  rw [hscope, lastRail?_within, spans_stack hnode hfan]
  change e'.context.live.rail? side = some x at hrail
  have hframed : (e.framed d).push.live.rail? side = (e.context.live.rail? side).map
      (· - (d.box e.node).tl.x) := rail?_translateRails _
  obtain ⟨hsame, hnone⟩ | ⟨hnone, r, hr, hopener, hbottom, hleft, -⟩ := openRails_rail?
    (c := (e.framed d).push) e.node (d.box a) (d.lastBox a as) ((a :: as).map d.box) side
  · left
    have hfound : (e.railed d a as).2.reverse.find? (·.side = side) = none := hnone
    have hkept : e'.context.live.rail? side = (e.framed d).push.live.rail? side := by
      rw [hcontext]
      exact hsame
    rw [hkept, hframed, Option.map_eq_some_iff] at hrail
    obtain ⟨x', hx', -⟩ := hrail
    rw [hfound]
    exact ⟨⟨x', hx'⟩, rfl⟩
  · right
    have hfound : (e.railed d a as).2.reverse.find? (·.side = side) = some r := hr
    rw [hframed, Option.map_eq_none_iff] at hnone
    rw [hfound]
    rw [foot, within_eq]
    exact ⟨hnone, _, rfl, hopener, congrArg (· + _) hbottom, fun hside => congrArg (· + _) (hleft hside)⟩

omit hnode hfan in
theorem Entrance.reach_of_stack (hscope : e'.scope = e.within d)
    (hcontext : e'.context = (e.railed d a as).1.push) :
    e'.reach = if e.context.live.useLeft && e.context.live.useRight then e.reach
      else e.foot d a as := by
  have hbottom : (e.railed d a as).1.push.live.bottom =
      if e.context.live.useLeft && e.context.live.useRight then
        e.context.live.bottom - (d.box e.node).tl.y
      else (d.lastBox a as).lAnchor.y - 10 := openRails_bottom e.node _ _ _
  rw [reach, hscope, hcontext, hbottom]
  split
  · exact toY_within _
  · rfl

/-- A stack that meets a rail on the right draws it from the bottom in its context down to its foot. -/
theorem Entrance.isCovered_right (habove : e.above = false) (hshown : e.IsShown d shown) {x y : Rat}
    (hrail : e.context.live.rail? .right = some x) (hreach : e.reach ≤ y) (hfoot : y ≤ e.foot d a as) :
    IsCovered shown (e.scope.origins.toX x) y := by
  obtain ⟨hright, rfl⟩ := Option.ite_some_none_eq_some.mp hrail
  obtain ⟨c, hc, hrun⟩ := Strokes.exists_run_right (s := (e.framed d).live) (d.box e.node)
    (d.box a) (d.lastBox a as) ((a :: as).map d.box) hright
  rw [← habove] at hc
  refine isCovered_of_stack hnode hfan hshown hc hrun (toX_within _) ?_ hfoot
  rw [reach, ← toY_within (d := d)] at hreach
  exact (add_le_add_left (min_le_left _ _) _).trans hreach

end Nodes

theorem Entrance.rails_of_sequence {items : List Node} (hnode : e.node = .sequence id items)
    (hscope : e'.scope = e.within d) {first last : Bool}
    (hcontext : e'.context =
      itemContext (e.context.push.push.translateRails (d.box e.node).tl) first last) {x : Rat}
    (hrail : e'.context.live.rail? side = some x) :
    (∃ x', e.context.live.rail? side = some x') ∧
      e'.scope.lastRail? side = e.scope.lastRail? side ∧ e'.reach = e.reach := by
  have hspans : e.spans d = [] := by rw [spans, hnode]
  refine ⟨?_, ?_, ?_⟩
  · rw [hcontext] at hrail
    have hframed := rail?_of_itemContext hrail
    rw [rail?_translateRails, Option.map_eq_some_iff] at hframed
    obtain ⟨x', hx', -⟩ := hframed
    exact ⟨x', hx'⟩
  · rw [hscope, lastRail?_within, hspans]
    rfl
  · rw [reach, hscope, hcontext]
    exact toY_within _

/-- The rail on the right, if one is offered, has been drawn from where it was opened down to the bottom in
the context. -/
def Entrance.DrawnRight (shown : List (Scope Rat × Event Rat)) (e : Entrance Rat) : Prop :=
  ∀ x, e.context.live.rail? .right = some x → ∃ r, e.scope.lastRail? .right = some r ∧
    ∀ y, r.bottom ≤ y → y < e.reach → IsCovered shown r.x y

theorem Entrance.DrawnRight.onward (hn : e.node.IsExpression)
    (habove : e.above = true → e.context.IsFree) (hshown : e.IsShown d shown)
    (hmeets : e.scope.Meets e.context) (h : e.DrawnRight shown) (he' : e' ∈ e.onward d) :
    e'.DrawnRight shown := by
  obtain ⟨hscope, -⟩ := of_mem_onward he'
  intro x hx
  obtain ⟨id, items, hnode, first, last, hcontext⟩ | ⟨id, a, as, hnode, hfan, hcontext⟩ :=
    offers hn he' hx
  · obtain ⟨⟨x', hx'⟩, hlast, hreach⟩ := rails_of_sequence hnode hscope hcontext hx
    rw [hlast, hreach]
    exact h x' hx'
  · have hreach := reach_of_stack hscope hcontext
    obtain ⟨⟨x', hx'⟩, hlast⟩ | ⟨hnone, r, hr, -, hbottom, -⟩ :=
      rails_of_stack hnode hfan hscope hcontext hx
    · obtain ⟨r, hr, hdrawn⟩ := h x' hx'
      obtain ⟨r', hr', hmet⟩ := hmeets .right x' hx'
      cases hr.symm.trans hr'
      refine ⟨r, hlast.trans hr, fun y hy hlt => ?_⟩
      -- Above the bottom in the outer context the rail is drawn already, below it by the stack itself.
      rcases lt_or_ge y e.reach with hy' | hy'
      · exact hdrawn y hy hy'
      · rw [hreach] at hlt
        split at hlt
        · exact absurd hlt hy'.not_gt
        · rw [← hmet]
          exact isCovered_right hnode hfan (above_eq_false habove hx') hshown hx' hy' hlt.le
    · refine ⟨r, hr, fun y hy hlt => ?_⟩
      rw [hreach, if_neg fun hboth => Surroundings.rail?_ne_none hboth _ hnone] at hlt
      exact absurd hlt (hbottom ▸ hy).not_gt

/-- A rail on the left that is offered: it has been drawn from some row down to where it was opened to, no
alternative that hangs on it needs it further up, and unless one hangs on it in its last alternative one
stands above its end. -/
structure Entrance.HangsLeft (d : Backdrop Rat) (shown : List (Scope Rat × Event Rat))
    (e : Entrance Rat) (r : RailSpan Rat) (top : Rat) : Prop where
  last : e.scope.lastRail? .left = some r
  drawn : ∀ y, top ≤ y → y ≤ r.bottom → IsCovered shown r.x y
  span : top ≤ r.bottom
  reach : top ≤ e.reach
  row : top ≤ (e.box d).lAnchor.y + 10
  clear : (∀ m ∈ r.opener.lastAlternative?, e.node ∉ m.preorder) → (e.box d).br.y ≤ r.bottom + 10

def Entrance.DrawnLeft (d : Backdrop Rat) (shown : List (Scope Rat × Event Rat)) (e : Entrance Rat) :
    Prop :=
  ∀ x, e.context.live.rail? .left = some x → ∃ r top, e.HangsLeft d shown r top

/-- What hangs on a rail still does so inside a box, if it stands on no higher row. -/
theorem Entrance.HangsLeft.onward {r : RailSpan Rat} {top : Rat} (h : e.HangsLeft d shown r top)
    (hn : e.node.IsExpression) (hstands : e.Stands d) (he' : e' ∈ e.onward d)
    (hlast : e'.scope.lastRail? .left = e.scope.lastRail? .left) (hreach : top ≤ e'.reach)
    (hrow : (e.box d).lAnchor.y ≤ (e'.box d).lAnchor.y) : e'.HangsLeft d shown r top where
  last := hlast.trans h.last
  drawn := h.drawn
  span := h.span
  reach := hreach
  row := h.row.trans (add_le_add_left hrow 10)
  clear hnot := by
    refine (hstands.inside hn he').bottom.trans (h.clear fun m hm hmem => hnot m hm ?_)
    exact Node.mem_preorder_trans hmem ((Node.preorder_sublist (node_mem_children he')).subset
      e'.node.mem_preorder_self)

/-- All alternatives but the last one stand above the row of the last one. -/
theorem Entrance.clear_of_stack (hnode : e.node = .alternation id (a :: as))
    (hfan : Node.isFan (a :: as) = false) (hn : e.node.IsExpression) (hstands : e.Stands d)
    (he' : e' ∈ e.onward d) (hne : e'.node ∉ (a :: as).getLast?) :
    (e'.box d).br.y ≤ e.foot d a as + 10 := by
  have hstacked := hstands.stacked hnode hfan hn
  obtain ⟨l, hl⟩ : ∃ l, (a :: as).getLast? = some l := by simp [List.getLast?_cons]
  obtain ⟨ys, hys⟩ := List.getLast?_eq_some_iff.mp hl
  have hmem : e'.node ∈ ys := by
    have h := mem_alternatives hnode he'
    rw [hys] at h
    refine (List.mem_append.mp h).resolve_right fun h => hne ?_
    rw [hl, List.mem_singleton.mp h]
    rfl
  have hbox : d.lastBox a as = d.box l := by
    rw [Backdrop.lastBox, List.getLast?_map, hl]
    rfl
  have hlevel := hstacked.level _ (List.mem_of_getLast? (d.lastBox_mem a as))
  rw [hys, List.map_append, List.map_cons, List.map_nil] at hstacked
  have habove := (hstacked.above_last (List.mem_map_of_mem hmem)).trans (hbox ▸ hlevel.1)
  rw [box_of_mem_onward he', foot, hbox, Origins.toY, Box.moveBy_br, Point.translate_y]
  linarith

/-- The alternatives of a stack that opens a rail on the left hang on it. -/
theorem Entrance.exists_hangsLeft (hnode : e.node = .alternation id (a :: as))
    (hfan : Node.isFan (a :: as) = false) (hn : e.node.IsExpression) (hstands : e.Stands d)
    (hshown : e.IsShown d shown) (he' : e' ∈ e.onward d)
    (hcontext : e'.context = (e.railed d a as).1.push) (hnone : e.context.live.rail? .left = none)
    {r : RailSpan Rat} (hr : e'.scope.lastRail? .left = some r) (hopener : r.opener = e.node)
    (hbottom : r.bottom = e.foot d a as) (hx : r.x = (e.within d).origins.toX 10) :
    ∃ top, e'.HangsLeft d shown r top := by
  have hstacked := hstands.stacked hnode hfan hn
  have hmem : d.box e'.node ∈ (a :: as).map d.box :=
    List.mem_map_of_mem (mem_alternatives hnode he')
  have hleft : (e.framed d).live.useLeft = false := by
    change e.context.live.useLeft = false
    simpa [Surroundings.rail?] using hnone
  obtain ⟨_, _, _, _, hc, run, hrun, hrunx, htop, hspan, hend⟩ := Strokes.exists_run_left
    (d.box a) hstacked (hstands.finds hn).1 (lastBox_mem_tail hnode hn) hleft
  -- From where the run to the last alternative starts the rail is covered, as deep as it reaches.
  refine ⟨(e.within d).origins.toY run.top, hr, fun y hy hy' => ?_, ?_, ?_, ?_, fun hnot => ?_⟩
  · refine isCovered_of_stack hnode hfan hshown hc hrun ?_ hy ?_
    · rw [hx, hrunx]
    · rw [hbottom] at hy'
      exact hy'.trans (add_le_add_left hend _)
  · rw [hbottom]
    exact add_le_add_left hspan _
  · rw [reach_of_stack (of_mem_onward he').1 hcontext,
      if_neg fun hboth => Surroundings.rail?_ne_none hboth _ hnone]
    exact add_le_add_left hspan _
  · rw [box_of_mem_onward he', Box.row_moveBy, Origins.toY]
    linarith [htop _ hmem]
  · rw [hbottom]
    refine clear_of_stack hnode hfan hn hstands he' fun hlastnode => ?_
    exact hnot _ (by rw [hopener, hnode]; exact hlastnode) e'.node.mem_preorder_self

theorem Entrance.DrawnLeft.onward (hn : e.node.IsExpression)
    (habove : e.above = true → e.context.IsFree) (hstands : e.Stands d) (hshown : e.IsShown d shown)
    (h : e.DrawnLeft d shown) (he' : e' ∈ e.onward d) : e'.DrawnLeft d shown := by
  obtain ⟨hscope, -⟩ := of_mem_onward he'
  intro x hx
  obtain ⟨id, items, hnode, first, last, hcontext⟩ | ⟨id, a, as, hnode, hfan, hcontext⟩ :=
    offers hn he' hx
  · obtain ⟨⟨x', hx'⟩, hlast, hreach⟩ := rails_of_sequence hnode hscope hcontext hx
    obtain ⟨r, top, hangs⟩ := h x' hx'
    exact ⟨r, top, hangs.onward hn hstands he' hlast (hreach ▸ hangs.reach)
      (hstands.row_of_sequence hn hnode he').ge⟩
  · have hreach := reach_of_stack hscope hcontext
    have hstacked := hstands.stacked hnode hfan hn
    obtain ⟨⟨x', hx'⟩, hlast⟩ | ⟨hnone, r, hr, hopener, hbottom, hleft⟩ :=
      rails_of_stack hnode hfan hscope hcontext hx
    · -- A stack that opens the other rail sets the bottom in the context anew, but never above its own row.
      obtain ⟨r, top, hangs⟩ := h x' hx'
      have hmem : d.box e'.node ∈ (a :: as).map d.box :=
        List.mem_map_of_mem (mem_alternatives hnode he')
      rw [above_eq_false habove hx'] at hstacked
      refine ⟨r, top, hangs.onward hn hstands he' hlast ?_ ?_⟩
      · rw [hreach]
        split
        · exact hangs.reach
        · have hrow := hangs.row
          have hfoot := (hstacked.hangs rfl _ (lastBox_mem_tail hnode hn)).row
          rw [box_eq, Box.row_moveBy] at hrow
          rw [foot, Origins.toY]
          linarith
      · rw [box_of_mem_onward he', box_eq, Box.row_moveBy, Box.row_moveBy]
        exact add_le_add_left (hstacked.row_le hmem) _
    · exact ⟨r, exists_hangsLeft hnode hfan hn hstands hshown he' hcontext hnone hr hopener hbottom
        (hleft rfl)⟩

end Stacks

/-- What is known of an entrance with the rails that it is offered. -/
structure Entrance.IsServed (d : Backdrop Rat) (shown : List (Scope Rat × Event Rat))
    (e : Entrance Rat) : Prop where
  above : e.above = true → e.context.IsFree
  meets : e.scope.Meets e.context
  right : e.DrawnRight shown
  left : e.DrawnLeft d shown

section Grammars

variable {d : Backdrop Rat} {e : Entrance Rat} {shown : List (Scope Rat × Event Rat)} {root : Node}
  {direction : Direction} {above : Bool} {o : Origins Rat} {engine : Engine Rat}

theorem Entrance.isServed_of_isFree (h : e.context.IsFree) : e.IsServed d shown where
  above _ := h
  meets _ _ hx := absurd h (Context.not_isFree hx)
  right _ hx := absurd h (Context.not_isFree hx)
  left _ hx := absurd h (Context.not_isFree hx)

/-- All entrances of the drawing of a grammar are served by what the drawing shows. -/
theorem Entrance.Leads.isServed (hroot : root.IsGrammar)
    (hlayout : Engine.layout root direction = (.ok d.table, engine))
    (hshown : ∀ e : Entrance Rat, (start o root direction above).Leads d e → e.IsShown d shown)
    (h : (start o root direction above).Leads d e) : e.IsServed d shown := by
  refine h.of_expressions hroot (fun e => isServed_of_isFree) ?_
  intro e hleads hn hserved e' he'
  have hstands := (hleads.stands hroot hlayout hn (Node.isLeaf_of_mem_children (node_mem_children he'))).1
  have hown := hshown e hleads
  exact ⟨(of_mem_onward he').2, meets_onward hn hserved.meets he',
    hserved.right.onward hn hserved.above hown hserved.meets he',
    hserved.left.onward hn hserved.above hstands hown he'⟩

end Grammars

end Railroad
