import Railroad.Proofs.Drawing.Stubs
import Railroad.Proofs.Layout.Margins
/-!
Rails lie on lines that are drawn: a stack that opens a rail runs a connector along all of it.

On the left the line to the last alternative leads down where the rail runs, on the right the line from the
last alternative leads up there.  The rail on the right is opened by what the alternatives measure and the
line is drawn by the box; the widest alternative leaves the same room in both.
-/
namespace Railroad

open Metrics Strokes

theorem foldl_max_eq {xs : List Rat} {x m : Rat} (hx : x ≤ m) (hxs : ∀ y ∈ xs, y ≤ m) (hm : m ∈ xs) :
    xs.foldl Scalar.max x = m := by
  have hle : ∀ {xs : List Rat} {x : Rat}, x ≤ m → (∀ y ∈ xs, y ≤ m) → xs.foldl Scalar.max x ≤ m ∧
      x ≤ xs.foldl Scalar.max x := by
    intro xs
    induction xs with
    | nil => exact fun hx _ => ⟨hx, le_rfl⟩
    | cons y ys ih =>
        intro x hx hxs
        rw [List.forall_mem_cons] at hxs
        obtain ⟨hle, hge⟩ := ih (x := Scalar.max x y) (by simp [hx, hxs.1]) hxs.2
        exact ⟨hle, le_trans (by simp) hge⟩
  induction xs generalizing x with
  | nil => cases hm
  | cons y ys ih =>
      rw [List.forall_mem_cons] at hxs
      have hstep : Scalar.max x y ≤ m := by simp [hx, hxs.1]
      rcases List.mem_cons.mp hm with rfl | hm
      · obtain ⟨hle, hge⟩ := hle hstep hxs.2
        exact le_antisymm hle (le_trans (by simp) hge)
      · exact ih hstep hxs.2 hm

/-- What an alternation opens: rails from a radius below its first row to a radius above its last, on the sides
where none is offered. -/
theorem of_mem_openRails {c : Context Rat} {opener : Node} {first : Box Rat} (last : Box Rat)
    {alternatives : List (Box Rat)} {r : RailSpan Rat}
    (h : r ∈ (openRails c opener first last alternatives).2) :
    r.opener = opener ∧ r.top = first.lAnchor.y + 10 ∧ r.bottom = last.lAnchor.y - 10 ∧
      (c.live.useLeft = false ∧ r.x = 10 ∨ c.live.useRight = false ∧ r.x =
        (alternatives.map (·.rAnchor.x + 10)).foldl Scalar.max (first.rAnchor.x + 10)) := by
  cases hl : c.live.useLeft <;> cases hr : c.live.useRight <;> simp [openRails, hl, hr] at h
  · rcases h with rfl | rfl
    · exact ⟨rfl, rfl, rfl, .inl ⟨rfl, rfl⟩⟩
    · exact ⟨rfl, rfl, rfl, .inr ⟨rfl, rfl⟩⟩
  · subst h
    exact ⟨rfl, rfl, rfl, .inl ⟨rfl, rfl⟩⟩
  · subst h
    exact ⟨rfl, rfl, rfl, .inr ⟨rfl, rfl⟩⟩

namespace Strokes

variable {s : Surroundings Rat} {box last : Box Rat} {bs : List (Box Rat)} {above : Bool}

/-- A stack that opens a rail on the right draws it down to the last alternative. -/
theorem exists_run_opened_right (first : Box Rat)
    (h : Placement.Stacked box.normalize bs above s.useLeft s.useRight) (hinset : box.xAnchor = 10)
    (hlong : last ∈ bs.tail) (hright : s.useRight = false) :
    ∃ leaving p q arriving, connect leaving p q arriving ∈ stack s above box first last bs ∧
      ∃ r ∈ (connect leaving p q arriving).verticalRuns, r.x = box.normalize.br.x - 10 ∧
        (∀ b ∈ bs, r.top ≤ b.lAnchor.y + 10) ∧ last.lAnchor.y - 10 ≤ r.bottom := by
  cases above with
  | true =>
      refine ⟨.right, last.rAnchor, box.trAnchor.translate box.tlCorner.negate, .up, ?_, ?_⟩
      · simp [stack]
      · rw [verticalRuns_right_up]
        refine ⟨_, List.mem_singleton_self _, ?_, fun b hb => ?_, le_max_left _ _⟩
        · simp [Box.trAnchor, hinset, Box.normalize, Box.homing]
          ring
        · refine (min_le_right _ _).trans ?_
          have htop : 0 ≤ b.tl.y := by simpa [Box.normalize, Box.homing] using (h.inside b hb).top
          have hrow := (h.level b hb).1
          simp only [Box.trAnchor_y, Box.tlCorner_eq, Point.translate_y, Point.negate_y]
          linarith
  | false =>
      obtain ⟨hrow, -, hx⟩ := (h.hangs rfl last hlong).coordinates
      refine ⟨.right, last.rAnchor, box.rAnchor.translate box.tlCorner.negate, .right, ?_, ?_⟩
      · simp [stack, hright]
      · have hbeyond := hx hright
        rw [verticalRuns_right_right_of_le (by simp; linarith) (by simp; linarith)]
        refine ⟨_, List.mem_singleton_self _, ?_, fun b hb => ?_, le_max_left _ _⟩
        · simp [Box.normalize, Box.homing]
        · have hlow := h.row_le hb
          rw [Box.normalize, Box.row_moveBy] at hlow
          exact (min_le_right _ _).trans (add_le_add_left hlow 10)

end Strokes

/-- The render pass finds the alternatives of a stack clear of the sides on which there is no rail. -/
theorem Backdrop.Finds.inset {d : Backdrop Rat} {id : Nat} {as : List Node} {f : Flow} {above : Bool}
    {b : Box Rat} {ss : List (Sized Rat)} {p : Placement Rat}
    (h : d.Finds (.alternation id as) f above b ss p) (hfan : Node.isFan as = false) :
    (∀ c ∈ as.map d.box, b.normalize.Inset c (room (f.useLeft && !above)) (room (f.useRight && !above))) ∧
      ∃ c ∈ as.map d.box, c.br.x + room (f.useRight && !above) = b.normalize.br.x := by
  have hhomed := h.sound.homed
  obtain ⟨harranges, hboxes, hlevel, hmoved⟩ := h
  rw [Node.children] at hboxes
  rw [hboxes]
  obtain ⟨hne, rfl⟩ := harranges.eq_of_stack hfan
  have hwidths : ∀ e ∈ ss.map Sized.box, 0 ≤ e.width := by
    rw [List.forall_mem_map]
    exact fun s hs => (hlevel s hs).1.width_nonneg
  have hlength : ss.map Sized.box ≠ [] := by
    rintro hnil
    rw [hnil] at hboxes
    simp [Placement.stack, Placement.stackFrom, Placement.normalize] at hboxes
    exact hne hboxes
  obtain ⟨hinset, c, hc, hwidest⟩ := Placement.inset_stack above f.useLeft f.useRight hwidths hlength
  refine ⟨fun c hc => (hinset c hc).of_homed hhomed hmoved, c, hc, hwidest.trans ?_⟩
  have hwidth := hmoved.size.1
  rw [Box.width_eq, Box.width_eq, hhomed.x] at hwidth
  simp [Box.normalize, Box.homing]
  linarith

section Openers

variable {d : Backdrop Rat} {e e' : Entrance Rat}

/-- The anchor row of an expression that stands keeps room for an arc above and below it. -/
theorem Entrance.Stands.deep (h : e.Stands d) (hn : e.node.IsExpression) : (d.box e.node).Deep := by
  obtain ⟨k, s, b, hstands, hmoved, -⟩ := h
  obtain ⟨hbox, -⟩ := hstands.finds hn hmoved
  have hb : d.box e.node = b := Backdrop.box_of_box? hbox
  rw [hb]
  exact (hstands.deep hn).moved hmoved

theorem Entrance.exists_onward {m : Node} (hm : m ∈ e.node.children) :
    ∃ e' ∈ e.onward d, e'.node = m := by
  rwa [← e.map_node_onward (d := d), List.mem_map] at hm

theorem Entrance.Stands.deep_of_mem_children (h : e.Stands d) (hn : e.node.IsExpression) {m : Node}
    (hm : m ∈ e.node.children) : (d.box m).Deep := by
  obtain ⟨e', he', rfl⟩ := exists_onward (d := d) hm
  exact (h.onward hn he').deep (hn.of_mem_children hm)

/-- The line of a rail: a connector that the node draws runs vertically along all of it. -/
def Entrance.DrawsAlong (d : Backdrop Rat) (e : Entrance Rat) (r : RailSpan Rat) : Prop :=
  ∃ leaving p q arriving, connect leaving p q arriving ∈ e.strokes d ∧
    ∃ run ∈ (connect leaving p q arriving).verticalRuns,
      run.x = r.x ∧ run.top ≤ r.top ∧ r.bottom ≤ run.bottom

/-- The rail that a stack opens on the right runs a radius from its edge: the widest alternative leaves room
for just that. -/
theorem Entrance.rail_right_of_stack {id : Nat} {a : Node} {as : List Node}
    (hnode : e.node = .alternation id (a :: as)) (hfan : Node.isFan (a :: as) = false)
    (hn : e.node.IsExpression) (hstands : e.Stands d) (hright : e.context.live.useRight = false) :
    (((a :: as).map d.box).map (·.rAnchor.x + 10)).foldl Scalar.max ((d.box a).rAnchor.x + 10) =
      (d.box e.node).normalize.br.x - 10 := by
  obtain ⟨-, ss, p, hfinds, -⟩ := hstands.finds hn
  rw [hnode] at hfinds
  obtain ⟨hinset, c, hc, hwidest⟩ := hfinds.inset hfan
  have hroom : room (e.context.flow.useRight && !e.above) = 20 := by
    rw [show e.context.flow.useRight = false from hright]
    rfl
  rw [hroom] at hinset hwidest
  have hle : ∀ c ∈ (a :: as).map d.box, c.rAnchor.x + 10 ≤ (d.box e.node).normalize.br.x - 10 := by
    intro c hc
    have := (hinset c hc).right
    rw [Box.rAnchor_x, hnode]
    linarith
  refine foldl_max_eq (hle _ List.mem_cons_self) (List.forall_mem_map.mpr hle) ?_
  refine List.mem_map.mpr ⟨c, hc, ?_⟩
  rw [Box.rAnchor_x, hnode]
  linarith

/-- A stack draws along the rails that it opens. -/
theorem Entrance.drawsAlong_of_stack {id : Nat} {a : Node} {as : List Node}
    (hnode : e.node = .alternation id (a :: as)) (hfan : Node.isFan (a :: as) = false)
    (hn : e.node.IsExpression) (hstands : e.Stands d) {r : RailSpan Rat} (hr : r ∈ e.spans d) :
    r.opener = e.node ∧ r.top ≤ r.bottom ∧ e.DrawsAlong d r := by
  rw [spans_stack hnode hfan] at hr
  obtain ⟨hopener, htop, hbottom, hside⟩ := of_mem_openRails (d.lastBox a as) hr
  have hstacked := hstands.stacked hnode hfan hn
  have hlast := lastBox_mem_tail (d := d) hnode hn
  have hxanchor := (hstands.finds hn).1
  have hdeep : ∀ b ∈ (a :: as).map d.box, b.Deep :=
    List.forall_mem_map.mpr fun m hm => hstands.deep_of_mem_children hn (by rw [hnode]; exact hm)
  have hfirst : d.box a ∈ (a :: as).map d.box := List.mem_cons_self
  refine ⟨hopener, ?_, ?_⟩
  · have habove := (List.pairwise_cons.mp hstacked.order).1 _ hlast
    have hhigh := (hdeep _ hfirst).below
    have hlow := (hdeep _ (List.mem_of_mem_tail hlast)).above
    rw [Box.Above] at habove
    rw [htop, hbottom]
    linarith
  · rw [DrawsAlong, strokes_stack hnode hfan]
    rcases hside with ⟨hleft, hx⟩ | ⟨hright, hx⟩
    · obtain ⟨leaving, p, q, arriving, hc, run, hrun, hrunx, hhigh, -, hlow⟩ :=
        exists_run_left (d.box a) hstacked hxanchor hlast hleft
      exact ⟨leaving, p, q, arriving, hc, run, hrun, hrunx.trans hx.symm, htop ▸ hhigh _ hfirst,
        hbottom ▸ hlow⟩
    · obtain ⟨leaving, p, q, arriving, hc, run, hrun, hrunx, hhigh, hlow⟩ :=
        exists_run_opened_right (d.box a) hstacked hxanchor hlast hright
      have hright' := rail_right_of_stack hnode hfan hn hstands hright
      exact ⟨leaving, p, q, arriving, hc, run, hrun, hrunx.trans (hx.trans hright').symm,
        htop ▸ hhigh _ hfirst, hbottom ▸ hlow⟩

theorem Entrance.isStack_of_mem_spans {d : Backdrop Rat} {e : Entrance Rat} {r : RailSpan Rat}
    (hr : r ∈ e.spans d) : e.node.isStack = true := by
  rw [spans] at hr
  generalize e.node = n at hr
  cases n with
  | alternation id alternatives =>
      cases alternatives with
      | nil => cases hr
      | cons a as =>
          cases hfan : Node.isFan (a :: as) with
          | true => simp [hfan] at hr
          | false => simp [Node.isStack, hfan]
  | _ => cases hr

end Openers

theorem mem_of_mem_railsOf {events : List (Event Rat)} {r : RailSpan Rat} (h : r ∈ railsOf events) :
    .rail r ∈ events := by
  obtain ⟨event, hevent, heq⟩ := List.mem_filterMap.mp h
  cases event with
  | rail r' =>
      cases heq
      exact hevent
  | call | enter | leave | fault => cases heq

/-- A rail that has been opened among the events, with the line on which it lies: while the stack that has
opened it is the innermost open node, a connector in the frame of the rail runs vertically along all of it. -/
structure RailSpan.IsDrawn (events : List (Scope Rat × Event Rat)) (o : Origins Rat)
    (r : RailSpan Rat) : Prop where
  opener : r.opener.isStack = true
  span : r.top ≤ r.bottom
  line : ∃ σ leaving p q arriving, (σ, .call (connect leaving p q arriving)) ∈ events ∧
    σ.origins = o ∧ (∃ a ∈ σ.opened.head?, a.node = r.opener) ∧
    ∃ run ∈ (connect leaving p q arriving).verticalRuns,
      run.x = r.x ∧ run.top ≤ r.top ∧ r.bottom ≤ run.bottom

/-- All rails that are opened in the drawing of a grammar that has been read and laid out are drawn by the
alternations that open them. -/
theorem rails_drawn {reader : Ebnf.Reader} {nextId : Nat} {text : String} {root : Node}
    (hread : (reader.read nextId text).result = .ok root) {direction : Direction}
    {table : BoxTable Rat} {engine : Engine Rat}
    (hlayout : Engine.layout root direction = (.ok table, engine)) (links : List String)
    (above : Bool) :
    ∃ (handsBack : Bool) (session : DrawingSession Rat),
      (DrawingSession.start table links direction).draw root above = (.ok handsBack, session) ∧
      ∀ o : Origins Rat, let events := inScope ⟨o, []⟩ session.events.toList
        ∀ r ∈ session.rails, (∃ ρ, (ρ, .rail r) ∈ events) ∧
          ∀ ρ, (ρ, .rail r) ∈ events → r.IsDrawn events ρ.origins := by
  have hroot := Ebnf.isGrammar_of_read hread
  obtain ⟨handsBack, session, hdraw, hsights⟩ :=
    exists_drawing hroot.isComplete hlayout links above
  refine ⟨handsBack, session, hdraw, fun o r hr => ⟨exists_mem_inScope ?_, fun ρ hρ => ?_⟩⟩
  · exact mem_of_mem_railsOf hr
  obtain ⟨e, hleads, hspan, horigins⟩ := exists_opener hroot.isComplete hlayout hdraw hρ
  have hstack := Entrance.isStack_of_mem_spans hspan
  obtain ⟨hn, hstands, -⟩ := (hleads.heads_or_stands hroot hlayout).resolve_left fun h =>
    absurd hstack (by simp [h.1.heading.isStack_eq_false])
  obtain ⟨id, a, as, hnode, hfan⟩ := hn.exists_of_isStack hstack
  obtain ⟨hopener, hle, leaving, p, q, arriving, hc, hrun⟩ :=
    Entrance.drawsAlong_of_stack hnode hfan hn hstands hspan
  obtain ⟨rails, hopened⟩ := e.opened_pen (d := ⟨table, links⟩)
  refine ⟨hopener ▸ hstack, hle, e.pen ⟨table, links⟩, leaving, p, q, arriving, ?_, ?_, ?_, hrun⟩
  · exact (mem_sights_iff.mp ((hsights o _).mpr ⟨e, hleads, .inr ⟨_, hc, rfl⟩⟩)).1
  · rw [horigins, Entrance.pen_stack hnode]
  · rw [hopened]
    exact ⟨_, rfl, hopener.symm⟩

/-- Rails of three alternations: of the rule, of a body that is drawn from above, and of an option in it. -/
def railedText : String :=
  "x = b | \x7bc | [d | e]\x7d ."

def railedTree : Node :=
  .grammar 12 none (some (.productionList 11 [.production 10 (some (.identifier 9 "x"))
    (some (.alternation 8 [.identifier 0 "b", .repetition 7 (some (.alternation 6 [.identifier 1 "c",
      .optional 5 (some (.alternation 4 [.identifier 2 "d", .identifier 3 "e"]))]))]))])) none

theorem read_railedText : (Ebnf.Reader.new.read 0 railedText).result = .ok railedTree := by cbv

theorem rails_drawn_railed : ∃ (table : BoxTable Rat) (engine : Engine Rat),
    (Ebnf.Reader.new.read 0 railedText).result = .ok railedTree ∧
    Engine.layout railedTree .right = (.ok table, engine) ∧
    ∃ (handsBack : Bool) (session : DrawingSession Rat),
      (DrawingSession.start table ["x"] .right).draw railedTree false = (.ok handsBack, session) ∧
      session.rails.map (·.opener.id) = [8, 8, 6, 6, 4, 4] ∧
      ∀ o : Origins Rat, let events := inScope ⟨o, []⟩ session.events.toList
        ∀ r ∈ session.rails, (∃ ρ, (ρ, .rail r) ∈ events) ∧
          ∀ ρ, (ρ, .rail r) ∈ events → r.IsDrawn events ρ.origins := by
  have hrails : ∃ table ∈ (Engine.layout (α := Rat) railedTree .right).1.toOption,
      ((DrawingSession.start table ["x"] .right).draw railedTree false).2.rails.map (·.opener.id) =
        [8, 8, 6, 6, 4, 4] := by
    decide +kernel
  obtain ⟨table, htable, hrails⟩ := hrails
  obtain ⟨engine, hlayout⟩ := Engine.exists_of_mem_layout htable
  obtain ⟨handsBack, session, hdraw, hdrawn⟩ := rails_drawn read_railedText hlayout ["x"] false
  rw [hdraw] at hrails
  exact ⟨table, engine, read_railedText, hlayout, handsBack, session, hdraw, hrails, hdrawn⟩

end Railroad
