import Railroad.Proofs.Drawing.RailRuns
/-!
The stubs that an alternation hangs on the rails of the alternations around it.

A stack draws its own rails no further than to the row of its last alternative, and an alternation that
hangs there with its own alternatives reaches further down.  On the right it draws the missing part of the
rail itself; on the left it does not.
-/
namespace Railroad

/-- The point of a connector at the rail on a side, if it leads to or from one there. -/
def Call.stub? {α : Type} (side : Side) : Call α → Option (Point α)
  | .composite (.connector .down p _ .right _ _) => if side = .left then some p else none
  | .composite (.connector .right _ q .up _ _) => if side = .right then some q else none
  | _ => none

/-- Whether a node is an alternation whose alternatives are stacked. -/
def Node.isStack : Node → Bool
  | .alternation _ alternatives => !isFan alternatives
  | _ => false

theorem Node.IsExpression.exists_of_isStack {n : Node} (hn : n.IsExpression) (h : n.isStack = true) :
    ∃ id a as, n = .alternation id (a :: as) ∧ isFan (a :: as) = false := by
  cases hn with
  | @alternation id alternatives hmany =>
      cases alternatives with
      | nil => simp at hmany
      | cons a as => exact ⟨id, a, as, rfl, by simpa [isStack] using h⟩
  | _ => cases h

theorem Node.IsHeading.isStack_eq_false {n : Node} (h : n.IsHeading) : n.isStack = false := by
  cases h with
  | grammar hn | rule hn =>
      cases hn
      rfl
  | rules => rfl
  | leaf hn =>
      cases n with
      | alternation => cases hn
      | _ => rfl

namespace Strokes

variable {s : Surroundings Rat} {box first last : Box Rat} {bs : List (Box Rat)} {side : Side}
  {q : Point Rat} {x : Rat}

theorem stubs_left (hleft : s.useLeft = true) :
    (stack s false box first last bs).filterMap (Call.stub? .left) =
      ⟨s.left, last.lAnchor.y - 10⟩ :: (box.lAnchor.translate box.tl.negate).withX s.left ::
        (bs.tail.dropLast.map fun b => ⟨s.left, b.lAnchor.y - 10⟩) := by
  rw [List.map_eq_flatMap]
  cases hright : s.useRight <;>
    simp [stack, hleft, hright, connect, hline, Call.stub?, List.filterMap_cons,
      List.filterMap_flatMap]

theorem stubs_right (hright : s.useRight = true) :
    (stack s false box first last bs).filterMap (Call.stub? .right) =
      ⟨s.right, min s.bottom (last.lAnchor.y - 10)⟩ ::
        (bs.tail.dropLast.map fun b => ⟨s.right, b.lAnchor.y - 10⟩) := by
  rw [List.map_eq_flatMap]
  cases hleft : s.useLeft <;>
    simp [stack, hleft, hright, connect, hline, Call.stub?, List.filterMap_cons,
      List.filterMap_flatMap]

/-- The stubs of a stack on a rail that it meets end on that rail, no further down than at its last
alternative. -/
theorem stub_of_mem_stack (h : Placement.Stacked box.normalize bs false s.useLeft s.useRight)
    (hlast : last ∈ bs.getLast?) (hlong : last ∈ bs.tail) {c : Call Rat}
    (hc : c ∈ stack s false box first last bs) (hstub : c.stub? side = some q)
    (hrail : s.rail? side = some x) : q.x = x ∧ q.y ≤ last.lAnchor.y - 10 := by
  obtain ⟨hrow, -, -⟩ := (h.hangs rfl last hlong).coordinates
  have hq : q ∈ (stack s false box first last bs).filterMap (Call.stub? side) :=
    List.mem_filterMap.mpr ⟨c, hc, hstub⟩
  have hbetween : ∀ b ∈ bs.tail.dropLast, b.lAnchor.y ≤ last.lAnchor.y := fun b hb =>
    h.row_le_last hlast (List.mem_of_mem_tail (List.mem_of_mem_dropLast hb))
  cases side with
  | left =>
      obtain ⟨hleft, rfl⟩ := Option.ite_some_none_eq_some.mp hrail
      rw [stubs_left hleft] at hq
      rcases List.mem_cons.mp hq with rfl | hq
      · exact ⟨rfl, le_rfl⟩
      rcases List.mem_cons.mp hq with rfl | hq
      · refine ⟨rfl, ?_⟩
        simp
        linarith
      · obtain ⟨b, hb, rfl⟩ := List.mem_map.mp hq
        exact ⟨rfl, sub_le_sub_right (hbetween b hb) 10⟩
  | right =>
      obtain ⟨hright, rfl⟩ := Option.ite_some_none_eq_some.mp hrail
      rw [stubs_right hright] at hq
      rcases List.mem_cons.mp hq with rfl | hq
      · exact ⟨rfl, min_le_right _ _⟩
      · obtain ⟨b, hb, rfl⟩ := List.mem_map.mp hq
        exact ⟨rfl, sub_le_sub_right (hbetween b hb) 10⟩

end Strokes

/-- A stub of a stack ends on its rail.  The rail is drawn down to there on the right, and on the left unless the
stack lies in the last alternative of the one that has opened the rail. -/
theorem Entrance.IsServed.stub {d : Backdrop Rat} {e : Entrance Rat}
    {shown : List (Scope Rat × Event Rat)} {side : Side} (h : e.IsServed d shown) (hn : e.node.IsExpression)
    (hstands : e.Stands d) (hshown : e.IsShown d shown) (hstack : e.node.isStack = true)
    {c : Call Rat} {x : Rat} {q : Point Rat} (hc : c ∈ e.strokes d)
    (hrail : e.context.live.rail? side = some x) (hstub : c.stub? side = some q) :
    ∃ r, e.scope.lastRail? side = some r ∧ (e.pen d).origins.toX q.x = r.x ∧
      (side = .right ∨ (∀ m ∈ r.opener.lastAlternative?, e.node ∉ m.preorder) →
        ∀ y, r.bottom ≤ y ∨ e.reach ≤ y → y ≤ (e.pen d).origins.toY q.y →
          IsCovered shown r.x y) := by
  obtain ⟨id, a, as, hnode, hfan⟩ := hn.exists_of_isStack hstack
  have habove := above_eq_false h.above hrail
  have hstacked := hstands.stacked hnode hfan hn
  have hlast := d.lastBox_mem a as
  have hlong := lastBox_mem_tail (d := d) hnode hn
  have hframed : (e.framed d).live.rail? side = some (x - (d.box e.node).tl.x) := by
    rw [framed, rail?_translateRails, Option.map_eq_some_iff]
    exact ⟨x, hrail, rfl⟩
  rw [strokes_stack hnode hfan, habove] at hc
  rw [habove] at hstacked
  obtain ⟨hqx, hqy⟩ := Strokes.stub_of_mem_stack hstacked hlast hlong hc hstub hframed
  have hfoot : (e.within d).origins.toY q.y ≤ e.foot d a as := add_le_add_left hqy _
  obtain ⟨r, hr, hmet⟩ := h.meets side x hrail
  rw [pen_stack hnode]
  refine ⟨r, hr, by rw [hqx, toX_within, hmet], fun hside y hy hy' => ?_⟩
  have hyfoot := hy'.trans hfoot
  cases side with
  | right =>
      obtain ⟨r', hr', hdrawn⟩ := h.right x hrail
      cases hr.symm.trans hr'
      rcases lt_or_ge y e.reach with hlt | hge
      · exact hdrawn y (hy.resolve_right hlt.not_ge) hlt
      · rw [← hmet]
        exact isCovered_right hnode hfan habove hshown hrail hge hyfoot
  | left =>
      obtain ⟨r', top, hangs⟩ := h.left x hrail
      cases hr.symm.trans hangs.last
      refine hangs.drawn y (hy.elim hangs.span.trans hangs.reach.trans) ?_
      -- The box of the stack ends above the last alternative of the opener, and so does its foot.
      have hclear := hangs.clear (hside.resolve_left (by rintro ⟨⟩))
      have hmem := List.mem_of_getLast? hlast
      have hlevel := (hstacked.level _ hmem).2.trans (hstacked.inside _ hmem).bottom
      rw [box_eq, Box.moveBy_br, Point.translate_y] at hclear
      rw [foot, Origins.toY] at hyfoot
      linarith

/-- The row that the context of an open node gives as the bottom of its rails, in absolute coordinates. -/
def Opened.reach (p : Opened Rat) : Rat :=
  p.context.live.bottom + p.origin.y

/-- A call that is made while a long alternation is the innermost open node is a stub on the rail that is
offered to it on a side. -/
structure Scope.HangsStub (σ : Scope Rat) (c : Call Rat) (side : Side) (p : Opened Rat) (q : Point Rat) :
    Prop where
  innermost : σ.opened.head? = some p
  stack : p.node.isStack = true
  offered : (p.context.live.rail? side).isSome = true
  stub : c.stub? side = some q

/-- From the bottom of a rail, be it the one that it was opened with or the one in the context, down to the
end of a stub the rail is drawn. -/
def IsAttached (shown : List (Scope Rat × Event Rat)) (r : RailSpan Rat) (σ : Scope Rat)
    (p : Opened Rat) (q : Point Rat) : Prop :=
  ∀ y, r.bottom ≤ y ∨ p.reach ≤ y → y ≤ σ.origins.toY q.y → IsCovered shown r.x y

/-- In a drawing of a grammar that has been read and laid out, each stub of a long alternation on a rail that
is offered to it ends on the rail that was opened last on that side.  It is attached there: on the right
always, and on the left unless the alternation lies in the last alternative of the one that has opened the
rail. -/
theorem stubs_attached {reader : Ebnf.Reader} {nextId : Nat} {text : String} {root : Node}
    (hread : (reader.read nextId text).result = .ok root) {direction : Direction}
    {table : BoxTable Rat} {engine : Engine Rat}
    (hlayout : Engine.layout root direction = (.ok table, engine)) (links : List String)
    (above : Bool) :
    ∃ (handsBack : Bool) (session : DrawingSession Rat),
      (DrawingSession.start table links direction).draw root above = (.ok handsBack, session) ∧
      ∀ o : Origins Rat, let shown := sights ⟨o, []⟩ session.events.toList
        ∀ (σ : Scope Rat) (c : Call Rat), (σ, .call c) ∈ shown →
          ∀ side p q, σ.HangsStub c side p q →
            ∃ r, σ.leave.lastRail? side = some r ∧ σ.origins.toX q.x = r.x ∧
              (side = .right ∨ (∀ m ∈ r.opener.lastAlternative?, p.node ∉ m.preorder) →
                IsAttached shown r σ p q) := by
  have hroot := Ebnf.isGrammar_of_read hread
  obtain ⟨handsBack, session, hdraw, hsights⟩ :=
    exists_drawing hroot.isComplete hlayout links above
  refine ⟨handsBack, session, hdraw, ?_⟩
  rintro o shown σ c hc side p q ⟨hp, hstack, hoffered, hstub⟩
  obtain ⟨x, hrail⟩ := Option.isSome_iff_exists.mp hoffered
  have hshown : ∀ e : Entrance Rat, (Entrance.start o root direction above).Leads ⟨table, links⟩ e →
      e.IsShown ⟨table, links⟩ shown := fun e hleads c hc =>
    (hsights o _).mpr ⟨e, hleads, .inr ⟨c, hc, rfl⟩⟩
  obtain ⟨e, hleads, hself | ⟨c', hc', hcall⟩⟩ := (hsights o _).mp hc
  · cases hself
  cases hcall
  obtain ⟨rails, hopened⟩ := e.opened_pen (d := ⟨table, links⟩)
  rw [hopened] at hp
  cases hp
  have hleave : (e.pen ⟨table, links⟩).leave.lastRail? side = e.scope.lastRail? side := by
    rw [Scope.lastRail?, Scope.leave, hopened]
    rfl
  rw [hleave]
  obtain ⟨hn, hstands, -⟩ := (hleads.heads_or_stands hroot hlayout).resolve_left fun h =>
    absurd hstack (by simp [h.1.heading.isStack_eq_false])
  exact (hleads.isServed hroot hlayout hshown).stub hn hstands (hshown e hleads) hstack hc' hrail
    hstub

def hangingText : String :=
  "x = b | (c | d) ."

def hangingTree : Node :=
  .grammar 8 none (some (.productionList 7 [.production 6 (some (.identifier 5 "x"))
    (some (.alternation 4 [.identifier 0 "b",
      .alternation 3 [.identifier 1 "c", .identifier 2 "d"]]))])) none

theorem read_hangingText : (Ebnf.Reader.new.read 0 hangingText).result = .ok hangingTree := by cbv

theorem stubs_attached_hanging : ∃ (table : BoxTable Rat) (engine : Engine Rat),
    (Ebnf.Reader.new.read 0 hangingText).result = .ok hangingTree ∧
    Engine.layout hangingTree .right = (.ok table, engine) ∧
    ∃ (handsBack : Bool) (session : DrawingSession Rat),
      (DrawingSession.start table ["x"] .right).draw hangingTree false = (.ok handsBack, session) ∧
      ∀ o : Origins Rat, let shown := sights ⟨o, []⟩ session.events.toList
        ∀ (σ : Scope Rat) (c : Call Rat), (σ, .call c) ∈ shown →
          ∀ side p q, σ.HangsStub c side p q →
            ∃ r, σ.leave.lastRail? side = some r ∧ σ.origins.toX q.x = r.x ∧
              (side = .right ∨ (∀ m ∈ r.opener.lastAlternative?, p.node ∉ m.preorder) →
                IsAttached shown r σ p q) := by
  have hcomplete : hangingTree.isComplete = true := by decide
  obtain ⟨table, engine, hlayout⟩ := Engine.layout_of_complete (α := Rat) hcomplete
    (by decide) (by decide) .right
  exact ⟨table, engine, read_hangingText, hlayout,
    stubs_attached read_hangingText hlayout ["x"] false⟩

/-- The last stub on the left of the inner alternation, which is the last alternative of the outer one, ends
below the rail with nothing drawn between them. -/
theorem stub_floats : ∃ (table : BoxTable Rat) (engine : Engine Rat),
    (Ebnf.Reader.new.read 0 hangingText).result = .ok hangingTree ∧
    Engine.layout hangingTree .right = (.ok table, engine) ∧
    ∃ (handsBack : Bool) (session : DrawingSession Rat),
      (DrawingSession.start table ["x"] .right).draw hangingTree false = (.ok handsBack, session) ∧
      let shown := sights ⟨.start, []⟩ session.events.toList
      ∃ (σ : Scope Rat) (c : Call Rat), (σ, .call c) ∈ shown ∧
        ∃ p q r y, σ.HangsStub c .left p q ∧ σ.leave.lastRail? .left = some r ∧
          σ.origins.toX q.x = r.x ∧ r.bottom ≤ y ∧ p.reach ≤ y ∧ y ≤ σ.origins.toY q.y ∧
          ¬ IsCovered shown r.x y := by
  have hgap : ∃ table ∈ (Engine.layout (α := Rat) hangingTree .right).1.toOption,
      let shown := sights ⟨.start, []⟩
        ((DrawingSession.start table ["x"] .right).draw hangingTree false).2.events.toList
      ∃ s ∈ shown, ∃ c ∈ callsOf [s.2], ∃ p ∈ s.1.opened.head?, p.node.isStack = true ∧
        (p.context.live.rail? .left).isSome = true ∧ ∃ q ∈ c.stub? .left,
          ∃ r ∈ s.1.leave.lastRail? .left, s.1.origins.toX q.x = r.x ∧
            r.bottom ≤ s.1.origins.toY q.y - 1 ∧ p.reach ≤ s.1.origins.toY q.y - 1 ∧
            ¬ IsCovered shown r.x (s.1.origins.toY q.y - 1) := by
    decide +kernel
  obtain ⟨table, htable, ⟨σ, event⟩, hshown, c, hc, p, hp, hstack, hoffered, q, hstub, r, hr, hx, hbottom,
    hreach, hgap⟩ := hgap
  have hlayout : Engine.layout hangingTree .right =
      (.ok table, (Engine.layout (α := Rat) hangingTree .right).2) := by
    generalize Engine.layout (α := Rat) hangingTree .right = outcome at htable ⊢
    obtain ⟨_ | t, engine⟩ := outcome
    · cases htable
    · cases htable
      rfl
  obtain ⟨handsBack, session, hdraw, -⟩ := exists_drawing (by decide) hlayout ["x"] false
  obtain rfl : event = .call c := by
    cases event <;> simp [callsOf] at hc
    rw [hc]
  rw [hdraw] at hshown hgap
  exact ⟨table, _, read_hangingText, hlayout, handsBack, session, hdraw, σ, c, hshown, p, q, r, _,
    ⟨hp, hstack, hoffered, hstub⟩, hr, hx, hbottom, hreach, by linarith, hgap⟩

end Railroad
