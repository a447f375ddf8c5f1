import Mathlib.Tactic.Ring
import Railroad.Proofs.Drawing.Agreement
import Railroad.Proofs.Drawing.Entrances
import Railroad.Proofs.Ebnf.ReadTrees
import Railroad.Proofs.Geometry.Exact
/-!
The rails that a node is offered, and those that the alternations around it have opened.

A context measures its rails in the frame of the node above, and a rail is opened in the frame of an
alternation.  Wherever a frame is moved under a context with rails, its rails are measured anew, so that
in absolute coordinates a rail stays where it was opened.
-/
namespace Railroad

section Sides

variable {α : Type}

/-- Where the rail on a side runs, if there is one. -/
def Surroundings.rail? (s : Surroundings α) : Side → Option α
  | .left => if s.useLeft then some s.left else none
  | .right => if s.useRight then some s.right else none

/-- The rail on a side that an enclosing node has opened last. -/
def Scope.lastRail? (σ : Scope α) (side : Side) : Option (RailSpan α) :=
  (σ.opened.flatMap Opened.rails).find? (·.side = side)

theorem Surroundings.rail?_ne_none {s : Surroundings α}
    (h : (s.useLeft && s.useRight) = true) (side : Side) : s.rail? side ≠ none := by
  rw [Bool.and_eq_true] at h
  cases side <;> simp [rail?, h]

variable {c : Context α} {side : Side} {x : α}

@[simp] theorem Context.rail?_clearRails : c.clearRails.live.rail? side = none := by
  cases side <;> rfl

theorem Context.IsFree.rail? (h : c.IsFree) (side : Side) : c.live.rail? side = none := by
  cases side
  · exact if_neg (by simp [h.1])
  · exact if_neg (by simp [h.2])

theorem Context.not_isFree (h : c.live.rail? side = some x) : ¬ c.IsFree := by
  intro hfree
  rw [hfree.rail?] at h
  cases h

theorem rail?_of_itemContext {first last : Bool}
    (h : (itemContext c first last).live.rail? side = some x) : c.live.rail? side = some x := by
  cases side
  · obtain ⟨huse, hx⟩ := Option.ite_some_none_eq_some.mp h
    exact Option.ite_some_none_eq_some.mpr ⟨(Bool.and_eq_true _ _ ▸ huse).1, hx⟩
  · obtain ⟨huse, hx⟩ := Option.ite_some_none_eq_some.mp h
    exact Option.ite_some_none_eq_some.mpr ⟨(Bool.and_eq_true _ _ ▸ huse).1, hx⟩

variable [Scalar α]

theorem rail?_translateRails (p : Point α) :
    (c.translateRails p).live.rail? side = (c.live.rail? side).map (· - p.x) := by
  cases side
  · cases hl : c.live.useLeft <;>
      simp [Surroundings.rail?, Context.translateRails, Context.withLive, hl]
  · cases hr : c.live.useRight <;>
      simp [Surroundings.rail?, Context.translateRails, Context.withLive, hr]

/-- On each side an alternation either leaves the rail in use that is there, or opens one down to the row of
its last alternative and offers it to its alternatives. -/
theorem openRails_rail? (opener : Node) (first last : Box α) (alternatives : List (Box α))
    (side : Side) :
    let opened := openRails c opener first last alternatives
    (opened.1.live.rail? side = c.live.rail? side ∧ opened.2.reverse.find? (·.side = side) = none) ∨
      (c.live.rail? side = none ∧ ∃ r, opened.2.reverse.find? (·.side = side) = some r ∧
        r.opener = opener ∧ r.bottom = last.rAnchor.y - Metrics.radius ∧
        (side = .left → r.x = Metrics.radius) ∧ opened.1.live.rail? side = some r.x) := by
  cases hl : c.live.useLeft <;> cases hr : c.live.useRight <;> cases side <;>
    simp [openRails, Surroundings.rail?, hl, hr, Context.withLive]

/-- The bottom in the context is that of the rails opened last. -/
theorem openRails_bottom (opener : Node) (first last : Box α) (alternatives : List (Box α)) :
    (openRails c opener first last alternatives).1.live.bottom =
      if c.live.useLeft && c.live.useRight then c.live.bottom
      else last.rAnchor.y - Metrics.radius := by
  cases hl : c.live.useLeft <;> cases hr : c.live.useRight <;>
    simp [openRails, hl, hr, Context.withLive]

end Sides

/-- The rails that a node is offered run where the enclosing alternations have opened them last. -/
def Scope.Meets (σ : Scope Rat) (c : Context Rat) : Prop :=
  ∀ side x, c.live.rail? side = some x →
    ∃ r, σ.lastRail? side = some r ∧ σ.origins.toX x = r.x

section Entrances

variable {d : Backdrop Rat} {e e' : Entrance Rat} {side : Side}

theorem Entrance.lastRail?_within :
    (e.within d).lastRail? side =
      (((e.spans d).reverse.find? (·.side = side)).map
        (·.translate (e.scope.origins.push (d.box e.node).tl).current)).or
          (e.scope.lastRail? side) := by
  rw [within_eq, Scope.lastRail?, List.flatMap_cons, List.find?_append, ← List.map_reverse,
    List.find?_map]
  rfl

theorem Entrance.toX_within (x : Rat) :
    (e.within d).origins.toX (x - (d.box e.node).tl.x) = e.scope.origins.toX x := by
  rw [within_eq]
  simp only [Origins.toX, Origins.push, Point.translate]
  change x - _ + (_ + _) = x + _
  ring

theorem Entrance.toY_within (y : Rat) :
    (e.within d).origins.toY (y - (d.box e.node).tl.y) = e.scope.origins.toY y := by
  rw [within_eq]
  simp only [Origins.toY, Origins.push, Point.translate]
  change y - _ + (_ + _) = y + _
  ring

/-- Within a node that opens no rails those of the node above are met. -/
theorem Entrance.meets_framed (h : e.scope.Meets e.context) (hspans : e.spans d = []) :
    (e.within d).Meets (e.framed d) := by
  intro side x hx
  rw [framed, rail?_translateRails, Option.map_eq_some_iff] at hx
  obtain ⟨y, hy, rfl⟩ := hx
  obtain ⟨r, hr, hmeets⟩ := h side y hy
  refine ⟨r, ?_, (toX_within y).trans hmeets⟩
  rw [lastRail?_within, hspans]
  exact hr

theorem Entrance.spans_stack {id : Nat} {a : Node} {as : List Node}
    (hnode : e.node = .alternation id (a :: as)) (hfan : Node.isFan (a :: as) = false) :
    e.spans d = (e.railed d a as).2 := by
  rw [spans, hnode]
  exact if_neg (by simp [hfan])

/-- Between the rails of an alternation those that it has opened are met, and those of the node above
where it has opened none. -/
theorem Entrance.meets_railed {id : Nat} {a : Node} {as : List Node}
    (hnode : e.node = .alternation id (a :: as)) (hfan : Node.isFan (a :: as) = false)
    (h : e.scope.Meets e.context) : (e.within d).Meets (e.railed d a as).1 := by
  intro side x hx
  rw [lastRail?_within, spans_stack hnode hfan]
  obtain ⟨hsame, hnone⟩ | ⟨-, r, hr, -, -, -, hopen⟩ := openRails_rail? (c := (e.framed d).push) e.node
    (d.box a) (((a :: as).map d.box).getLast?.getD (d.box a)) ((a :: as).map d.box) side
  · rw [railed, hsame] at hx
    change ((e.framed d).live.rail? side) = some x at hx
    rw [framed, rail?_translateRails, Option.map_eq_some_iff] at hx
    obtain ⟨y, hy, rfl⟩ := hx
    obtain ⟨r, hr, hmeets⟩ := h side y hy
    rw [railed, hnone]
    exact ⟨r, hr, (toX_within y).trans hmeets⟩
  · rw [railed, hopen] at hx
    cases hx
    refine ⟨_, by rw [railed, hr]; rfl, ?_⟩
    rw [within_eq]
    rfl

/-- The rails that a child is offered are passed on by a sequence, or come from a stack. -/
theorem Entrance.offers (hn : e.node.IsExpression) (he' : e' ∈ e.onward d)
    {x : Rat} (hrail : e'.context.live.rail? side = some x) :
    (∃ id items, e.node = .sequence id items ∧ ∃ first last,
      e'.context = itemContext (e.context.push.push.translateRails (d.box e.node).tl) first last) ∨
    ∃ id a as, e.node = .alternation id (a :: as) ∧ Node.isFan (a :: as) = false ∧
      e'.context = (e.railed d a as).1.push := by
  have hrails := Context.not_isFree hrail
  have hmap : ∀ {ns : List Node} {σ : Scope Rat} {c : Context Rat} {flag : Bool},
      e' ∈ ns.map (Entrance.mk σ · c flag) → e'.context = c := by
    intro ns σ c flag he'
    obtain ⟨m, -, rfl⟩ := List.mem_map.mp he'
    rfl
  rw [onward] at he'
  generalize hnode : e.node = n at hn he' ⊢
  cases hn with
  | literal | identifier => cases he'
  | @alternation id alternatives hmany =>
      cases alternatives with
      | nil => simp at hmany
      | cons a as =>
          -- The contexts of a fan are cleared of rails like those of a loop.
          have hcontext := hmap he'
          cases hfan : Node.isFan (a :: as) with
          | true =>
              rw [if_pos hfan] at hcontext
              exact absurd (hcontext ▸ ⟨rfl, rfl⟩) hrails
          | false =>
              rw [if_neg (by simp [hfan])] at hcontext
              exact .inr ⟨id, a, as, rfl, hfan, hcontext⟩
  | sequence id =>
      obtain ⟨-, -, first, last, hcontext⟩ := of_mem_items he'
      exact .inl ⟨id, _, rfl, first, last, hcontext⟩
  | repetition | optional => exact absurd (hmap he' ▸ ⟨rfl, rfl⟩) hrails
  | loop | separatedLoop =>
      rcases List.mem_append.mp he' with he' | he'
      · exact absurd (hmap he' ▸ ⟨rfl, rfl⟩) hrails
      · exact absurd (hmap he' ▸ ⟨rfl, rfl⟩) hrails

/-- The children of an expression meet the rails that they are offered if it does so itself. -/
theorem Entrance.meets_onward (hn : e.node.IsExpression) (h : e.scope.Meets e.context)
    (he' : e' ∈ e.onward d) : e'.scope.Meets e'.context := by
  intro side x hx
  rw [(of_mem_onward he').1]
  obtain ⟨id, items, hnode, first, last, hcontext⟩ | ⟨id, a, as, hnode, hfan, hcontext⟩ :=
    offers hn he' hx
  · rw [hcontext] at hx
    exact meets_framed h (by rw [spans, hnode]) side x (rail?_of_itemContext hx)
  · rw [hcontext] at hx
    exact meets_railed hnode hfan h side x hx

theorem Entrance.Leads.meets {root : Node} {direction : Direction} {above : Bool} {o : Origins Rat}
    (hroot : root.IsGrammar) (h : (start o root direction above).Leads d e) :
    e.scope.Meets e.context := by
  refine h.of_expressions (P := fun e => e.scope.Meets e.context) hroot ?_ ?_
  · exact fun e hfree side x hx => absurd hfree (Context.not_isFree hx)
  · intro e _ hn hmeets e' he'
    exact meets_onward hn hmeets he'

end Entrances

/-- In a drawing of a grammar that has been read and laid out, wherever it begins, each node that is
entered with a rail on a side finds that rail where the alternations around it have opened one last on
that side. -/
theorem rails_met {reader : Ebnf.Reader} {nextId : Nat} {text : String} {root : Node}
    (hread : (reader.read nextId text).result = .ok root) {direction : Direction}
    {table : BoxTable Rat} {engine : Engine Rat}
    (hlayout : Engine.layout root direction = (.ok table, engine)) (links : List String)
    (above : Bool) :
    ∃ (handsBack : Bool) (session : DrawingSession Rat),
      (DrawingSession.start table links direction).draw root above = (.ok handsBack, session) ∧
      ∀ (o : Origins Rat) (σ : Scope Rat) (n : Node) (c : Context Rat) (flag : Bool),
        (σ, .enter n c flag) ∈ inScope ⟨o, []⟩ session.events.toList →
        ∀ side x, c.live.rail? side = some x →
          ∃ r, σ.lastRail? side = some r ∧ σ.origins.toX x = r.x := by
  have hroot := Ebnf.isGrammar_of_read hread
  obtain ⟨handsBack, session, hdraw, hsights⟩ :=
    exists_drawing hroot.isComplete hlayout links above
  refine ⟨handsBack, session, hdraw, ?_⟩
  intro o σ n c flag henter
  obtain ⟨e, hleads, hself | ⟨call, -, hcall⟩⟩ :=
    (hsights o _).mp (mem_sights_iff.mpr ⟨henter, rfl⟩)
  · cases hself
    exact hleads.meets hroot
  · cases hcall

/-- The id of a node that is entered with a rail on a side. -/
def Event.railed? {α : Type} (side : Side) : Event α → Option Nat
  | .enter n c _ => (c.live.rail? side).map fun _ => n.id
  | _ => none

theorem rails_met_choice : ∃ (table : BoxTable Rat) (engine : Engine Rat),
    (Ebnf.Reader.new.read 0 choiceText).result = .ok choiceTree ∧
    Engine.layout choiceTree .right = (.ok table, engine) ∧
    ∃ (handsBack : Bool) (session : DrawingSession Rat),
      (DrawingSession.start table ["x"] .right).draw choiceTree false = (.ok handsBack, session) ∧
      session.events.toList.filterMap (Event.railed? .left) = [1, 3] ∧
      session.events.toList.filterMap (Event.railed? .right) = [1, 3] ∧
      ∀ (o : Origins Rat) (σ : Scope Rat) (n : Node) (c : Context Rat) (flag : Bool),
        (σ, .enter n c flag) ∈ inScope ⟨o, []⟩ session.events.toList →
        ∀ side x, c.live.rail? side = some x →
          ∃ r, σ.lastRail? side = some r ∧ σ.origins.toX x = r.x := by
  have hrailed : ∃ table ∈ (Engine.layout (α := Rat) choiceTree .right).1.toOption,
      let session := ((DrawingSession.start table ["x"] .right).draw choiceTree false).2
      session.events.toList.filterMap (Event.railed? .left) = [1, 3] ∧
        session.events.toList.filterMap (Event.railed? .right) = [1, 3] := by
    decide +kernel
  obtain ⟨table, htable, hrailed⟩ := hrailed
  obtain ⟨engine, hlayout⟩ := Engine.exists_of_mem_layout htable
  obtain ⟨handsBack, session, hdraw, hmet⟩ := rails_met read_choiceText hlayout ["x"] false
  rw [hdraw] at hrailed
  exact ⟨table, engine, read_choiceText, hlayout, handsBack, session, hdraw, hrailed.1, hrailed.2, hmet⟩

end Railroad
