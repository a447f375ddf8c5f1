import Railroad.Proofs.Drawing.Connectors
import Railroad.Proofs.Drawing.Entrances
import Railroad.Proofs.Layout.Order
import Railroad.Proofs.Layout.Rows
/-!
Where the expressions of a drawing stand: at each of them the render pass finds what the size pass has left
there for the flow and the flag that it is entered with.
-/
namespace Railroad

section Visits

variable {α : Type} [Scalar α]

/-- The visit that is paid at an entrance. -/
def Entrance.visit (e : Entrance α) : Visit :=
  .to e.node e.context.flow e.above

variable {d : Backdrop α} {e e' : Entrance α}

omit [Scalar α] in
theorem Entrance.map_visit_map {ns : List Node} {σ : Scope α} {c : Context α} {flag : Bool}
    {f : Flow} (hflow : c.flow = f) :
    (ns.map (Entrance.mk σ · c flag)).map visit = ns.map (Visit.to · f flag) := by
  rw [List.map_map, ← hflow]
  rfl

omit [Scalar α] in
theorem Entrance.map_visit_items (σ : Scope α) (c : Context α) (first : Bool) (ns : List Node) :
    (items σ c first ns).map visit = c.flow.items first ns := by
  induction ns generalizing first with
  | nil => rfl
  | cons n ns ih =>
      rw [items, List.map_cons, ih, visit, flow_itemContext]
      rfl

/-- An expression goes on to the visits to its children. -/
theorem Entrance.map_visit_onward (hn : e.node.IsExpression) (names : Direction) :
    (e.onward d).map visit = e.context.flow.onward names e.node := by
  obtain ⟨σ, n, c, above⟩ := e
  cases hn with
  | literal | identifier => rfl
  | @alternation id alternatives =>
      cases alternatives with
      | nil => rfl
      | cons a as =>
          refine map_visit_map ?_
          rw [Row.ofAlternatives]
          split
          · rfl
          · exact flow_openRails ..
  | sequence => exact map_visit_items _ _ _ _
  | repetition | optional | loop | separatedLoop => rfl

theorem Entrance.visit_mem_onward (hn : e.node.IsExpression) (names : Direction)
    (he' : e' ∈ e.onward d) : e'.visit ∈ e.context.flow.onward names e.node := by
  rw [← map_visit_onward hn]
  exact List.mem_map_of_mem he'

end Visits

section Standing

variable {d : Backdrop Rat} {e e' : Entrance Rat}

/-- The node that is entered stands in the table, as large as it has been measured, with its anchor row where
it was and the usual inset. -/
def Entrance.Stands (d : Backdrop Rat) (e : Entrance Rat) : Prop :=
  ∃ k s b, e.visit.Stands d.table k s b ∧ s.box.Moved b ∧ b.xAnchor = 10

theorem Backdrop.box_of_box? {n : Node} {b : Box Rat} (h : d.table.box? n = some b) : d.box n = b := by
  rw [Backdrop.box, h]
  rfl

/-- The children of an expression that stands do so with the usual inset. -/
theorem Visit.Stands.xAnchor_children {v : Visit} {k : Nat} {s : Sized Rat} {b : Box Rat}
    (hn : v.node.IsExpression) (h : v.Stands d.table k s b) {m : Node} (hm : m ∈ v.node.children) :
    (d.box m).xAnchor = 10 := by
  obtain ⟨ss, p, hholds⟩ := h.holds hn.isComplete
  have hmem : (d.box m).xAnchor ∈ ss.map (·.box.xAnchor) := by
    rw [← (hholds.arranges.xAnchor hn).2, ← Backdrop.map_box (hholds.map_box? hn.isComplete)]
    exact List.mem_map_of_mem (List.mem_map_of_mem hm)
  obtain ⟨s', hs', hinset⟩ := List.mem_map.mp hmem
  obtain ⟨v', hv', b', hstands'⟩ := hholds.exists_stands_of_mem hs'
  rw [← hinset]
  exact hstands'.xAnchor (hn.of_mem_children (Visit.node_mem_children hv'))

theorem Entrance.Stands.xAnchor_children (h : e.Stands d) (hn : e.node.IsExpression) {m : Node}
    (hm : m ∈ e.node.children) : (d.box m).xAnchor = 10 := by
  obtain ⟨k, s, b, hstands, -⟩ := h
  exact hstands.xAnchor_children hn hm

theorem Entrance.Stands.onward (h : e.Stands d) (hn : e.node.IsExpression)
    (he' : e' ∈ e.onward d) : e'.Stands d := by
  obtain ⟨k, s, b, hstands, hmoved, -⟩ := h
  obtain ⟨-, ss, p, -, -, hchildren⟩ := hstands.finds hn hmoved
  have hm := node_mem_children he'
  obtain ⟨s', b', hstands', hmoved'⟩ := hchildren _ (visit_mem_onward hn .right he')
  obtain ⟨hbox, -⟩ := hstands'.finds (hn.of_mem_children hm) hmoved'
  refine ⟨k + 1, s', b', hstands', hmoved', ?_⟩
  rw [← Backdrop.box_of_box? hbox]
  exact hstands.xAnchor_children hn hm

/-- The render pass finds the box of an expression that stands, and those of its children, as the size pass
has left them.  Of what the children have handed back there only alternations that are entered from above count. -/
theorem Entrance.Stands.finds (h : e.Stands d) (hn : e.node.IsExpression) :
    (d.box e.node).xAnchor = 10 ∧
      ∃ ss p, d.Finds e.node e.context.flow e.above (d.box e.node) ss p ∧
        ∀ s ∈ ss, ∃ v ∈ e.context.flow.onward .right e.node,
          s.handsBack = (v.node.isAlternation && v.above) := by
  obtain ⟨k, s, b, hstands, hmoved, hinset⟩ := h
  obtain ⟨hbox, ss, p, hfinds, hflags, -⟩ := hstands.finds hn hmoved
  have hb : d.box e.node = b := Backdrop.box_of_box? hbox
  rw [hb]
  exact ⟨hinset, ss, p, hfinds, hflags⟩

/-- The expression of a production that stands does so too, entered towards the right. -/
theorem Visit.Stands.expression {v : Visit} {k : Nat} {s : Sized Rat} {b : Box Rat} {id nameId : Nat}
    {name : String} {expression : Node} (hexpression : expression.IsExpression)
    (hnode : v.node = .production id (some (.identifier nameId name)) (some expression))
    (h : v.Stands d.table k s b) : ∃ s' b',
      (Visit.to expression (.free .right) false).Stands d.table (k + 1) s' b' ∧ s'.box.Moved b' ∧
        b'.xAnchor = 10 := by
  have hproduction := Node.IsProduction.intro id nameId name hexpression
  obtain ⟨ss, p, -, -, -, harranges, -, hparts⟩ := h.holds (hnode ▸ hproduction.isComplete)
  rw [hnode] at harranges hparts
  obtain ⟨_, _, first, second, -, -, rfl, rfl⟩ := harranges.eq_of_production
  cases hparts with
  | cons _ hparts =>
      cases hparts with
      | cons hstands _ =>
          refine ⟨_, _, hstands, ⟨?_, rfl⟩, hstands.xAnchor hexpression⟩
          exact (Box.sameSize_moveLAnchor _ _).trans (Box.sameSize_moveBy _ _)

/-- A heading that is entered without rails, and stands in the table, as large as it has been measured, if it
is no leaf. -/
structure Entrance.Heads (d : Backdrop Rat) (e : Entrance Rat) : Prop where
  heading : e.node.IsHeading
  free : e.context.IsFree
  stands : e.node.isLeaf = false →
    ∃ v k s b, v.node = e.node ∧ Visit.Stands d.table k v s b ∧ s.box.SameSize b

theorem Node.isLeaf_of_mem_children {n m : Node} (hm : m ∈ n.children) : n.isLeaf = false := by
  cases n with
  | literal | identifier | other => cases hm
  | _ => rfl

theorem Node.IsHeading.isComplete {n : Node} (h : n.IsHeading) : n.isComplete = true := by
  cases h with
  | grammar hn => exact hn.isComplete
  | rules id hproductions =>
      exact isCompleteList_iff.mpr fun n hn => (hproductions n hn).isComplete
  | rule hn => exact hn.isComplete
  | leaf hn =>
      cases n with
      | literal | identifier | other => rfl
      | _ => cases hn

/-- Outside the flow headings go on to their children, but for the expressions of productions. -/
theorem Node.IsHeading.direction_onward (h : e.node.IsHeading) (hn : ¬ e.node.IsProduction)
    (he' : e' ∈ e.onward d) (hdirection : e.context.live.direction = .none) :
    e'.context.live.direction = .none := by
  have hmap : ∀ {ns : List Node} {σ : Scope Rat} {c : Context Rat} {flag : Bool},
      e' ∈ ns.map (Entrance.mk σ · c flag) → c.live.direction = .none →
        e'.context.live.direction = .none := by
    intro ns σ c flag he' hc
    obtain ⟨m, -, rfl⟩ := List.mem_map.mp he'
    exact hc
  obtain ⟨σ, n, c, above⟩ := e
  cases h with
  | grammar h =>
      cases h
      exact hmap he' rfl
  | rules => exact hmap he' rfl
  | rule h => exact absurd h hn
  | leaf h =>
      cases n with
      | literal | identifier | other => cases he'
      | _ => cases h

/-- From a heading one comes to headings, and to the expressions of productions: outside the flow, and into
it. -/
theorem Entrance.Heads.onward (h : e.Heads d) (he' : e' ∈ e.onward d) :
    e'.Heads d ∧ (e.context.live.direction = .none → e'.context.live.direction = .none) ∨
      e'.node.IsExpression ∧ e'.Stands d ∧ e'.context.live.direction = .right := by
  have hm := node_mem_children he'
  have hfree := h.heading.isFree_onward h.free he'
  obtain ⟨v, k, s, b, hv, hstands, hsize⟩ := h.stands (Node.isLeaf_of_mem_children hm)
  by_cases hproduction : e.node.IsProduction
  · rw [Entrance.onward] at he'
    generalize hnode : e.node = n at hproduction he'
    cases hproduction with
    | intro id nameId name hexpression =>
        rcases List.mem_append.mp he' with he' | he'
        · obtain rfl := List.mem_singleton.mp he'
          exact .inl ⟨⟨.leaf rfl, hfree, by rintro ⟨⟩⟩, fun h => h⟩
        · obtain rfl := List.mem_singleton.mp he'
          obtain ⟨s', b', hstands'⟩ := hstands.expression hexpression (hv.trans hnode)
          refine .inr ⟨hexpression, ⟨k + 1, s', b', ?_⟩, rfl⟩
          have hflow : (e.context.push.push.toward .right).flow = .free .right := by
            rw [Context.flow_toward, Context.flow_push, Context.flow_push, Context.flow, h.free.1,
              h.free.2]
            rfl
          rwa [Entrance.visit, hflow]
  · have hheading := (h.heading.of_mem_children hm).resolve_right fun h => hproduction h.1
    obtain ⟨v', s', b', hv', hstands', hsize'⟩ :=
      (hstands.nests (hv ▸ h.heading.isComplete) hsize).2 _ (hv ▸ hm)
    exact .inl ⟨⟨hheading, hfree, fun _ => ⟨v', k + 1, s', b', hv', hstands', hsize'⟩⟩,
      h.heading.direction_onward hproduction he'⟩

/-- The children of an expression are entered within the flow if it is. -/
theorem Entrance.direction_onward (hn : e.node.IsExpression) (he' : e' ∈ e.onward d)
    (hdirection : e.context.live.direction ≠ .none) : e'.context.live.direction ≠ .none :=
  direction_ne_none_of_mem_onward hn hdirection (visit_mem_onward hn .right he')

/-- Every node that is entered in the drawing of a grammar that has been laid out is one of its headings, or an
expression that stands, within the flow.  A drawing that begins outside the flow is so at all headings. -/
theorem Entrance.Leads.heads_or_stands {root : Node} {direction : Direction} {above : Bool}
    {o : Origins Rat} (hroot : root.IsGrammar) {engine : Engine Rat}
    (hlayout : Engine.layout root direction = (.ok d.table, engine))
    (h : (start o root direction above).Leads d e) :
    e.Heads d ∧ (direction = .none → e.context.live.direction = .none) ∨
      e.node.IsExpression ∧ e.Stands d ∧ e.context.live.direction ≠ .none := by
  induction h with
  | refl =>
      refine .inl ⟨⟨.grammar hroot, ⟨rfl, rfl⟩, fun _ => ?_⟩, id⟩
      exact ⟨_, 0, _, _, rfl, stands_of_layout hlayout, rfl, rfl⟩
  | @tail e e' _ he' ih =>
      obtain ⟨hheads, hout⟩ | ⟨hn, hstands, hdirection⟩ := ih
      · obtain ⟨hheads', hout'⟩ | ⟨hn', hstands', hright⟩ := hheads.onward he'
        · exact .inl ⟨hheads', hout' ∘ hout⟩
        · exact .inr ⟨hn', hstands', hright ▸ nofun⟩
      · exact .inr ⟨hn.of_mem_children (node_mem_children he'), hstands.onward hn he',
          direction_onward hn he' hdirection⟩

/-- Every expression of the drawing stands within the flow, but for the names of productions. -/
theorem Entrance.Leads.stands {root : Node} {direction : Direction} {above : Bool} {o : Origins Rat}
    (hroot : root.IsGrammar) {engine : Engine Rat}
    (hlayout : Engine.layout root direction = (.ok d.table, engine))
    (h : (start o root direction above).Leads d e) (hn : e.node.IsExpression)
    (hleaf : e.node.isLeaf = false) : e.Stands d ∧ e.context.live.direction ≠ .none := by
  obtain ⟨⟨hheading, -, -⟩, -⟩ | ⟨-, hstands⟩ := h.heads_or_stands hroot hlayout
  · generalize e.node = n at hheading hn hleaf
    cases hheading with
    | leaf hleaf' => rw [hleaf'] at hleaf; cases hleaf
    | grammar hn' | rule hn' =>
        cases hn'
        cases hn
    | rules => cases hn
  · exact hstands

end Standing

section Coordinates

variable {d : Backdrop Rat} {e e' : Entrance Rat}

/-- The box of the node that is entered, in absolute coordinates. -/
def Entrance.box (d : Backdrop Rat) (e : Entrance Rat) : Box Rat :=
  (d.box e.node).moveBy e.scope.origins.current

theorem Entrance.box_eq :
    e.box d = (d.box e.node).normalize.moveBy (e.within d).origins.current := by
  rw [within_eq]
  ext <;> simp [box, Origins.push, Box.normalize, Box.homing] <;> ring

theorem Entrance.box_of_mem_onward (he' : e' ∈ e.onward d) :
    e'.box d = (d.box e'.node).moveBy (e.within d).origins.current := by
  rw [box, (of_mem_onward he').1]

/-- The parts of an expression lie inside its box. -/
theorem Backdrop.Finds.inside {n : Node} {f : Flow} {above : Bool} {b c : Box Rat}
    {ss : List (Sized Rat)} {p : Placement Rat} (h : d.Finds n f above b ss p)
    (hc : c ∈ n.children.map d.box) : c.Inside b.normalize := by
  have hinside := h.sound.inside c (h.boxes ▸ hc)
  have hhomed := h.sound.homed
  obtain ⟨hwidth, hheight⟩ := h.moved.size
  rw [Box.width_eq, Box.width_eq, hhomed.x] at hwidth
  rw [Box.height_eq, Box.height_eq, hhomed.y] at hheight
  constructor <;> simp [Box.normalize, Box.homing]
  · exact hhomed.x ▸ hinside.left
  · exact hhomed.y ▸ hinside.top
  · linarith [hinside.right]
  · linarith [hinside.bottom]

theorem Entrance.Stands.inside (h : e.Stands d) (hn : e.node.IsExpression) (he' : e' ∈ e.onward d) :
    (e'.box d).Inside (e.box d) := by
  obtain ⟨-, ss, p, hfinds, -⟩ := h.finds hn
  have hinside := hfinds.inside (List.mem_map_of_mem (f := d.box) (node_mem_children he'))
  rw [box_of_mem_onward he', box_eq]
  exact (Box.inside_moveBy_iff _).mpr hinside

theorem Backdrop.Finds.row {n : Node} {f : Flow} {above : Bool} {b : Box Rat} {ss : List (Sized Rat)}
    {p : Placement Rat} (h : d.Finds n f above b ss p) : p.box.lAnchor.y = b.normalize.lAnchor.y := by
  have hy := h.sound.homed.y
  simp [Box.normalize, Box.homing, h.moved.row, hy]

/-- The items of a sequence that stands do so on its own row. -/
theorem Entrance.Stands.row_of_sequence {id : Nat} {items : List Node} (h : e.Stands d)
    (hn : e.node.IsExpression) (hnode : e.node = .sequence id items) (he' : e' ∈ e.onward d) :
    (e'.box d).lAnchor.y = (e.box d).lAnchor.y := by
  obtain ⟨-, ss, p, hfinds, -⟩ := h.finds hn
  have hrow := hfinds.row
  have hmem : d.box e'.node ∈ p.parts := by
    rw [← hfinds.boxes]
    exact List.mem_map_of_mem (node_mem_children he')
  rw [box_of_mem_onward he', box_eq, Box.row_moveBy, Box.row_moveBy, ← hrow]
  obtain rfl := (hnode ▸ hfinds.arranges).eq_of_sequence
  rw [Placement.row_of_mem_sequence hmem]

/-- The render pass finds the alternatives of a stack on top of one another. -/
theorem Backdrop.Finds.stacked {id : Nat} {as : List Node} {f : Flow} {above : Bool} {b : Box Rat}
    {ss : List (Sized Rat)} {p : Placement Rat} (h : d.Finds (.alternation id as) f above b ss p)
    (hfan : Node.isFan as = false) :
    Placement.Stacked b.normalize (as.map d.box) above f.useLeft f.useRight := by
  have hinside : ∀ c ∈ as.map d.box, c.Inside b.normalize := fun c hc => h.inside hc
  have hrow := h.row
  have hhomed := h.sound.homed
  obtain ⟨harranges, hboxes, hlevel, hmoved⟩ := h
  rw [Node.children] at hboxes
  have hlevels : ∀ e ∈ ss.map Sized.box, e.Homed ∧ e.Level := List.forall_mem_map.mpr hlevel
  obtain ⟨-, rfl⟩ := harranges.eq_of_stack hfan
  refine ⟨?_, hinside, ?_, ?_, ?_⟩
  · intro c hc
    rw [hboxes] at hc
    exact Placement.level_of_moved (Placement.moved_stack _) (fun e he => (hlevels e he).2) hc
  · rw [hboxes]
    exact Placement.pairwise_stack
  · rintro rfl c hc
    rw [hboxes] at hc
    rw [← hrow]
    exact Placement.row_head_stack c hc
  · rintro rfl c hc
    rw [hboxes] at hc
    cases ss with
    | nil => cases hc
    | cons s ss =>
        exact (Placement.hangs_stack (List.forall_mem_cons.mp hlevels).2 c hc).of_homed hhomed hmoved

end Coordinates

end Railroad
