import Mathlib.Logic.Relation
import Railroad.Proofs.Drawing.Scopes
import Railroad.Proofs.Layout.Success
/-!
The entrances of a drawing: from the entrance of the root one comes to all others by going from node to child,
and what a drawing shows is what is seen of the nodes at these.
-/
namespace Railroad

variable {α : Type} [Scalar α]

/-- One comes from the first entrance to the second by going from node to child. -/
def Entrance.Leads (d : Backdrop α) : Entrance α → Entrance α → Prop :=
  Relation.ReflTransGen fun e e' => e' ∈ e.onward d

section Leading

variable {d : Backdrop α} {k : Nat} {e e' : Entrance α}

/-- What goes over from the entrances of the children to that of the node holds of every entrance of a complete
tree that has its boxes and does not lie too deep. -/
theorem Entrance.induct {P : Entrance α → Nat → Prop}
    (hstep : ∀ {e k}, e.Unfolds d k → (∀ e' ∈ e.onward d, P e' (k + 1)) → P e k)
    (hcomplete : e.node.isComplete = true) (hcovers : d.Covers e.node)
    (hk : k + e.node.height ≤ Metrics.maxDepth) : P e k := by
  generalize hnode : e.node = n at hcomplete hcovers hk
  induction n using Node.descend generalizing e k with
  | _ n ih =>
      subst hnode
      refine hstep (unfolds hcomplete hcovers hk) fun e' he' => ?_
      have hm := node_mem_children he'
      have := Node.height_lt_of_mem_children hm
      exact ih e'.node hm rfl (((Node.isComplete_iff_children _).mp hcomplete).2 _ hm)
        (hcovers.child hm) (by omega)

/-- What the scene of an entrance holds is found at the entrances that it leads to, if a scene that unfolds
holds what is found at its own entrance and what the scenes of the children hold. -/
theorem Entrance.mem_iff_of_unfolds {β : Type} (held : Entrance α → Nat → List β)
    (Found : Entrance α → β → Prop)
    (hstep : ∀ {e k}, e.Unfolds d k → ∀ x,
      x ∈ held e k ↔ Found e x ∨ ∃ e' ∈ e.onward d, x ∈ held e' (k + 1))
    (hcomplete : e.node.isComplete = true) (hcovers : d.Covers e.node)
    (hk : k + e.node.height ≤ Metrics.maxDepth) {x : β} :
    x ∈ held e k ↔ ∃ e', e.Leads d e' ∧ Found e' x := by
  refine induct (P := fun e k => x ∈ held e k ↔ ∃ e', e.Leads d e' ∧ Found e' x) ?_ hcomplete hcovers hk
  intro e k hunfolds hchild
  rw [hstep hunfolds]
  constructor
  · rintro (hself | ⟨e', he', hx⟩)
    · exact ⟨e, .refl, hself⟩
    · obtain ⟨e'', hleads, hfound⟩ := (hchild e' he').mp hx
      exact ⟨e'', .head he' hleads, hfound⟩
  · rintro ⟨e'', hleads, hfound⟩
    rcases hleads.cases_head with rfl | ⟨e', he', hleads⟩
    · exact .inl hfound
    · exact .inr ⟨e', he', (hchild e' he').mpr ⟨e'', hleads, hfound⟩⟩

/-- What the scene of an entrance shows is what is seen of the nodes that the entrance leads to. -/
theorem Entrance.mem_sights_iff (hcomplete : e.node.isComplete = true) (hcovers : d.Covers e.node)
    (hk : k + e.node.height ≤ Metrics.maxDepth) {x : Scope α × Event α} :
    x ∈ e.sights d k ↔ ∃ e', e.Leads d e' ∧ e'.Shows d x := by
  refine mem_iff_of_unfolds (fun e k => e.sights d k) (fun e' x => e'.Shows d x) ?_ hcomplete hcovers hk
  intro e k h x
  rw [h.sights, List.mem_append, List.mem_cons, List.mem_flatMap, or_right_comm, Shows, List.mem_map]
  simp only [eq_comm (b := x)]

/-- The rails that the scene of an entrance opens are those of the nodes that the entrance leads to. -/
theorem Entrance.mem_openings_iff (hcomplete : e.node.isComplete = true) (hcovers : d.Covers e.node)
    (hk : k + e.node.height ≤ Metrics.maxDepth) {x : Origins α × RailSpan α} :
    x ∈ e.openings d k ↔ ∃ e', e.Leads d e' ∧ ∃ r ∈ e'.spans d, x = ((e'.within d).origins, r) := by
  refine mem_iff_of_unfolds (fun e k => e.openings d k)
    (fun e' x => ∃ r ∈ e'.spans d, x = ((e'.within d).origins, r)) ?_ hcomplete hcovers hk
  intro e k h x
  rw [h.openings, List.mem_append, List.mem_flatMap, List.mem_map]
  simp only [eq_comm (b := x)]

end Leading

/-- The entrance of the root of a drawing, with some origins in force. -/
def Entrance.start (o : Origins α) (root : Node) (direction : Direction) (above : Bool) : Entrance α :=
  ⟨⟨o, []⟩, root, .new direction, above⟩

/-- What the drawing of a complete tree that has been laid out shows is what is seen of the nodes that its
root leads to. -/
theorem exists_drawing {root : Node} (hcomplete : root.isComplete = true) {direction : Direction}
    {table : BoxTable α} {engine : Engine α}
    (hlayout : Engine.layout root direction = (.ok table, engine)) (links : List String)
    (above : Bool) :
    ∃ (handsBack : Bool) (session : DrawingSession α),
      (DrawingSession.start table links direction).draw root above = (.ok handsBack, session) ∧
      ∀ (o : Origins α) (x : Scope α × Event α),
        x ∈ sights ⟨o, []⟩ session.events.toList ↔
          ∃ e : Entrance α, (Entrance.start o root direction above).Leads ⟨table, links⟩ e ∧
            e.Shows ⟨table, links⟩ x := by
  obtain ⟨-, -, hheight⟩ := Engine.conditions_of_layout hlayout
  have hcovers : (⟨table, links⟩ : Backdrop α).Covers root := Engine.box_of_layout hlayout
  obtain ⟨hfault, -⟩ := draws_of_complete (k := 0) hcomplete hcovers (by omega)
    (.new direction) above
  refine ⟨_, _, (DrawingSession.start table links direction).draw_of_noFault hfault, ?_⟩
  intro o x
  rw [← Entrance.mem_sights_iff (k := 0) hcomplete hcovers (by simpa [Entrance.start] using hheight)]
  simp [Entrance.sights, Entrance.scene, Entrance.start, DrawingSession.start]

/-- The rails of a drawing are opened by the nodes that its root leads to, each in the frame of its node. -/
theorem exists_opener {root : Node} (hcomplete : root.isComplete = true) {direction : Direction}
    {table : BoxTable α} {engine : Engine α}
    (hlayout : Engine.layout root direction = (.ok table, engine)) {links : List String}
    {above handsBack : Bool} {session : DrawingSession α}
    (hdraw : (DrawingSession.start table links direction).draw root above = (.ok handsBack, session))
    {o : Origins α} {ρ : Scope α} {r : RailSpan α}
    (hr : (ρ, .rail r) ∈ inScope ⟨o, []⟩ session.events.toList) :
    ∃ e : Entrance α, (Entrance.start o root direction above).Leads ⟨table, links⟩ e ∧
      r ∈ e.spans ⟨table, links⟩ ∧ ρ.origins = (e.within ⟨table, links⟩).origins := by
  obtain ⟨-, -, hheight⟩ := Engine.conditions_of_layout hlayout
  have hcovers : (⟨table, links⟩ : Backdrop α).Covers root := Engine.box_of_layout hlayout
  obtain ⟨hfault, -⟩ := draws_of_complete (k := 0) hcomplete hcovers (by omega)
    (.new direction) above
  cases ((DrawingSession.start table links direction).draw_of_noFault hfault).symm.trans hdraw
  have hopening : (ρ.origins, r) ∈
      (Entrance.start o root direction above).openings ⟨table, links⟩ 0 := by
    have := mem_openings_of_mem_inScope hr
    simpa [Entrance.openings, Entrance.scene, Entrance.start, DrawingSession.start] using this
  obtain ⟨e, hleads, r', hr', heq⟩ := (Entrance.mem_openings_iff (k := 0) hcomplete hcovers
    (by simpa [Entrance.start] using hheight)).mp hopening
  obtain ⟨horigins, rfl⟩ := Prod.ext_iff.mp heq
  exact ⟨e, hleads, hr', horigins⟩

section Grammars

variable {d : Backdrop α} {root : Node} {direction : Direction} {above : Bool} {o : Origins α}
  {e e' : Entrance α}

/-- A context without rails. -/
def Context.IsFree (c : Context α) : Prop :=
  c.live.useLeft = false ∧ c.live.useRight = false

omit [Scalar α] in
theorem Entrance.of_mem_items {σ : Scope α} {c : Context α} {first : Bool} {ns : List Node}
    (h : e ∈ items σ c first ns) :
    e.scope = σ ∧ e.above = false ∧ ∃ first last, e.context = itemContext c first last := by
  induction ns generalizing first with
  | nil => cases h
  | cons n ns ih =>
      rcases List.mem_cons.mp h with rfl | h
      · exact ⟨rfl, rfl, first, ns.isEmpty, rfl⟩
      · exact ih h

/-- Children are entered within the frame of the node, and without rails where from above. -/
theorem Entrance.of_mem_onward (he' : e' ∈ e.onward d) :
    e'.scope = e.within d ∧ (e'.above = true → e'.context.IsFree) := by
  rw [onward] at he'
  generalize e.within d = σ at he' ⊢
  have hmap : ∀ {ns : List Node} {c : Context α} {flag : Bool},
      e' ∈ ns.map (Entrance.mk σ · c flag) → (flag = true → c.IsFree) →
        e'.scope = σ ∧ (e'.above = true → e'.context.IsFree) := by
    intro ns c flag he' hfree
    obtain ⟨m, -, rfl⟩ := List.mem_map.mp he'
    exact ⟨rfl, hfree⟩
  generalize e.node = n at he'
  cases n with
  | grammar | productionList => exact hmap he' (by rintro ⟨⟩)
  | production | oneOrMore =>
      rcases List.mem_append.mp he' with he' | he'
      · exact hmap he' (by rintro ⟨⟩)
      · exact hmap he' (by rintro ⟨⟩)
  | alternation id alternatives =>
      cases alternatives with
      | nil => cases he'
      | cons => exact hmap he' (by rintro ⟨⟩)
  | sequence =>
      obtain ⟨hscope, hflag, -⟩ := of_mem_items he'
      exact ⟨hscope, fun h => absurd h (by simp [hflag])⟩
  | repetition | optional => exact hmap he' fun _ => ⟨rfl, rfl⟩
  | literal | identifier | other | foreign => cases he'

/-- The nodes of a grammar above its expressions, its title and its comment. -/
inductive Node.IsHeading : Node → Prop
  | grammar {n : Node} (hn : n.IsGrammar) : IsHeading n
  | rules (id : Nat) {productions : List Node} (hproductions : ∀ n ∈ productions, n.IsProduction) :
      IsHeading (.productionList id productions)
  | rule {n : Node} (hn : n.IsProduction) : IsHeading n
  | leaf {n : Node} (hn : n.isLeaf = true) : IsHeading n

/-- The children of headings are headings, and expressions below productions. -/
theorem Node.IsHeading.of_mem_children {n m : Node} (h : n.IsHeading) (hm : m ∈ n.children) :
    m.IsHeading ∨ n.IsProduction ∧ m.IsExpression := by
  cases h with
  | grammar hn =>
      cases hn with
      | intro id listId htitle hproductions hcomment =>
          simp only [children, List.mem_append, Option.mem_toList] at hm
          obtain (hm | hm) | hm := hm
          · obtain ⟨i, text, rfl⟩ := htitle m hm
            exact .inl (.leaf rfl)
          · cases hm
            exact .inl (.rules listId hproductions)
          · obtain ⟨i, text, rfl⟩ := hcomment m hm
            exact .inl (.leaf rfl)
  | rules id hproductions => exact .inl (.rule (hproductions m hm))
  | rule hn =>
      cases hn with
      | intro id nameId name hexpression =>
          simp only [children, Option.toList_some, List.cons_append, List.nil_append,
            List.mem_cons, List.not_mem_nil, or_false] at hm
          rcases hm with rfl | rfl
          · exact .inl (.leaf rfl)
          · exact .inr ⟨.intro id nameId name hexpression, hexpression⟩
  | leaf hn =>
      cases n with
      | literal | identifier | other => cases hm
      | _ => cases hn

/-- Headings offer no rails to their children where they have none themselves. -/
theorem Node.IsHeading.isFree_onward (h : e.node.IsHeading) (hfree : e.context.IsFree)
    (he' : e' ∈ e.onward d) : e'.context.IsFree := by
  obtain ⟨σ, n, c, above⟩ := e
  have hmap : ∀ {ns : List Node} {σ : Scope α} {c' : Context α} {flag : Bool},
      e' ∈ ns.map (Entrance.mk σ · c' flag) → c'.IsFree → e'.context.IsFree := by
    intro ns σ c' flag he' hc
    obtain ⟨m, -, rfl⟩ := List.mem_map.mp he'
    exact hc
  cases n with
  | grammar | productionList => exact hmap he' hfree
  | production =>
      rcases List.mem_append.mp he' with he' | he'
      · exact hmap he' hfree
      · exact hmap he' hfree
  | literal | identifier | other => cases he'
  | alternation | sequence | repetition | oneOrMore | optional | foreign =>
      cases h with
      | grammar hn | rule hn => cases hn
      | leaf hn => cases hn

/-- What holds at entrances without rails and goes over from expressions to their parts holds at all entrances
of the drawing of a grammar. -/
theorem Entrance.Leads.of_expressions {P : Entrance α → Prop} (hroot : root.IsGrammar)
    (hfree : ∀ e : Entrance α, e.context.IsFree → P e)
    (hstep : ∀ e, (start o root direction above).Leads d e → e.node.IsExpression → P e →
      ∀ e' ∈ e.onward d, P e') (h : (start o root direction above).Leads d e) : P e := by
  have hboth : P e ∧ (e.node.IsExpression ∨ e.node.IsHeading ∧ e.context.IsFree) := by
    induction h with
    | refl => exact ⟨hfree _ ⟨rfl, rfl⟩, .inr ⟨.grammar hroot, rfl, rfl⟩⟩
    | @tail b c hleads hc ih =>
        obtain ⟨hb, hexpression | ⟨hheading, hrails⟩⟩ := ih
        · exact ⟨hstep b hleads hexpression hb c hc,
            .inl (hexpression.of_mem_children (node_mem_children hc))⟩
        · have hc' := hheading.isFree_onward hrails hc
          refine ⟨hfree c hc', ?_⟩
          rcases hheading.of_mem_children (node_mem_children hc) with hn | ⟨-, hn⟩
          · exact .inr ⟨hn, hc'⟩
          · exact .inl hn
  exact hboth.1

end Grammars

end Railroad
