import Railroad.Proofs.Drawing.Agreement
import Railroad.Proofs.Grammar.Flat
import Railroad.Proofs.Layout.Order
/-!
The rails at the ends of a sequence.  The first item is offered the rail on the left and the last one that
on the right.  In a flow to the right these are the items at the ends; in a flow to the left they stand at
the other ends, and a rail leads past all the other items.
-/
namespace Railroad

section Items

variable {f : Flow} {first : Bool} {ns : List Node} {v : Visit}

theorem useLeft_of_mem_items (hv : v ∈ f.items first ns) (huse : v.flow.useLeft = true) :
    first = true ∧ f.useLeft = true ∧ ns.head? = some v.node := by
  induction ns generalizing first with
  | nil => cases hv
  | cons n ns ih =>
      rcases List.mem_cons.mp hv with rfl | hv
      · have hboth : (first && f.useLeft) = true := huse
        rw [Bool.and_eq_true] at hboth
        exact ⟨hboth.1, hboth.2, rfl⟩
      · cases (ih hv).1

theorem useRight_of_mem_items (hv : v ∈ f.items first ns) (huse : v.flow.useRight = true) :
    f.useRight = true ∧ ns.getLast? = some v.node := by
  induction ns generalizing first with
  | nil => cases hv
  | cons n ns ih =>
      rcases List.mem_cons.mp hv with rfl | hv
      · have hboth : (ns.isEmpty && f.useRight) = true := huse
        rw [Bool.and_eq_true, List.isEmpty_iff] at hboth
        rw [hboth.1]
        exact ⟨hboth.2, rfl⟩
      · obtain ⟨huse, hlast⟩ := ih hv
        cases ns with
        | nil => cases hv
        | cons m ms => exact ⟨huse, hlast⟩

theorem exists_first_of_items (n : Node) (ns : List Node) (f : Flow) :
    ∃ v ∈ f.items true (n :: ns), v.node = n ∧ v.flow.useLeft = f.useLeft :=
  ⟨_, List.mem_cons_self, rfl, Bool.true_and _⟩

theorem exists_last_of_items (f : Flow) (first : Bool) (hne : ns ≠ []) :
    ∃ v ∈ f.items first ns, v.node = ns.getLast hne ∧ v.flow.useRight = f.useRight := by
  induction ns generalizing first with
  | nil => exact absurd rfl hne
  | cons n ns ih =>
      cases ns with
      | nil => exact ⟨_, List.mem_cons_self, rfl, Bool.true_and _⟩
      | cons m ms =>
          obtain ⟨v, hv, hnode, huse⟩ := ih false (List.cons_ne_nil m ms)
          exact ⟨v, List.mem_cons_of_mem _ hv, by rw [hnode, List.getLast_cons_cons], huse⟩

end Items

section Sequences

variable {t : BoxTable Rat} {k : Nat} {q : Visit} {s : Sized Rat} {b : Box Rat} {id : Nat}
  {items : List Node}

/-- A visit to an item has a rail on the left only if no item stands to the left of it, and a rail on the
right only if none stands to the right. -/
def Visit.RailsOutside (t : BoxTable Rat) (items : List Node) (v : Visit) : Prop :=
  (v.flow.useLeft = true → ∀ m ∈ items, ¬ t.LeftOf m v.node) ∧
    (v.flow.useRight = true → ∀ m ∈ items, ¬ t.LeftOf v.node m)

/-- Flow to the right: the items are listed from the left to the right. -/
theorem railsOutside_of_right (hpairs : items.Pairwise t.LeftOf)
    (hasymm : ∀ m ∈ items, ∀ m' ∈ items, t.LeftOf m m' → ¬ t.LeftOf m' m) {f : Flow} {v : Visit}
    (hv : v ∈ f.items true items) : v.RailsOutside t items := by
  have hself : ∀ m ∈ items, ¬ t.LeftOf m m := fun m hm h => hasymm m hm m hm h h
  constructor
  · intro huse m hm
    obtain ⟨rest, rfl⟩ := List.head?_eq_some_iff.mp (useLeft_of_mem_items hv huse).2.2
    rcases List.mem_cons.mp hm with rfl | hrest
    · exact hself _ hm
    · exact hasymm _ List.mem_cons_self m hm (List.rel_of_pairwise_cons hpairs hrest)
  · intro huse m hm
    obtain ⟨before, rfl⟩ := List.getLast?_eq_some_iff.mp (useRight_of_mem_items hv huse).2
    rcases List.mem_append.mp hm with hbefore | hlast
    · exact hasymm m hm _ (by simp) ((List.pairwise_append.mp hpairs).2.2 m hbefore _ (by simp))
    · rw [List.mem_singleton.mp hlast] at hm ⊢
      exact hself _ hm

/-- Flow to the left: the items are listed from the right to the left, so that only a sequence without
rails offers none to the wrong end. -/
theorem noRails_of_left (hpairs : items.Pairwise fun m m' => t.LeftOf m' m) (hmany : 2 ≤ items.length)
    {f : Flow} (h : ∀ v ∈ f.items true items, v.RailsOutside t items) :
    f.useLeft = false ∧ f.useRight = false := by
  match items, hmany with
  | first :: second :: rest, _ =>
      rw [List.pairwise_cons] at hpairs
      constructor
      · obtain ⟨v, hv, hnode, huse⟩ := exists_first_of_items first (second :: rest) f
        by_contra hleft
        refine (h v hv).1 (by simpa [huse] using hleft) second (by simp) ?_
        rw [hnode]
        exact hpairs.1 second List.mem_cons_self
      · obtain ⟨v, hv, hnode, huse⟩ :=
          exists_last_of_items f true (List.cons_ne_nil first (second :: rest))
        by_contra hright
        refine (h v hv).2 (by simpa [huse] using hright) first List.mem_cons_self ?_
        rw [hnode, List.getLast_cons_cons]
        exact hpairs.1 _ (List.getLast_mem _)

/-- The items of a sequence are offered rails on the outside exactly if the flow heads right or there are
no rails. -/
theorem railsOutside_items_iff (hn : q.node.IsExpression) (hnode : q.node = .sequence id items)
    (hdirection : q.flow.direction ≠ .none) (h : q.Stands t k s b) :
    (∀ v ∈ q.flow.items true items, v.RailsOutside t items) ↔
      q.flow.direction = .right ∨ (q.flow.useLeft = false ∧ q.flow.useRight = false) := by
  have hpairs := h.pairwise_items hn hnode
  have hasymm : ∀ m ∈ items, ∀ m' ∈ items, t.LeftOf m m' → ¬ t.LeftOf m' m := by
    intro m hm m' hm'
    exact h.leftOf_asymm hn hdirection (hnode ▸ hm) (hnode ▸ hm')
  constructor
  · intro hall
    by_cases hright : q.flow.direction = .right
    · exact .inl hright
    · simp only [if_neg hright] at hpairs
      rw [hnode] at hn
      cases hn with
      | sequence _ hmany => exact .inr (noRails_of_left hpairs hmany hall)
  · rintro (hright | ⟨hleft, hright⟩) v hv
    · simp only [if_pos hright] at hpairs
      exact railsOutside_of_right hpairs hasymm hv
    · constructor
      · intro huse
        rw [(useLeft_of_mem_items hv huse).2.1] at hleft
        cases hleft
      · intro huse
        rw [(useRight_of_mem_items hv huse).1] at hright
        cases hright

end Sequences

section Flowing

variable {names : Direction} {n : Node} {f : Flow} {k : Nat} {above : Bool} {v : Visit}

/-- What is visited within an expression is an expression within the flow. -/
theorem Node.IsExpression.flows (hn : n.IsExpression) (hdirection : f.direction ≠ .none)
    (hk : k + n.height ≤ Metrics.maxDepth) (hv : some v ∈ itinerary names n f k above) :
    v.node.IsExpression ∧ v.flow.direction ≠ .none := by
  induction n using Node.descend generalizing f k above with
  | _ n ih =>
      obtain ⟨⟨hknown, hparts⟩, -⟩ := (Node.isComplete_iff_children n).mp hn.isComplete
      have hpos := n.height_pos
      rw [itinerary_eq_flatMap hknown hparts (by omega)] at hv
      rcases List.mem_cons.mp hv with hv | hv
      · cases hv
        exact ⟨hn, hdirection⟩
      · obtain ⟨w, hw, hv⟩ := List.mem_flatMap.mp hv
        have hm := Visit.node_mem_children hw
        have := Node.height_lt_of_mem_children hm
        exact ih w.node hm (hn.of_mem_children hm) (direction_ne_none_of_mem_onward hn hdirection hw)
          (by omega) hv

/-- A sequence that is visited is an expression within the flow. -/
def Visit.Flows (v : Visit) : Prop :=
  v.node.isSequence = true → v.node.IsExpression ∧ v.flow.direction ≠ .none

/-- All sequences that are visited below a node are. -/
def Node.Flows (names : Direction) (f : Flow) (n : Node) : Prop :=
  ∀ k above v, k + n.height ≤ Metrics.maxDepth → some v ∈ itinerary names n f k above → v.Flows

theorem Node.flows_of_children (hcomplete : n.isComplete = true) (hself : n.isSequence = false)
    (h : ∀ w ∈ f.onward names n, w.node.Flows names w.flow) : n.Flows names f := by
  intro k above v hk hv
  obtain ⟨⟨hknown, hparts⟩, -⟩ := (Node.isComplete_iff_children n).mp hcomplete
  have hpos := n.height_pos
  rw [itinerary_eq_flatMap hknown hparts (by omega)] at hv
  rcases List.mem_cons.mp hv with hv | hv
  · cases hv
    intro hsequence
    rw [show (Visit.to n f above).node = n from rfl, hself] at hsequence
    cases hsequence
  · obtain ⟨w, hw, hv⟩ := List.mem_flatMap.mp hv
    have := Node.height_lt_of_mem_children (Visit.node_mem_children hw)
    exact h w hw (k + 1) w.above v (by omega) hv

theorem Node.IsProduction.flows (hn : n.IsProduction) : n.Flows names (.free .none) := by
  refine Node.flows_of_children hn.isComplete (by cases hn; rfl) ?_
  cases hn with
  | @intro id nameId name expression hexpression =>
      rw [Flow.onward]
      simp only [Option.toList_some, List.map_cons, List.map_nil, List.cons_append, List.nil_append,
        List.forall_mem_cons]
      refine ⟨Node.flows_of_children rfl rfl (by simp [Visit.to, Flow.onward]), ?_, by simp⟩
      intro k above v hk hv _
      exact hexpression.flows (f := .free .right) (by decide) hk hv

theorem Node.IsGrammar.flows (hn : n.IsGrammar) : n.Flows names f := by
  refine Node.flows_of_children hn.isComplete (by cases hn; rfl) ?_
  have hleaf {g : Flow} {m : Node} (hm : m.isLeaf = true) : m.Flows names g := by
    cases m with
    | literal | identifier | other =>
        exact Node.flows_of_children rfl rfl (by simp [Flow.onward])
    | _ => cases hm
  have hcomplete := hn.isComplete
  cases hn with
  | @intro id listId title comment ps htitle hps hcomment =>
      rw [Flow.onward, List.forall_mem_map]
      simp only [List.forall_mem_append, Option.mem_toList, Visit.to]
      refine ⟨⟨fun m hm => ?_, ?_⟩, fun m hm => ?_⟩
      · obtain ⟨i, text, rfl⟩ := htitle m hm
        exact hleaf rfl
      · rintro _ ⟨⟩
        refine Node.flows_of_children ?_ rfl ?_
        · rw [Node.isComplete, Node.isCompleteList_iff]
          exact fun p hp => (hps p hp).isComplete
        · rw [Flow.onward, List.forall_mem_map]
          exact fun p hp => (hps p hp).flows
      · obtain ⟨i, text, rfl⟩ := hcomment m hm
        exact hleaf rfl

end Flowing

/-- The rails of a sequence are kept to its ends: every visit to an item has rails only on the outside. -/
def KeptToEnds (t : BoxTable Rat) (visits : List Visit) (items : List Node) : Prop :=
  ∀ v ∈ visits, v.node ∈ items → v.RailsOutside t items

theorem keptToEnds_congr {names : List Node} {t : BoxTable Rat} {sized drawn : List Visit}
    (h : List.Forall₂ (Visit.Agrees names) sized drawn) (items : List Node) :
    KeptToEnds t sized items ↔ KeptToEnds t drawn items := by
  constructor
  · intro hsized v hv hitem
    obtain ⟨w, hw, hagrees⟩ := exists_of_mem_right h hv
    have houtside := hsized w hw (hagrees.node ▸ hitem)
    rw [Visit.RailsOutside, hagrees.node, hagrees.useLeft, hagrees.useRight] at houtside
    exact houtside
  · intro hdrawn v hv hitem
    obtain ⟨w, hw, hagrees⟩ := exists_of_mem_left h hv
    have houtside := hdrawn w hw (hagrees.node ▸ hitem)
    rw [Visit.RailsOutside, ← hagrees.node, ← hagrees.useLeft, ← hagrees.useRight] at houtside
    exact houtside

section Passes

variable {root : Node} {direction : Direction} {table : BoxTable Rat} {e : Engine Rat}
  {sized : List Visit} {q : Visit} {id : Nat} {items : List Node}

/-- In the size pass the visits to the items of a sequence are those that its own visit leads to. -/
theorem mem_items_of_visits (hgaps : none ∉ itinerary .right root (.free direction) 0 false)
    (hnodup : (root.preorder.map Node.id).Nodup)
    (hsized : itinerary .right root (.free direction) 0 false = sized.map some) (hq : q ∈ sized)
    (hnode : q.node = .sequence id items) (v : Visit) :
    v ∈ sized ∧ v.node ∈ items ↔ v ∈ q.flow.items true items := by
  have hgood := (none_notMem_itinerary_iff _ _ _ _ _).mp hgaps
  have honward : ∀ w ∈ q.flow.items true items, w ∈ sized := by
    intro w hw
    have hon : w ∈ q.flow.onward .right q.node := by
      rw [hnode]
      exact hw
    have hmem := onward_of_mem_itinerary hgood.1 (by omega) (hsized ▸ List.mem_map_of_mem hq) hon
    rw [hsized] at hmem
    simpa using hmem
  -- No node is visited twice.
  have hnodes : (sized.map Visit.node).Nodup := by
    have hmap := map_node_itinerary _ _ _ _ _ hgaps
    rw [hsized, List.map_map] at hmap
    have hpreorder : sized.map Visit.node = root.preorder := by
      refine List.map_injective_iff.mpr (fun _ _ => Option.some.inj) ?_
      rw [List.map_map]
      exact hmap
    rw [hpreorder]
    exact .of_map _ hnodup
  constructor
  · rintro ⟨hv, hitem⟩
    rw [← map_node_items q.flow true items] at hitem
    obtain ⟨w, hw, hsame⟩ := List.mem_map.mp hitem
    rwa [← List.inj_on_of_nodup_map hnodes (honward w hw) hv hsame]
  · intro hv
    refine ⟨honward v hv, ?_⟩
    rw [← map_node_items q.flow true items]
    exact List.mem_map_of_mem hv

theorem keptToEnds_sized_iff (hroot : root.IsGrammar)
    (hnodup : (root.preorder.map Node.id).Nodup)
    (hlayout : Engine.layout root direction = (.ok table, e))
    (hsized : itinerary .right root (.free direction) 0 false = sized.map some) (hq : q ∈ sized)
    (hnode : q.node = .sequence id items) :
    KeptToEnds table sized items ↔
      q.flow.direction = .right ∨ (q.flow.useLeft = false ∧ q.flow.useRight = false) := by
  have hgaps := Engine.none_notMem_of_layout hlayout
  have hgood := (none_notMem_itinerary_iff _ _ _ _ _).mp hgaps
  have hvisit : some q ∈ itinerary .right root (.free direction) 0 false :=
    hsized ▸ List.mem_map_of_mem hq
  obtain ⟨hn, hdirection⟩ := hroot.flows 0 false q hgood.2 hvisit (by rw [hnode]; rfl)
  obtain ⟨j, s, b, hstands⟩ := (stands_of_layout hlayout).of_mem_tour hgood.1 hgood.2 rfl hvisit
  rw [← railsOutside_items_iff hn hnode hdirection hstands]
  have hmem := mem_items_of_visits hgaps hnodup hsized hq hnode
  constructor
  · intro hkept v hv
    obtain ⟨hv, hitem⟩ := (hmem v).mpr hv
    exact hkept v hv hitem
  · intro houtside v hv hitem
    exact houtside v ((hmem v).mp ⟨hv, hitem⟩)

end Passes

theorem Node.IsGrammar.notMem_nameNodes {n m : Node} (hn : n.IsGrammar)
    (hm : m.isIdentifier = false) : m ∉ n.nameNodes := by
  cases hn with
  | intro _ _ _ hproductions _ =>
      intro hmem
      rw [isIdentifier_of_mem_names hproductions hmem] at hm
      cases hm

/-- What the two passes over a grammar that has been read and laid out visit: the visits agree, and the
sequences among those of the size pass keep their rails to the ends exactly if the flow heads right or
there are no rails. -/
theorem exists_passes {reader : Ebnf.Reader} {nextId : Nat} {text : String} {root : Node}
    (hread : (reader.read nextId text).result = .ok root) {direction : Direction}
    {table : BoxTable Rat} {e : Engine Rat}
    (hlayout : Engine.layout root direction = (.ok table, e)) (links : List String) :
    ∃ (sized drawn : List Visit) (session : DrawingSession Rat),
      ((measure root (.new direction : Context Rat) 0 false).steps 0).map Step.visit? =
        sized.map some ∧
      (DrawingSession.start table links direction).draw root false = (.ok false, session) ∧
      visitsOf session.events.toList = drawn.map some ∧
      itinerary .right root (.free direction) 0 false = sized.map some ∧
      List.Forall₂ (Visit.Agrees root.nameNodes) sized drawn ∧
      ∀ q ∈ sized, ∀ id items, q.node = .sequence id items →
        (KeptToEnds table sized items ↔
          q.flow.direction = .right ∨ (q.flow.useLeft = false ∧ q.flow.useRight = false)) := by
  have hroot := Ebnf.isGrammar_of_read hread
  have hnodup := Ebnf.nodup_of_read hread
  have hgaps := Engine.none_notMem_of_layout hlayout
  have hheight := ((none_notMem_itinerary_iff _ _ _ _ _).mp hgaps).2
  have hagree := hroot.agree hnodup (by omega) (.free direction) false
  obtain ⟨sized, drawn, hsized, hdrawn, hvisits⟩ := exists_visits hagree hgaps
  obtain ⟨session, hdraw, hshown⟩ := draw_of_layout hroot hlayout links
  refine ⟨sized, drawn, session, ?_, hdraw, hshown.trans hdrawn, hsized, hvisits, ?_⟩
  · rw [Sized.map_visit?_steps, visits_measure, ← hsized]
    rfl
  · intro q hq id items hnode
    exact keptToEnds_sized_iff hroot hnodup hlayout hsized hq hnode

/-- In both passes over a grammar that has been read and laid out, the rails of a sequence are kept to its
ends exactly if the flow heads right or there are no rails. -/
theorem rails_kept_to_ends_iff {reader : Ebnf.Reader} {nextId : Nat} {text : String} {root : Node}
    (hread : (reader.read nextId text).result = .ok root) {direction : Direction}
    {table : BoxTable Rat} {e : Engine Rat}
    (hlayout : Engine.layout root direction = (.ok table, e)) (links : List String) :
    ∃ (sized drawn : List Visit) (session : DrawingSession Rat),
      ((measure root (.new direction : Context Rat) 0 false).steps 0).map Step.visit? =
        sized.map some ∧
      (DrawingSession.start table links direction).draw root false = (.ok false, session) ∧
      visitsOf session.events.toList = drawn.map some ∧
      ∀ visits ∈ [sized, drawn], ∀ q ∈ visits, ∀ id items, q.node = .sequence id items →
        (KeptToEnds table visits items ↔
          q.flow.direction = .right ∨ (q.flow.useLeft = false ∧ q.flow.useRight = false)) := by
  obtain ⟨sized, drawn, session, hsize, hdraw, hshown, -, hvisits, hkept⟩ :=
    exists_passes hread hlayout links
  refine ⟨sized, drawn, session, hsize, hdraw, hshown, ?_⟩
  rw [List.forall_mem_cons, List.forall_mem_singleton]
  refine ⟨hkept, fun q hq id items hnode => ?_⟩
  -- A visit of the render pass is one of the size pass, since a sequence is not the name of a rule.
  obtain ⟨w, hw, hagrees⟩ := exists_of_mem_right hvisits hq
  have hname : w.node ∉ root.nameNodes :=
    (Ebnf.isGrammar_of_read hread).notMem_nameNodes (by rw [hagrees.node, hnode]; rfl)
  rw [← keptToEnds_congr hvisits, ← hagrees.useLeft, ← hagrees.useRight, ← hagrees.direction hname]
  exact hkept w hw id items (hagrees.node.trans hnode)

/-- A loop whose way back runs to the left through an optional name and one that is required. -/
def wayBackText : String :=
  "x = \x7b[b] c | d\x7d ."

def wayBackItems : List Node :=
  [.optional 1 (some (.identifier 0 "b")), .identifier 2 "c"]

def wayBackTree : Node :=
  .grammar 10 none (some (.productionList 9 [.production 8 (some (.identifier 7 "x"))
    (some (.repetition 6 (some (.alternation 5
      [.sequence 3 wayBackItems, .identifier 4 "d"]))))])) none

theorem read_wayBackText : (Ebnf.Reader.new.read 0 wayBackText).result = .ok wayBackTree := by cbv

theorem rails_kept_to_ends_iff_wayBack :
    (Ebnf.Reader.new.read 0 wayBackText).result = .ok wayBackTree ∧
    ∃ (table : BoxTable Rat) (e : Engine Rat),
      Engine.layout wayBackTree .right = (.ok table, e) ∧
      ∃ (sized drawn : List Visit) (session : DrawingSession Rat),
        ((measure wayBackTree (.new .right : Context Rat) 0 false).steps 0).map Step.visit? =
          sized.map some ∧
        (DrawingSession.start table ["x"] .right).draw wayBackTree false = (.ok false, session) ∧
        visitsOf session.events.toList = drawn.map some ∧
        ∀ visits ∈ [sized, drawn], ∀ q ∈ visits, ∀ id items, q.node = .sequence id items →
          (KeptToEnds table visits items ↔
            q.flow.direction = .right ∨ (q.flow.useLeft = false ∧ q.flow.useRight = false)) := by
  have hcomplete : wayBackTree.isComplete = true := by decide
  obtain ⟨table, e, hlayout⟩ := Engine.layout_of_complete (α := Rat) hcomplete
    (by decide) (by decide) .right
  exact ⟨read_wayBackText, table, e, hlayout, rails_kept_to_ends_iff read_wayBackText hlayout ["x"]⟩

/-- On the way back the optional name is offered the rail on the left, beyond the required one: in both
passes the rails of that sequence are not kept to its ends. -/
theorem rails_lead_past_item : ∃ (table : BoxTable Rat) (e : Engine Rat),
    (Ebnf.Reader.new.read 0 wayBackText).result = .ok wayBackTree ∧
    Engine.layout wayBackTree .right = (.ok table, e) ∧
    ∃ (sized drawn : List Visit) (session : DrawingSession Rat),
      ((measure wayBackTree (.new .right : Context Rat) 0 false).steps 0).map Step.visit? =
        sized.map some ∧
      (DrawingSession.start table ["x"] .right).draw wayBackTree false = (.ok false, session) ∧
      visitsOf session.events.toList = drawn.map some ∧
      ∀ visits ∈ [sized, drawn], ∃ q ∈ visits, q.node = .sequence 3 wayBackItems ∧
        ¬ KeptToEnds table visits wayBackItems := by
  have hcomplete : wayBackTree.isComplete = true := by decide
  obtain ⟨table, e, hlayout⟩ := Engine.layout_of_complete (α := Rat) hcomplete
    (by decide) (by decide) .right
  obtain ⟨sized, drawn, session, hsize, hdraw, hshown, hsized, hvisits, hkept⟩ :=
    exists_passes read_wayBackText hlayout ["x"]
  refine ⟨table, e, read_wayBackText, hlayout, sized, drawn, session, hsize, hdraw, hshown, ?_⟩
  obtain ⟨q, hq, hnode, hflow⟩ : ∃ q ∈ sized, q.node = .sequence 3 wayBackItems ∧
      q.flow = ⟨.left, true, true⟩ := by
    have hmem : some (Visit.to (.sequence 3 wayBackItems) ⟨.left, true, true⟩ false) ∈
        sized.map some := by
      rw [← hsized]
      exact List.mem_of_getElem? (i := 6) rfl
    exact ⟨_, by simpa using hmem, rfl, rfl⟩
  have hnot : ¬ KeptToEnds table sized wayBackItems := by
    rw [hkept q hq 3 wayBackItems hnode, hflow]
    decide
  obtain ⟨w, hw, hagrees⟩ := exists_of_mem_left hvisits hq
  rw [List.forall_mem_cons, List.forall_mem_singleton]
  exact ⟨⟨q, hq, hnode, hnot⟩,
    ⟨w, hw, hagrees.node ▸ hnode, (keptToEnds_congr hvisits _).not.mp hnot⟩⟩

end Railroad
