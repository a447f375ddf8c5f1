import Railroad.Proofs.Layout.Measured
import Railroad.Proofs.Layout.SizeProgram
/-!
The size pass enters the nodes of the itinerary, and meets a gap wherever the itinerary has one.
-/
namespace Railroad

variable {α : Type}

namespace Engine

theorem gap?_eq_none {st : Step α} (h : st.visit? ≠ none) : gap? st = none := by
  cases st with
  | enter => rfl
  | gap => exact absurd rfl h

theorem visit?_of_fill {steps : List (Step α)} {t t' : BoxTable α} (h : t.fill steps = .ok t') :
    ∀ st ∈ steps, st.visit? ≠ none := by
  intro st hst hnone
  obtain ⟨n, c, above, b, k, box, rfl, -⟩ := BoxTable.boxes_of_fill h st hst
  cases hnone

theorem entered?_eq (st : Step α) : entered? st = st.visit?.map Visit.node := by
  cases st <;> rfl

variable [Scalar α] {root : Node} {direction : Direction} {table : BoxTable α} {e : Engine α}

theorem filterMap_entered?_steps (n : Node) (c : Context α) (k j : Nat) (above : Bool) :
    ((measure n c k above).steps j).filterMap entered? =
      visitedNodes (itinerary .right n c.flow k above) := by
  have hentered : (entered? : Step α → Option Node) = Option.map Visit.node ∘ Step.visit? :=
    funext entered?_eq
  rw [hentered, ← List.filterMap_map, Sized.map_visit?_steps, visits_measure, visitedNodes]

/-- If there is no gap, then all nodes are entered, every node before its children. -/
theorem entered_of_complete {n : Node} {c : Context α} {k : Nat} {above : Bool}
    (h : none ∉ itinerary .right n c.flow k above) (j : Nat) :
    ((measure n c k above).steps j).filterMap entered? = n.preorder := by
  rw [filterMap_entered?_steps, visitedNodes, ← Function.id_comp (Option.map Visit.node),
    ← List.filterMap_map, map_node_itinerary _ _ _ _ _ h, List.filterMap_map]
  exact List.filterMap_some

/-- If no step of the size pass is a gap, then the itinerary has none either. -/
theorem none_notMem_of_steps {n : Node} {c : Context α} {k j : Nat} {above : Bool}
    (h : ∀ st ∈ (measure n c k above).steps j, st.visit? ≠ none) :
    none ∉ itinerary .right n c.flow k above := by
  rw [← visits_measure, ← Sized.map_visit?_steps _ j, List.mem_map]
  rintro ⟨st, hst, hnone⟩
  exact h st hst hnone

/-- A computation that finds nothing wrong has filled in the boxes of the measured tree, and nothing else has
changed. -/
theorem compute_eq_ok {n : Node} {above b : Bool} {d : Engine α}
    (h : e.compute n above = (.ok b, d)) : ∃ t,
      e.table.fill ((measure n e.context e.nesting above).steps e.nesting) = .ok t ∧
        d = { e with table := t } ∧ (measure n e.context e.nesting above).handsBack = b := by
  have hsizes := Sizing.sizes n e.context e.nesting above
  cases hfill : e.table.fill ((measure n e.context e.nesting above).steps e.nesting) with
  | error stop =>
      obtain ⟨t, hrun⟩ := hsizes.stopped hfill
      cases h.symm.trans hrun
  | ok t =>
      cases h.symm.trans (hsizes.done hfill)
      exact ⟨t, rfl, rfl, rfl⟩

/-- Nothing is wrong at the end of a layout that has filled in all boxes: no state is left saved, and the root
has its box. -/
theorem layout_of_fill
    (h : (BoxTable.forTree root).fill ((measure root (.new direction) 0 false).steps 0) = .ok table) :
    layout root direction = (.ok table, ⟨.new direction, table, 0⟩) := by
  have hroot := BoxTable.box?_of_fill_steps (stands_measure root (.new direction) 0 false) h
  have hcontext : Sizing.context.run.run ⟨.new direction, table, 0⟩ =
      (.ok (.new direction), (⟨.new direction, table, 0⟩ : Engine α)) := rfl
  have hdepth : ¬(Context.new direction : Context α).depth ≠ 0 := fun h => h rfl
  rw [layout, Sizing.lay, Sizing.run_bind_ok ((Sizing.sizes root (.new direction) 0 false).done h),
    Sizing.run_bind_ok hcontext, if_neg hdepth, Sizing.run_bind_ok (Sizing.run_lookUp hroot)]
  rfl

theorem layout_of_stop {fault : LayoutFault} {stop : Context α} {depth : Nat}
    (h : (BoxTable.forTree root).fill ((measure root (.new direction) 0 false).steps 0) =
      .error (fault, stop, depth)) :
    ∃ t, layout root direction = (.error fault, ⟨stop, t, depth⟩) := by
  obtain ⟨t, hrun⟩ := (Sizing.sizes root (.new direction) 0 false).stopped h
  exact ⟨t, Sizing.run_bind_error hrun⟩

theorem layout_eq_ok (h : layout root direction = (.ok table, e)) :
    (BoxTable.forTree root).fill ((measure root (.new direction) 0 false).steps 0) = .ok table ∧
      e = ⟨.new direction, table, 0⟩ := by
  cases hfill : (BoxTable.forTree root).fill ((measure root (.new direction : Context α) 0 false).steps 0) with
  | error stop =>
      obtain ⟨t, hlayout⟩ := layout_of_stop hfill
      cases h.symm.trans hlayout
  | ok t =>
      cases h.symm.trans (layout_of_fill hfill)
      exact ⟨rfl, rfl⟩

theorem none_notMem_of_layout (h : layout root direction = (.ok table, e)) :
    none ∉ itinerary .right root (.free direction) 0 false :=
  none_notMem_of_steps (visit?_of_fill (layout_eq_ok h).1)

/-- A layout that finds nothing wrong has entered every node, and the table holds its box. -/
theorem step_of_layout (h : layout root direction = (.ok table, e)) {n : Node}
    (hn : n ∈ root.preorder) : ∃ c above handsBack k box,
      .enter n c above handsBack k box ∈ (measure root (.new direction) 0 false).steps 0 ∧
        table.box? n = some box := by
  have hgaps : none ∉ itinerary .right root (Context.new direction : Context α).flow 0 false :=
    none_notMem_of_layout h
  rw [← entered_of_complete hgaps 0, List.mem_filterMap] at hn
  obtain ⟨st, hst, hentered⟩ := hn
  obtain ⟨m, c, above, handsBack, k, box, rfl, hbox⟩ :=
    BoxTable.boxes_of_fill (layout_eq_ok h).1 st hst
  cases hentered
  exact ⟨c, above, handsBack, k, box, hst, hbox⟩

theorem box_of_layout (h : layout root direction = (.ok table, e)) :
    ∀ n ∈ root.preorder, ∃ box, table.box? n = some box := by
  intro n hn
  obtain ⟨_, _, _, _, box, -, hbox⟩ := step_of_layout h hn
  exact ⟨box, hbox⟩

/-- A tree whose nodes have ids of their own is laid out unless the size pass meets a gap. -/
theorem layout_of_nodup (hnodup : (root.preorder.map Node.id).Nodup) (direction : Direction) :
    match ((measure root (.new direction : Context α) 0 false).steps 0).findSome? gap? with
    | some fault => ∃ stopped : Engine α, layout root direction = (.error fault, stopped)
    | none => ∃ (table : BoxTable α) (e : Engine α), layout root direction = (.ok table, e) := by
  have hentered := filterMap_entered?_steps root (.new direction : Context α) 0 0 false
  have hnodes := visitedNodes_itinerary .right root (Context.new direction : Context α).flow 0 false
  have hfill := @BoxTable.fill_of_nodup α (.forTree root)
    ((measure root (.new direction) 0 false).steps 0)
    (by
      rw [hentered]
      intro n hn
      exact ⟨BoxTable.exists_slot_forTree (hnodes.subset hn), BoxTable.box?_new _ _ n⟩)
    (by
      rw [hentered]
      exact hnodup.sublist (hnodes.map Node.id))
  cases hgap : ((measure root (.new direction : Context α) 0 false).steps 0).findSome? gap? with
  | some fault =>
      rw [hgap] at hfill
      obtain ⟨⟨stop, depth⟩, hfill⟩ := hfill
      obtain ⟨t, hlayout⟩ := layout_of_stop hfill
      exact ⟨_, hlayout⟩
  | none =>
      rw [hgap] at hfill
      obtain ⟨t, hfill⟩ := hfill
      exact ⟨t, _, layout_of_fill hfill⟩

/-- A complete tree whose nodes have ids of their own can be laid out, unless it is too high. -/
theorem layout_of_complete (hcomplete : root.isComplete = true)
    (hheight : root.height ≤ Metrics.maxDepth) (hnodup : (root.preorder.map Node.id).Nodup)
    (direction : Direction) : ∃ (table : BoxTable α) (e : Engine α),
      layout root direction = (.ok table, e) := by
  have hgaps : none ∉ itinerary .right root (Context.new direction : Context α).flow 0 false := by
    rw [none_notMem_itinerary_iff]
    exact ⟨hcomplete, by omega⟩
  have hnone : ((measure root (.new direction : Context α) 0 false).steps 0).findSome? gap? =
      none := by
    rw [List.findSome?_eq_none_iff]
    intro st hst
    apply gap?_eq_none
    intro hvisit
    rw [← visits_measure, ← Sized.map_visit?_steps _ 0, ← hvisit] at hgaps
    exact hgaps (List.mem_map_of_mem hst)
  have hlayout := layout_of_nodup (α := α) hnodup direction
  rwa [hnone] at hlayout

end Engine

end Railroad
