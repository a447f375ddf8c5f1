import Railroad.Proofs.Ebnf.Numbering
import Railroad.Proofs.Ebnf.ReadTrees
import Railroad.Proofs.Layout.Arrangement
/-!
When a tree can be laid out, and what the table then holds.
-/
namespace Railroad

variable {α : Type}

namespace BoxTable

variable {t t' : BoxTable α} {n : Node} {box : Box α}

theorem size_eq_countP (t : BoxTable α) : t.size = t.slots.toList.countP Option.isSome := by
  rw [size, boxes, List.length_filterMap_eq_countP]

theorem size_new (size base : Int) : (new size base : BoxTable α).size = 0 := by
  rw [size_eq_countP, new, Array.toList_replicate, List.countP_replicate]
  rfl

theorem size_assign (h : t.assign n box = .ok t') : t'.size = t.size + 1 := by
  obtain ⟨s, hslot, hnone, rfl⟩ := assign_eq_ok h
  have hlt : s < t.slots.toList.length := (slot?_eq_some_iff.mp hslot).2
  have hempty : t.slots.toList[s] = none := by
    rw [box?, hslot] at hnone
    have hslot' : t.slots[s]? = some t.slots[s] := Array.getElem?_eq_getElem hlt
    simpa [hslot'] using hnone
  rw [size_eq_countP, size_eq_countP, Array.toList_setIfInBounds, List.countP_set hlt, hempty]
  rfl

open Engine

variable {steps : List (Step α)}

theorem size_of_fill (h : t.fill steps = .ok t') :
    t'.size = t.size + (steps.filterMap entered?).length := by
  induction steps generalizing t with
  | nil =>
      cases h
      rfl
  | cons st steps ih =>
      obtain ⟨n, c, above, b, k, box, t₁, rfl, hassign, hfill⟩ := fill_cons h
      rw [ih hfill, entered_cons, List.length_cons, size_assign hassign]
      omega

/-- Boxes are filled in for the nodes that are entered, and for no others. -/
theorem contains_fill_iff (h : t.fill steps = .ok t') (m : Node) :
    t'.contains m = true ↔
      t.contains m = true ∨ ∃ n ∈ steps.filterMap entered?, n.id = m.id := by
  induction steps generalizing t with
  | nil =>
      cases h
      simp
  | cons st steps ih =>
      obtain ⟨n, c, above, b, k, box, t₁, rfl, hassign, hfill⟩ := fill_cons h
      have hbox := box?_assign hassign m
      have hcontains : t₁.contains m = true ↔ m.id = n.id ∨ t.contains m = true := by
        rw [contains, contains, hbox]
        split
        · simp [*]
        · simp [*]
      rw [ih hfill, entered_cons, List.exists_mem_cons_iff, hcontains, eq_comm, or_assoc,
        or_left_comm]

end BoxTable

section Gaps

theorem Sized.filterMap_gap?_withBox (s : Sized α) (box : Box α) (k : Nat) :
    ((s.withBox box).steps k).filterMap Engine.gap? = (s.steps k).filterMap Engine.gap? := by
  cases s <;> rfl

theorem Sized.stepsList_eq_flatMap (k : Nat) (ss : List (Sized α)) :
    stepsList k ss = ss.flatMap (steps k) := by
  induction ss with
  | nil => rfl
  | cons s ss ih => rw [stepsList, ih, List.flatMap_cons]

theorem Sized.mem_placed {s : Sized α} {ss : List (Sized α)} {boxes : List (Box α)}
    (h : s ∈ placed ss boxes) : ∃ s' ∈ ss, ∃ box, s = s'.withBox box := by
  obtain ⟨i, hi, rfl⟩ := List.mem_iff_getElem.mp h
  simp only [placed, List.length_zipWith] at hi
  refine ⟨ss[i], List.getElem_mem _, boxes[i], ?_⟩
  simp only [placed, List.getElem_zipWith]

variable [Scalar α]

/-- Nothing can be wrong with a complete tree but that it lies too deep. -/
theorem gaps_of_complete {n : Node} (hcomplete : n.isComplete = true) (c : Context α) (k j : Nat)
    (above : Bool) :
    ∀ fault ∈ ((measure n c k above).steps j).filterMap Engine.gap?, fault = .tooDeep := by
  induction n using Node.descend generalizing c k j above with
  | _ n ih =>
      obtain ⟨⟨hknown, hparts⟩, hchildren⟩ := (Node.isComplete_iff_children n).mp hcomplete
      by_cases hk : k < Metrics.maxDepth
      · obtain ⟨ss, p, hmeasure, -, hvisits⟩ := measure_entered hknown hparts hk c above
        have hss : ∀ s ∈ ss, ∀ j, ∀ fault ∈ (s.steps j).filterMap Engine.gap?, fault = .tooDeep := by
          intro s hs j
          obtain ⟨m, hm, c', above', rfl⟩ := exists_child_of_mem hvisits hs
          exact ih m hm (hchildren m hm) c' (k + 1) j above'
        intro fault hfault
        rw [hmeasure, Sized.steps, List.filterMap_cons, Sized.stepsList_eq_flatMap,
          List.filterMap_flatMap] at hfault
        obtain ⟨s, hs, hfault⟩ := List.mem_flatMap.mp hfault
        obtain ⟨s', hs', box, rfl⟩ := Sized.mem_placed hs
        rw [Sized.filterMap_gap?_withBox] at hfault
        exact hss s' hs' (j + 1) fault hfault
      · intro fault hfault
        rw [measure.eq_def, if_neg (by simp [hknown]), if_pos (by omega)] at hfault
        simpa [Sized.steps, Engine.gap?] using hfault

end Gaps

namespace Engine

variable [Scalar α] {root : Node} {direction : Direction}

theorem conditions_of_layout {table : BoxTable α} {e : Engine α}
    (h : layout root direction = (.ok table, e)) :
    root.isComplete = true ∧ (root.preorder.map Node.id).Nodup ∧ root.height ≤ Metrics.maxDepth := by
  have hgaps : none ∉ itinerary .right root (Context.new direction : Context α).flow 0 false :=
    none_notMem_of_layout h
  obtain ⟨hcomplete, hheight⟩ := (none_notMem_itinerary_iff _ _ _ _ _).mp hgaps
  refine ⟨hcomplete, ?_, by omega⟩
  rw [← entered_of_complete hgaps 0]
  exact BoxTable.nodup_of_fill (layout_eq_ok h).1

/-- The table holds a box for every node of the tree and for nothing else. -/
theorem contents_of_layout {table : BoxTable α} {e : Engine α}
    (h : layout root direction = (.ok table, e)) :
    (∀ n, table.contains n = true ↔ ∃ m ∈ root.preorder, m.id = n.id) ∧
      table.size = root.preorder.length := by
  have hgaps : none ∉ itinerary .right root (Context.new direction : Context α).flow 0 false :=
    none_notMem_of_layout h
  have hfill := (layout_eq_ok h).1
  rw [← entered_of_complete hgaps 0]
  constructor
  · intro n
    rw [BoxTable.contains_fill_iff hfill, BoxTable.contains, BoxTable.forTree, BoxTable.box?_new]
    simp
  · rw [BoxTable.size_of_fill hfill, BoxTable.forTree, BoxTable.size_new, Nat.zero_add]

/-- A complete tree without shared nodes can only lie too deep. -/
theorem layout_eq_error_iff (hcomplete : root.isComplete = true)
    (hnodup : (root.preorder.map Node.id).Nodup) (fault : LayoutFault) :
    (layout root direction : Except LayoutFault (BoxTable α) × Engine α).1 = .error fault ↔
      fault = .tooDeep ∧ Metrics.maxDepth < root.height := by
  have hgaps := gaps_of_complete hcomplete (.new direction : Context α) 0 0 false
  have hlayout := layout_of_nodup (α := α) hnodup direction
  cases hgap : ((measure root (.new direction : Context α) 0 false).steps 0).findSome? gap? with
  | none =>
      rw [hgap] at hlayout
      obtain ⟨table, e, hok⟩ := hlayout
      have := (conditions_of_layout hok).2.2
      rw [hok]
      simp only [reduceCtorEq, false_iff, not_and]
      omega
  | some found =>
      rw [hgap] at hlayout
      obtain ⟨stopped, herror⟩ := hlayout
      obtain ⟨st, hst, hfound⟩ := List.exists_of_findSome?_eq_some hgap
      have hdeep : found = .tooDeep := hgaps found (List.mem_filterMap.mpr ⟨st, hst, hfound⟩)
      have hheight : Metrics.maxDepth < root.height := by
        by_contra hle
        obtain ⟨table, e, hok⟩ := layout_of_complete (α := α) hcomplete (by omega) hnodup direction
        rw [hok] at herror
        cases herror
      rw [herror, hdeep, Except.error.injEq, eq_comm]
      exact (and_iff_left hheight).symm

theorem exists_of_mem_layout {root : Node} {direction : Direction} {table : BoxTable α}
    (h : table ∈ (layout root direction).1.toOption) :
    ∃ e : Engine α, layout root direction = (.ok table, e) := by
  generalize (layout root direction : Except LayoutFault (BoxTable α) × Engine α) = outcome at h ⊢
  obtain ⟨_ | t, e⟩ := outcome
  · cases h
  · cases h
    exact ⟨e, rfl⟩

end Engine

variable [Scalar α]

/-- A tree can be laid out exactly if all its nodes are of a known type and have the parts that they
need, no node occurs twice, and it is not too high.  The table then holds one box for each node and no
other box.  With a grammar that has been read nothing can be wrong but that it is too high. -/
theorem layout_succeeds_iff (root : Node) (direction : Direction) :
    ((∃ (table : BoxTable α) (e : Engine α), Engine.layout root direction = (.ok table, e)) ↔
      (∀ n ∈ root.walk, n.isKnown = true ∧ n.hasParts = true) ∧ (root.walk.map Node.id).Nodup ∧
        root.height ≤ Metrics.maxDepth) ∧
    (∀ (table : BoxTable α) (e : Engine α), Engine.layout root direction = (.ok table, e) →
      (∀ n, table.contains n = true ↔ ∃ m ∈ root.walk, m.id = n.id) ∧
        table.size = root.walk.length) ∧
    ∀ (reader : Ebnf.Reader) (nextId : Nat) (text : String),
      (reader.read nextId text).result = .ok root → ∀ fault : LayoutFault,
        ((Engine.layout root direction : Except LayoutFault (BoxTable α) × Engine α).1 =
          .error fault ↔ fault = .tooDeep ∧ Metrics.maxDepth < root.height) := by
  rw [Node.walk_eq_preorder, ← Node.isComplete_iff_preorder]
  refine ⟨⟨?_, ?_⟩, ?_, ?_⟩
  · rintro ⟨table, e, hlayout⟩
    exact Engine.conditions_of_layout hlayout
  · rintro ⟨hcomplete, hnodup, hheight⟩
    exact Engine.layout_of_complete hcomplete hheight hnodup direction
  · intro table e hlayout
    exact Engine.contents_of_layout hlayout
  · intro reader nextId text hread fault
    exact Engine.layout_eq_error_iff (Ebnf.isGrammar_of_read hread).isComplete
      (Ebnf.nodup_of_read hread) fault

end Railroad
