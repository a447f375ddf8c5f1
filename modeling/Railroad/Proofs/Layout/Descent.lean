import Railroad.Proofs.Layout.Standing
/-!
The visits of a pass, gone through from a node to its children: each visit of an itinerary is followed by
the visits to the children, and every node that the size pass visits stands in the table.
-/
namespace Railroad

section Itineraries

variable {names : Direction} {n : Node} {f : Flow} {k : Nat} {above : Bool} {v v' : Visit}

theorem eq_to_of_mem_items {first : Bool} {ns : List Node} (h : v ∈ f.items first ns) :
    v = .to v.node v.flow v.above := by
  induction ns generalizing first with
  | nil => cases h
  | cons n ns ih =>
      rcases List.mem_cons.mp h with rfl | h
      · rfl
      · exact ih h

/-- A visit hands back what an alternation is entered with, and nothing else. -/
theorem eq_to_of_mem_onward (h : v ∈ f.onward names n) : v = .to v.node v.flow v.above := by
  have hmap : ∀ {ns : List Node} {g : Flow} {flag : Bool}, v ∈ ns.map (Visit.to · g flag) →
      v = .to v.node v.flow v.above := by
    intro ns g flag hv
    obtain ⟨m, -, rfl⟩ := List.mem_map.mp hv
    rfl
  cases n with
  | sequence => exact eq_to_of_mem_items h
  | production | oneOrMore => exact (List.mem_append.mp h).elim hmap hmap
  | grammar | productionList | alternation | repetition | optional => exact hmap h
  | literal | identifier | other | foreign => cases h

/-- The visits to a tree, from a visit to its root. -/
def Visit.tour (names : Direction) (k : Nat) (v : Visit) : List (Option Visit) :=
  itinerary names v.node v.flow k v.above

theorem itineraryList_eq_flatMap {row : Row} {g : Flow}
    (hflow : ∀ first last, row.flow f first last = g) (first : Bool) (ns : List Node) :
    itineraryList names row first ns f k =
      (ns.map (Visit.to · g false)).flatMap (Visit.tour names k) := by
  induction ns generalizing first with
  | nil => rfl
  | cons n ns ih =>
      rw [itineraryList, hflow, ih]
      rfl

theorem itineraryItems_eq_flatMap (first : Bool) (ns : List Node) :
    itineraryList names .sequence first ns f k =
      (f.items first ns).flatMap (Visit.tour names k) := by
  induction ns generalizing first with
  | nil => rfl
  | cons n ns ih =>
      rw [itineraryList, ih]
      rfl

theorem itineraryOption_eq_flatMap (o : Option Node) :
    itineraryOption names o f k above =
      (o.toList.map (Visit.to · f above)).flatMap (Visit.tour names k) := by
  cases o with
  | none => rfl
  | some n => exact (List.append_nil _).symm

theorem itineraryRequired_eq_flatMap {o : Option Node} (ho : o.isSome = true) :
    itineraryRequired names o f k above =
      (o.toList.map (Visit.to · f above)).flatMap (Visit.tour names k) := by
  cases o with
  | none => cases ho
  | some n => exact (List.append_nil _).symm

/-- A node that may be entered and has its parts is visited first, and then the trees of its children. -/
theorem itinerary_eq_flatMap (hknown : n.isKnown = true) (hparts : n.hasParts = true)
    (hk : k < Metrics.maxDepth) :
    itinerary names n f k above =
      some (.to n f above) :: (f.onward names n).flatMap (Visit.tour names (k + 1)) := by
  rw [itinerary.eq_def, if_pos (by simp [hknown, hk])]
  refine congrArg _ ?_
  cases n with
  | grammar _ title productions comment =>
      dsimp only
      rw [itineraryOption_eq_flatMap, itineraryRequired_eq_flatMap hparts, itineraryOption_eq_flatMap,
        Flow.onward, List.map_append, List.map_append, List.flatMap_append, List.flatMap_append,
        List.append_assoc]
  | productionList => exact itineraryList_eq_flatMap (fun _ _ => rfl) true _
  | production _ name expression =>
      rw [Node.hasParts, Bool.and_eq_true] at hparts
      dsimp only
      rw [itineraryRequired_eq_flatMap hparts.1, itineraryRequired_eq_flatMap hparts.2, Flow.onward,
        List.flatMap_append]
  | alternation _ alternatives =>
      cases alternatives with
      | nil => cases hparts
      | cons a as =>
          refine itineraryList_eq_flatMap ?_ true _
          intro first last
          rw [Row.ofAlternatives]
          split <;> rfl
  | sequence => exact itineraryItems_eq_flatMap true _
  | repetition | optional => exact itineraryRequired_eq_flatMap hparts
  | oneOrMore _ body separator =>
      dsimp only
      rw [itineraryRequired_eq_flatMap hparts, itineraryOption_eq_flatMap, Flow.onward,
        List.flatMap_append]
  | literal | identifier | other => rfl
  | foreign => cases hknown

/-- The visits to a complete tree that does not lie too deep lead from each node to its children. -/
theorem onward_of_mem_itinerary (hcomplete : n.isComplete = true)
    (hk : k + n.height ≤ Metrics.maxDepth) (hv : some v ∈ itinerary names n f k above)
    (hv' : v' ∈ v.flow.onward names v.node) : some v' ∈ itinerary names n f k above := by
  induction n using Node.descend generalizing f k above with
  | _ n ih =>
      obtain ⟨⟨hknown, hparts⟩, hchildren⟩ := (Node.isComplete_iff_children n).mp hcomplete
      have hpos := n.height_pos
      have hheight {m : Node} (hm : m ∈ n.children) : k + 1 + m.height ≤ Metrics.maxDepth := by
        have := Node.height_lt_of_mem_children hm
        omega
      rw [itinerary_eq_flatMap hknown hparts (by omega)] at hv ⊢
      refine List.mem_cons_of_mem _ (List.mem_flatMap.mpr ?_)
      -- Either the node itself is visited, or a node below one of its children.
      rcases List.mem_cons.mp hv with hv | hv
      · cases hv
        obtain ⟨⟨hknown', hparts'⟩, -⟩ :=
          (Node.isComplete_iff_children _).mp (hchildren _ (Visit.node_mem_children hv'))
        refine ⟨v', hv', ?_⟩
        have hpos' := v'.node.height_pos
        have hshallow := hheight (Visit.node_mem_children hv')
        rw [Visit.tour, itinerary_eq_flatMap hknown' hparts' (by omega), ← eq_to_of_mem_onward hv']
        exact List.mem_cons_self
      · obtain ⟨w, hw, hv⟩ := List.mem_flatMap.mp hv
        have hm := Visit.node_mem_children hw
        exact ⟨w, hw, ih w.node hm (hchildren _ hm) (hheight hm) hv⟩

end Itineraries

variable {α : Type} [Scalar α] {t : BoxTable α} {k : Nat} {v w : Visit} {s : Sized α} {box : Box α}

/-- Whatever is visited below a node that stands in a table stands there too, and what placing the children
hands on to them holds of it. -/
theorem Visit.Stands.exists_of_mem_tour {P : Visit → Sized α → Box α → Prop}
    (hstep : ∀ {k : Nat} {v : Visit} {s : Sized α} {box : Box α} {ss : List (Sized α)}
      {p : Placement α}, v.node.isComplete = true → v.Holds t k s box ss p → P v s box →
      ∀ v' x, (v', x) ∈ (v.flow.onward .right v.node).zip (ss.zip p.parts) → P v' x.1 x.2)
    (hcomplete : v.node.isComplete = true) (hk : k + v.node.height ≤ Metrics.maxDepth)
    (hv : v = .to v.node v.flow v.above) (h : v.Stands t k s box) (hP : P v s box)
    (hw : some w ∈ v.tour .right k) : ∃ j s' box', w.Stands t j s' box' ∧ P w s' box' := by
  generalize hnode : v.node = n at hcomplete hk
  induction n using Node.descend generalizing v k s box with
  | _ n ih =>
      subst hnode
      obtain ⟨⟨hknown, hparts⟩, hchildren⟩ := (Node.isComplete_iff_children _).mp hcomplete
      have hpos := v.node.height_pos
      rw [tour, itinerary_eq_flatMap hknown hparts (by omega), ← hv] at hw
      rcases List.mem_cons.mp hw with hw | hw
      · cases hw
        exact ⟨k, s, box, h, hP⟩
      · obtain ⟨v', hv', hw⟩ := List.mem_flatMap.mp hw
        obtain ⟨ss, p, hholds⟩ := h.holds hcomplete
        have hboth := List.forall₂_iff_zip.mpr ⟨hholds.parts.length_eq, fun {v' x} hx =>
          And.intro (List.forall₂_zip hholds.parts hx) (hstep hcomplete hholds hP v' x hx)⟩
        obtain ⟨x, -, hstands, hP'⟩ := exists_of_mem_left hboth hv'
        have hm := Visit.node_mem_children hv'
        have := Node.height_lt_of_mem_children hm
        exact ih v'.node hm (eq_to_of_mem_onward hv') hstands hP' hw rfl (hchildren _ hm) (by omega)

theorem Visit.Stands.of_mem_tour (hcomplete : v.node.isComplete = true)
    (hk : k + v.node.height ≤ Metrics.maxDepth) (hv : v = .to v.node v.flow v.above)
    (h : v.Stands t k s box) (hw : some w ∈ v.tour .right k) :
    ∃ j s' box', w.Stands t j s' box' := by
  obtain ⟨j, s', box', hstands, -⟩ :=
    h.exists_of_mem_tour (P := fun _ _ _ => True) (fun _ _ _ _ _ _ => trivial) hcomplete hk hv trivial hw
  exact ⟨j, s', box', hstands⟩

end Railroad
