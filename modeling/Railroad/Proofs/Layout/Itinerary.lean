import Railroad.Proofs.Layout.Sized
import Railroad.Proofs.Grammar.Complete
import Railroad.Proofs.Grammar.Height
import Railroad.Proofs.Grammar.Preorder
/-!
The visits that a pass pays to the nodes of a tree, told without measuring or drawing anything: the order
of the nodes, and the flow and the flag that each of them is entered with.  There is no visit where a pass
finds something wrong.
-/
namespace Railroad

/-- The direction of flow, and whether there is a rail on either side. -/
structure Flow where
  direction : Direction
  useLeft : Bool
  useRight : Bool
deriving Repr, DecidableEq

namespace Flow

/-- A flow without rails. -/
def free (direction : Direction) : Flow :=
  ⟨direction, false, false⟩

/-- The flow without its rails. -/
def clear (f : Flow) : Flow :=
  free f.direction

/-- The flow turned around and without its rails. -/
def back (f : Flow) : Flow :=
  free f.direction.reversed

end Flow

/-- The flow of a context. -/
def Context.flow {α : Type} (c : Context α) : Flow :=
  ⟨c.live.direction, c.live.useLeft, c.live.useRight⟩

/-- A node that is entered, with a flow and a flag from the node above, and the flag that it hands
back. -/
structure Visit where
  node : Node
  flow : Flow
  above : Bool
  handsBack : Bool

/-- The flow of a part of a list; `first` and `last` say whether it stands at an end. -/
def Row.flow (row : Row) (f : Flow) (first last : Bool) : Flow :=
  match row with
  | rules => f
  | sequence => { f with useLeft := first && f.useLeft, useRight := last && f.useRight }
  | stack => { f with useLeft := true, useRight := true }
  | fan => .free .down

section Flows

variable {α : Type} (c : Context α)

@[simp] theorem Context.flow_push : c.push.flow = c.flow := rfl

@[simp] theorem Context.flow_toward (d : Direction) :
    (c.toward d).flow = { c.flow with direction := d } := rfl

@[simp] theorem Context.flow_clearRails : c.clearRails.flow = c.flow.clear := rfl

@[simp] theorem Context.flow_reverse :
    c.reverse.flow = { c.flow with direction := c.flow.direction.reversed } := rfl

@[simp] theorem Context.flow_withRails (useLeft useRight : Bool) :
    (c.withRails useLeft useRight).flow = ⟨c.flow.direction, useLeft, useRight⟩ := rfl

@[simp] theorem Row.flow_context (row : Row) (first last : Bool) :
    (row.context c first last).flow = row.flow c.flow first last := by
  cases row <;> rfl

end Flows

/-- The way in which alternatives are entered. -/
def Row.ofAlternatives (alternatives : List Node) : Row :=
  if Node.isFan alternatives then fan else stack

mutual
/-- The visits to a tree that is entered with a flow, at a nesting depth, with a flag; names of
productions are entered in the given direction. -/
def itinerary (names : Direction) (n : Node) (f : Flow) (nesting : Nat) (above : Bool) :
    List (Option Visit) :=
  if n.isKnown && nesting < Metrics.maxDepth then
    some ⟨n, f, above, n.isAlternation && above⟩ ::
      match n with
      | .grammar _ title productions comment =>
          itineraryOption names title (.free .none) (nesting + 1) false ++
            (itineraryRequired names productions (.free .none) (nesting + 1) false ++
              itineraryOption names comment (.free .none) (nesting + 1) false)
      | .productionList _ productions =>
          itineraryList names .rules true productions (.free .none) (nesting + 1)
      | .production _ name expression =>
          itineraryRequired names name (.free names) (nesting + 1) false ++
            itineraryRequired names expression (.free .right) (nesting + 1) false
      | .alternation _ [] => [none]
      | .alternation _ alternatives =>
          itineraryList names (.ofAlternatives alternatives) true alternatives f (nesting + 1)
      | .sequence _ items => itineraryList names .sequence true items f (nesting + 1)
      | .repetition _ body => itineraryRequired names body f.back (nesting + 1) true
      | .oneOrMore _ body separator =>
          itineraryRequired names body f.clear (nesting + 1) false ++
            itineraryOption names separator f.back (nesting + 1) false
      | .optional _ body => itineraryRequired names body f.clear (nesting + 1) true
      | .literal .. | .identifier .. | .other .. | .foreign .. => []
  else [none]

/-- The visits to the parts of a list. -/
def itineraryList (names : Direction) (row : Row) (first : Bool) (parts : List Node) (f : Flow)
    (nesting : Nat) : List (Option Visit) :=
  match parts with
  | [] => []
  | n :: ns =>
      itinerary names n (row.flow f first ns.isEmpty) nesting false ++
        itineraryList names row false ns f nesting

/-- The visits to a part that may be missing. -/
def itineraryOption (names : Direction) (part : Option Node) (f : Flow) (nesting : Nat)
    (above : Bool) : List (Option Visit) :=
  match part with
  | none => []
  | some n => itinerary names n f nesting above

/-- The visits to a part that has to be there. -/
def itineraryRequired (names : Direction) (part : Option Node) (f : Flow) (nesting : Nat)
    (above : Bool) : List (Option Visit) :=
  match part with
  | none => [none]
  | some n => itinerary names n f nesting above
end

section Flags

/-- A node hands back what an alternation is entered with, and nothing else. -/
def Visit.Plain (v : Visit) : Prop :=
  v.handsBack = (v.node.isAlternation && v.above)

mutual
theorem itinerary_plain (names : Direction) : ∀ (n : Node) (f : Flow) (k : Nat) (above : Bool),
    ∀ v, some v ∈ itinerary names n f k above → v.Plain
  | n, f, k, above => by
      intro v hv
      rw [itinerary.eq_def] at hv
      split at hv
      · rcases List.mem_cons.mp hv with hv | hv
        · cases hv
          rfl
        · cases n with
          | grammar _ title productions comment =>
              rcases List.mem_append.mp hv with hv | hv
              · exact itineraryOption_plain names title _ _ _ v hv
              · rcases List.mem_append.mp hv with hv | hv
                · exact itineraryRequired_plain names productions _ _ _ v hv
                · exact itineraryOption_plain names comment _ _ _ v hv
          | productionList _ productions => exact itineraryList_plain names _ _ productions _ _ v hv
          | production _ name expression =>
              rcases List.mem_append.mp hv with hv | hv
              · exact itineraryRequired_plain names name _ _ _ v hv
              · exact itineraryRequired_plain names expression _ _ _ v hv
          | alternation _ alternatives =>
              cases alternatives with
              | nil => simp at hv
              | cons a as => exact itineraryList_plain names _ _ (a :: as) _ _ v hv
          | sequence _ items => exact itineraryList_plain names _ _ items _ _ v hv
          | repetition _ body => exact itineraryRequired_plain names body _ _ _ v hv
          | oneOrMore _ body separator =>
              rcases List.mem_append.mp hv with hv | hv
              · exact itineraryRequired_plain names body _ _ _ v hv
              · exact itineraryOption_plain names separator _ _ _ v hv
          | optional _ body => exact itineraryRequired_plain names body _ _ _ v hv
          | literal | identifier | other | foreign => simp at hv
      · simp at hv

theorem itineraryList_plain (names : Direction) (row : Row) : ∀ (first : Bool) (ns : List Node)
    (f : Flow) (k : Nat), ∀ v, some v ∈ itineraryList names row first ns f k → v.Plain
  | _, [], _, _, v, hv => by simp [itineraryList] at hv
  | first, n :: ns, f, k, v, hv => by
      rw [itineraryList] at hv
      rcases List.mem_append.mp hv with hv | hv
      · exact itinerary_plain names n _ _ _ v hv
      · exact itineraryList_plain names row false ns f k v hv

theorem itineraryOption_plain (names : Direction) : ∀ (o : Option Node) (f : Flow) (k : Nat)
    (above : Bool), ∀ v, some v ∈ itineraryOption names o f k above → v.Plain
  | none, _, _, _, v, hv => by simp [itineraryOption] at hv
  | some n, f, k, above, v, hv => itinerary_plain names n f k above v hv

theorem itineraryRequired_plain (names : Direction) : ∀ (o : Option Node) (f : Flow) (k : Nat)
    (above : Bool), ∀ v, some v ∈ itineraryRequired names o f k above → v.Plain
  | none, _, _, _, v, hv => by simp [itineraryRequired] at hv
  | some n, f, k, above, v, hv => itinerary_plain names n f k above v hv
end

end Flags

section Gaps

theorem itinerary_of_entered (names : Direction) {n : Node} {k : Nat} (f : Flow) (above : Bool)
    (h : (n.isKnown && k < Metrics.maxDepth) = false) : itinerary names n f k above = [none] := by
  rw [itinerary.eq_def, if_neg (by simp [h])]

mutual
/-- Nothing is wrong with a complete tree that does not lie too deep. -/
theorem none_notMem_itinerary_iff (names : Direction) : ∀ (n : Node) (f : Flow) (k : Nat)
    (above : Bool), none ∉ itinerary names n f k above ↔
      n.isComplete = true ∧ k + n.height ≤ Metrics.maxDepth
  | n, f, k, above => by
      -- Parts are entered one level deeper and are lower by one, so that the bound stays the same for them.
      by_cases hk : k < Metrics.maxDepth
      · have hle : k + 1 ≤ Metrics.maxDepth := hk
        rw [itinerary.eq_def]
        cases n with
        | grammar _ title productions comment =>
            have ht := none_notMem_itineraryOption_iff names title (.free .none) hle false
            have hp := none_notMem_itineraryRequired_iff names productions (.free .none) hle false
            have hc := none_notMem_itineraryOption_iff names comment (.free .none) hle false
            simp [hk, Node.isKnown, Node.isComplete, Node.height, ht, hp, hc]
            grind
        | productionList _ productions =>
            have hps := none_notMem_itineraryList_iff names .rules true productions (.free .none) hle
            simp [hk, Node.isKnown, Node.isComplete, Node.height, hps]
            grind
        | production _ name expression =>
            have hn := none_notMem_itineraryRequired_iff names name (.free names) hle false
            have he := none_notMem_itineraryRequired_iff names expression (.free .right) hle false
            simp [hk, Node.isKnown, Node.isComplete, Node.height, hn, he]
            grind
        | alternation _ alternatives =>
            have has := none_notMem_itineraryList_iff names (.ofAlternatives alternatives) true
              alternatives f hle
            cases alternatives with
            | nil => simp [hk, Node.isKnown, Node.isComplete]
            | cons a as =>
                simp [hk, Node.isKnown, Node.isComplete, Node.height, has]
                grind
        | sequence _ items =>
            have his := none_notMem_itineraryList_iff names .sequence true items f hle
            simp [hk, Node.isKnown, Node.isComplete, Node.height, his]
            grind
        | repetition _ body =>
            have hb := none_notMem_itineraryRequired_iff names body f.back hle true
            simp [hk, Node.isKnown, Node.isComplete, Node.height, hb]
            grind
        | oneOrMore _ body separator =>
            have hb := none_notMem_itineraryRequired_iff names body f.clear hle false
            have hs := none_notMem_itineraryOption_iff names separator f.back hle false
            simp [hk, Node.isKnown, Node.isComplete, Node.height, hb, hs]
            grind
        | optional _ body =>
            have hb := none_notMem_itineraryRequired_iff names body f.clear hle true
            simp [hk, Node.isKnown, Node.isComplete, Node.height, hb]
            grind
        | literal | identifier | other =>
            simp only [hk, Node.isKnown, Node.isComplete, Node.height, decide_true, Bool.and_self,
              if_true, List.mem_singleton, reduceCtorEq, not_false_eq_true, true_and, true_iff]
            exact hle
        | foreign => simp [Node.isKnown, Node.isComplete]
      · have hpos := n.height_pos
        rw [itinerary_of_entered names f above (by simp [hk])]
        simp only [List.mem_singleton, not_true_eq_false, false_iff]
        omega

theorem none_notMem_itineraryList_iff (names : Direction) (row : Row) : ∀ (first : Bool)
    (ns : List Node) (f : Flow) {k : Nat}, k ≤ Metrics.maxDepth →
      (none ∉ itineraryList names row first ns f k ↔
        Node.isCompleteList ns = true ∧ k + Node.heightList ns ≤ Metrics.maxDepth)
  | _, [], _, _, hk => by
      simpa [itineraryList, Node.isCompleteList] using hk
  | first, n :: ns, f, k, hk => by
      have hn := none_notMem_itinerary_iff names n (row.flow f first ns.isEmpty) k false
      have hns := none_notMem_itineraryList_iff names row false ns f hk
      simp [itineraryList, Node.isCompleteList, hn, hns]
      grind

theorem none_notMem_itineraryOption_iff (names : Direction) : ∀ (o : Option Node) (f : Flow)
    {k : Nat} (_ : k ≤ Metrics.maxDepth) (above : Bool),
      (none ∉ itineraryOption names o f k above ↔
        Node.isCompleteOption o = true ∧ k + Node.heightOption o ≤ Metrics.maxDepth)
  | none, _, _, hk, _ => by
      simpa [itineraryOption, Node.isCompleteOption, Node.heightOption] using hk
  | some n, f, k, _, above => none_notMem_itinerary_iff names n f k above

theorem none_notMem_itineraryRequired_iff (names : Direction) : ∀ (o : Option Node) (f : Flow)
    {k : Nat} (_ : k ≤ Metrics.maxDepth) (above : Bool),
      (none ∉ itineraryRequired names o f k above ↔
        Node.isCompleteRequired o = true ∧ k + Node.heightOption o ≤ Metrics.maxDepth)
  | none, _, _, _, _ => by simp [itineraryRequired, Node.isCompleteRequired]
  | some n, f, k, _, above => none_notMem_itinerary_iff names n f k above
end

end Gaps

section Nodes

mutual
/-- Visits without a gap are paid to all nodes, every node before its children. -/
theorem map_node_itinerary (names : Direction) : ∀ (n : Node) (f : Flow) (k : Nat) (above : Bool),
    none ∉ itinerary names n f k above →
      (itinerary names n f k above).map (Option.map Visit.node) = n.preorder.map some
  | n, f, k, above => by
      intro h
      cases hentered : n.isKnown && k < Metrics.maxDepth with
      | false => simp [itinerary_of_entered names f above hentered] at h
      | true =>
          rw [itinerary.eq_def, if_pos hentered, List.mem_cons, not_or] at h
          rw [itinerary.eq_def, if_pos hentered, Node.preorder.eq_def, List.map_cons,
            List.map_cons]
          congr 1
          replace h := h.2
          cases n with
          | grammar _ title productions comment =>
              rw [List.mem_append, List.mem_append, not_or, not_or] at h
              simp only [List.map_append]
              rw [map_node_itineraryOption names title _ _ _ h.1,
                map_node_itineraryRequired names productions _ _ _ h.2.1,
                map_node_itineraryOption names comment _ _ _ h.2.2]
          | productionList _ productions => exact map_node_itineraryList names _ _ productions _ _ h
          | production _ name expression =>
              rw [List.mem_append, not_or] at h
              simp only [List.map_append]
              rw [map_node_itineraryRequired names name _ _ _ h.1,
                map_node_itineraryRequired names expression _ _ _ h.2]
          | alternation _ alternatives =>
              cases alternatives with
              | nil => simp at h
              | cons a as => exact map_node_itineraryList names _ _ (a :: as) _ _ h
          | sequence _ items => exact map_node_itineraryList names _ _ items _ _ h
          | repetition _ body => exact map_node_itineraryRequired names body _ _ _ h
          | oneOrMore _ body separator =>
              rw [List.mem_append, not_or] at h
              simp only [List.map_append]
              rw [map_node_itineraryRequired names body _ _ _ h.1,
                map_node_itineraryOption names separator _ _ _ h.2]
          | optional _ body => exact map_node_itineraryRequired names body _ _ _ h
          | literal | identifier | other | foreign => rfl

theorem map_node_itineraryList (names : Direction) (row : Row) : ∀ (first : Bool) (ns : List Node)
    (f : Flow) (k : Nat), none ∉ itineraryList names row first ns f k →
      (itineraryList names row first ns f k).map (Option.map Visit.node) =
        (Node.preorderList ns).map some
  | _, [], _, _, _ => rfl
  | first, n :: ns, f, k, h => by
      rw [itineraryList, List.mem_append, not_or] at h
      rw [itineraryList, List.map_append, map_node_itinerary names n _ k false h.1,
        map_node_itineraryList names row false ns f k h.2, Node.preorderList_cons, List.map_append]

theorem map_node_itineraryOption (names : Direction) : ∀ (o : Option Node) (f : Flow) (k : Nat)
    (above : Bool), none ∉ itineraryOption names o f k above →
      (itineraryOption names o f k above).map (Option.map Visit.node) =
        (Node.preorderOption o).map some
  | none, _, _, _, _ => rfl
  | some n, f, k, above, h => map_node_itinerary names n f k above h

theorem map_node_itineraryRequired (names : Direction) : ∀ (o : Option Node) (f : Flow) (k : Nat)
    (above : Bool), none ∉ itineraryRequired names o f k above →
      (itineraryRequired names o f k above).map (Option.map Visit.node) =
        (Node.preorderOption o).map some
  | none, _, _, _, h => by simp [itineraryRequired] at h
  | some n, f, k, above, h => map_node_itinerary names n f k above h
end

/-- The nodes that are visited. -/
def visitedNodes (vs : List (Option Visit)) : List Node :=
  vs.filterMap (Option.map Visit.node)

theorem visitedNodes_append (vs ws : List (Option Visit)) :
    visitedNodes (vs ++ ws) = visitedNodes vs ++ visitedNodes ws :=
  List.filterMap_append

mutual
/-- No node is visited that is not in the tree, nor out of order. -/
theorem visitedNodes_itinerary (names : Direction) : ∀ (n : Node) (f : Flow) (k : Nat)
    (above : Bool), (visitedNodes (itinerary names n f k above)).Sublist n.preorder
  | n, f, k, above => by
      cases hentered : n.isKnown && k < Metrics.maxDepth with
      | false =>
          rw [itinerary_of_entered names f above hentered]
          exact List.nil_sublist _
      | true =>
          rw [itinerary.eq_def, if_pos hentered, Node.preorder.eq_def]
          refine .cons_cons n ?_
          cases n with
          | grammar _ title productions comment =>
              have ht := visitedNodes_itineraryOption names title (.free .none) (k + 1) false
              have hp := visitedNodes_itineraryRequired names productions (.free .none) (k + 1) false
              have hc := visitedNodes_itineraryOption names comment (.free .none) (k + 1) false
              simpa only [visitedNodes, List.filterMap_append] using ht.append (hp.append hc)
          | productionList _ productions => exact visitedNodes_itineraryList names _ _ productions _ _
          | production _ name expression =>
              have hn := visitedNodes_itineraryRequired names name (.free names) (k + 1) false
              have he := visitedNodes_itineraryRequired names expression (.free .right) (k + 1) false
              simpa only [visitedNodes, List.filterMap_append] using hn.append he
          | alternation _ alternatives =>
              cases alternatives with
              | nil => exact List.nil_sublist _
              | cons a as => exact visitedNodes_itineraryList names _ _ (a :: as) _ _
          | sequence _ items => exact visitedNodes_itineraryList names _ _ items _ _
          | repetition _ body => exact visitedNodes_itineraryRequired names body _ _ _
          | oneOrMore _ body separator =>
              have hb := visitedNodes_itineraryRequired names body f.clear (k + 1) false
              have hs := visitedNodes_itineraryOption names separator f.back (k + 1) false
              simpa only [visitedNodes, List.filterMap_append] using hb.append hs
          | optional _ body => exact visitedNodes_itineraryRequired names body _ _ _
          | literal | identifier | other | foreign => exact List.nil_sublist _

theorem visitedNodes_itineraryList (names : Direction) (row : Row) : ∀ (first : Bool)
    (ns : List Node) (f : Flow) (k : Nat),
      (visitedNodes (itineraryList names row first ns f k)).Sublist (Node.preorderList ns)
  | _, [], _, _ => List.nil_sublist _
  | first, n :: ns, f, k => by
      rw [itineraryList, visitedNodes_append, Node.preorderList_cons]
      exact (visitedNodes_itinerary names n _ k false).append
        (visitedNodes_itineraryList names row false ns f k)

theorem visitedNodes_itineraryOption (names : Direction) : ∀ (o : Option Node) (f : Flow) (k : Nat)
    (above : Bool), (visitedNodes (itineraryOption names o f k above)).Sublist
      (Node.preorderOption o)
  | none, _, _, _ => List.nil_sublist _
  | some n, f, k, above => visitedNodes_itinerary names n f k above

theorem visitedNodes_itineraryRequired (names : Direction) : ∀ (o : Option Node) (f : Flow)
    (k : Nat) (above : Bool), (visitedNodes (itineraryRequired names o f k above)).Sublist
      (Node.preorderOption o)
  | none, _, _, _ => List.nil_sublist _
  | some n, f, k, above => visitedNodes_itinerary names n f k above
end

theorem mem_preorder_of_mem_itinerary {names : Direction} {n : Node} {f : Flow} {k : Nat}
    {above : Bool} {v : Visit} (hv : some v ∈ itinerary names n f k above) :
    v.node ∈ n.preorder := by
  apply (visitedNodes_itinerary names n f k above).subset
  exact List.mem_filterMap.mpr ⟨some v, hv, rfl⟩

end Nodes

end Railroad
