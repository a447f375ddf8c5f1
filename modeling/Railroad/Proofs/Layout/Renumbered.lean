import Railroad.Proofs.Grammar.Renumbered
import Railroad.Proofs.Layout.SizePass
/-!
The size pass does not look at the ids of nodes.  A tree with other ids is measured as the tree itself,
and as long as its nodes have ids of their own, the same boxes stand in the table.
-/
namespace Railroad

variable {α : Type} (r : Nat → Nat)

namespace Sized

mutual
/-- The measured tree with other ids. -/
def renumber : Sized α → Sized α
  | part n c above handsBack box parts =>
      part (n.renumber r) c above handsBack box (renumberList parts)
  | gap fault c => gap fault c

def renumberList : List (Sized α) → List (Sized α)
  | [] => []
  | s :: ss => renumber s :: renumberList ss
end

@[simp] theorem renumberList_eq_map (ss : List (Sized α)) :
    renumberList r ss = ss.map (renumber r) := by
  induction ss with
  | nil => rfl
  | cons s ss ih => rw [renumberList, ih, List.map_cons]

@[simp] theorem handsBack_renumber (s : Sized α) : (s.renumber r).handsBack = s.handsBack := by
  cases s <;> rfl

@[simp] theorem renumber_withBox (s : Sized α) (box : Box α) :
    (s.withBox box).renumber r = (s.renumber r).withBox box := by
  cases s <;> rfl

@[simp] theorem map_renumber_placed (ss : List (Sized α)) (boxes : List (Box α)) :
    (placed ss boxes).map (renumber r) = placed (ss.map (renumber r)) boxes := by
  rw [placed, placed, List.map_zipWith, List.zipWith_map_left]
  simp only [renumber_withBox]

@[simp] theorem after_map_renumber (above : Bool) (ss : List (Sized α)) :
    after above (ss.map (renumber r)) = after above ss := by
  simp [after, Function.comp_def]

@[simp] theorem box_renumber [Scalar α] (s : Sized α) : (s.renumber r).box = s.box := by
  cases s <;> rfl

@[simp] theorem map_withBox_renumber (ss : List (Sized α)) (box : Box α) :
    (ss.map (renumber r)).map (·.withBox box) = (ss.map (·.withBox box)).map (renumber r) := by
  simp [Function.comp_def]

@[simp] theorem head?_box_renumber [Scalar α] (ss : List (Sized α)) :
    (ss.map (renumber r)).head?.map box = ss.head?.map box := by
  simp [Function.comp_def]

@[simp] theorem map_box_renumber [Scalar α] (ss : List (Sized α)) :
    (ss.map (renumber r)).map box = ss.map box := by
  simp [Function.comp_def]

end Sized

section Measure

variable [Scalar α]

mutual
/-- A tree with other ids is measured as the tree itself. -/
theorem measure_renumber : ∀ (n : Node) (c : Context α) (k : Nat) (above : Bool),
    measure (n.renumber r) c k above = (measure n c k above).renumber r
  | n, c, k, above => by
      rw [measure.eq_def, measure.eq_def n, Node.isKnown_renumber, Node.typeName_renumber]
      split
      · rfl
      · split
        · rfl
        · cases n with
          | grammar _ title productions comment =>
              simp only [Node.renumber, measureOption_renumber title,
                measureRequired_renumber productions, measureOption_renumber comment,
                Sized.after_map_renumber, Sized.handsBack_renumber, Sized.head?_box_renumber,
                Sized.box_renumber, Placement.heading, Sized.renumber, Sized.renumberList_eq_map,
                List.map_append, List.map_cons, Sized.map_withBox_renumber, Sized.renumber_withBox]
          | productionList _ productions =>
              simp only [Node.renumber, measureList_renumber _ _ productions, Sized.renumber,
                Sized.after_map_renumber, Sized.map_box_renumber, Sized.renumberList_eq_map,
                Sized.map_renumber_placed]
          | production _ name expression =>
              simp only [Node.renumber, measureRequired_renumber name,
                measureRequired_renumber expression, Sized.handsBack_renumber, Sized.box_renumber,
                Sized.renumber, Sized.renumberList_eq_map, Sized.map_renumber_placed, List.map_cons,
                List.map_nil]
          | alternation _ alternatives =>
              cases alternatives with
              | nil => rfl
              | cons a as =>
                  have hfan : Node.isFan (Node.renumber r a :: Node.renumberList r as) =
                      Node.isFan (a :: as) := Node.isFan_renumberList r (a :: as)
                  have hparts : ∀ row, measureList row true
                      (Node.renumber r a :: Node.renumberList r as) c.push (k + 1) false =
                        (measureList row true (a :: as) c.push (k + 1) false).map
                          (Sized.renumber r) :=
                    fun row => measureList_renumber row true (a :: as) c.push (k + 1) false
                  simp only [Node.renumber, Node.renumberList, hfan, hparts,
                    Sized.map_box_renumber, ← Sized.map_renumber_placed]
                  split
                  · simp only [Sized.renumber, Sized.renumberList_eq_map, Node.renumber,
                      Node.renumberList]
                  · simp only [Sized.renumber, Sized.renumberList_eq_map, Node.renumber,
                      Node.renumberList]
          | sequence _ items =>
              simp only [Node.renumber, measureList_renumber _ _ items, Sized.renumber,
                Sized.after_map_renumber, Sized.map_box_renumber, Sized.renumberList_eq_map,
                Sized.map_renumber_placed]
          | repetition _ body =>
              simp only [Node.renumber, measureRequired_renumber body, Sized.handsBack_renumber,
                Sized.box_renumber, Sized.renumber, Sized.renumberList_eq_map,
                Sized.map_renumber_placed, List.map_cons, List.map_nil]
          | oneOrMore _ body separator =>
              cases separator with
              | none =>
                  simp only [Node.renumber, Node.renumberOption, measureRequired_renumber body,
                    Sized.box_renumber, Sized.renumber, Sized.renumberList_eq_map,
                    Sized.map_renumber_placed, List.map_cons, List.map_nil]
              | some separator =>
                  simp only [Node.renumber, Node.renumberOption, measureRequired_renumber body,
                    measure_renumber separator, Sized.handsBack_renumber,
                    Sized.box_renumber, Sized.renumber, Sized.renumberList_eq_map,
                    Sized.map_renumber_placed, List.map_cons, List.map_nil]
          | optional _ body =>
              simp only [Node.renumber, measureRequired_renumber body, Sized.handsBack_renumber,
                Sized.box_renumber, Sized.renumber, Sized.renumberList_eq_map,
                Sized.map_renumber_placed, List.map_cons, List.map_nil]
          | literal | identifier | other | foreign => rfl

theorem measureList_renumber (row : Row) : ∀ (first : Bool) (ns : List Node) (c : Context α)
    (k : Nat) (above : Bool), measureList row first (Node.renumberList r ns) c k above =
      (measureList row first ns c k above).map (Sized.renumber r)
  | _, [], _, _, _ => rfl
  | first, n :: ns, c, k, above => by
      rw [Node.renumberList, measureList, measure_renumber n, Sized.handsBack_renumber,
        measureList_renumber row false ns, measureList, List.map_cons,
        Node.renumberList_eq_map, List.isEmpty_map]

theorem measureOption_renumber : ∀ (o : Option Node) (c : Context α) (k : Nat) (above : Bool),
    measureOption (Node.renumberOption r o) c k above =
      (measureOption o c k above).map (Sized.renumber r)
  | none, _, _, _ => rfl
  | some n, c, k, above => by
      rw [Node.renumberOption, measureOption, measure_renumber n, measureOption, List.map_cons,
        List.map_nil]

theorem measureRequired_renumber : ∀ (o : Option Node) (c : Context α) (k : Nat) (above : Bool),
    measureRequired (Node.renumberOption r o) c k above = (measureRequired o c k above).renumber r
  | none, _, _, _ => rfl
  | some n, c, k, above => by
      rw [Node.renumberOption, measureRequired, measure_renumber n, measureRequired]
end

end Measure

/-- The step with other ids. -/
def Step.renumber : Step α → Step α
  | .enter n c above handsBack k box => .enter (n.renumber r) c above handsBack k box
  | .gap fault c k => .gap fault c k

namespace Sized

mutual
theorem steps_renumber : ∀ (s : Sized α) (k : Nat),
    (s.renumber r).steps k = (s.steps k).map (Step.renumber r)
  | part _ _ _ _ _ parts, k => by
      rw [renumber, steps, stepsList_renumber parts, steps, List.map_cons]
      rfl
  | gap .., _ => rfl

theorem stepsList_renumber : ∀ (ss : List (Sized α)) (k : Nat),
    stepsList k (renumberList r ss) = (stepsList k ss).map (Step.renumber r)
  | [], _ => rfl
  | s :: ss, k => by
      rw [renumberList, stepsList, steps_renumber s, stepsList_renumber ss, stepsList,
        List.map_append]
end

end Sized

namespace Engine

variable [Scalar α] {root : Node}

/-- What is wrong with a tree does not depend on its ids. -/
theorem findSome?_gap?_renumber (root : Node) (c : Context α) :
    ((measure (root.renumber r) c 0 false).steps 0).findSome? gap? =
      ((measure root c 0 false).steps 0).findSome? gap? := by
  rw [measure_renumber, Sized.steps_renumber, List.findSome?_map]
  congr 1
  funext st
  cases st <;> rfl

/-- Trees that differ by a renumbering, and whose nodes have ids of their own, get the same boxes, or the
same thing is wrong with both. -/
theorem layout_renumber (hnodup : (root.preorder.map Node.id).Nodup)
    (hnodup' : ((root.renumber r).preorder.map Node.id).Nodup) (direction : Direction) :
    (∃ (fault : LayoutFault) (e e' : Engine α), layout root direction = (.error fault, e) ∧
      layout (root.renumber r) direction = (.error fault, e')) ∨
    ∃ (t t' : BoxTable α) (e e' : Engine α), layout root direction = (.ok t, e) ∧
      layout (root.renumber r) direction = (.ok t', e') ∧
        ∀ n ∈ root.preorder, t'.box? (n.renumber r) = t.box? n := by
  have hlayout := layout_of_nodup (α := α) hnodup direction
  have hlayout' := layout_of_nodup (α := α) hnodup' direction
  -- What is wrong first is the same for both trees, so that they are laid out both or neither.
  rw [findSome?_gap?_renumber] at hlayout'
  cases hgap : ((measure root (.new direction : Context α) 0 false).steps 0).findSome? gap? with
  | some fault =>
      rw [hgap] at hlayout hlayout'
      obtain ⟨e, he⟩ := hlayout
      obtain ⟨e', he'⟩ := hlayout'
      exact .inl ⟨fault, e, e', he, he'⟩
  | none =>
      rw [hgap] at hlayout hlayout'
      obtain ⟨t, e, ht⟩ := hlayout
      obtain ⟨t', e', ht'⟩ := hlayout'
      refine .inr ⟨t, t', e, e', ht, ht', ?_⟩
      intro n hn
      obtain ⟨c, above, handsBack, k, box, hmem, hbox⟩ := step_of_layout ht hn
      have hmem' := List.mem_map_of_mem (f := Step.renumber r) hmem
      rw [← Sized.steps_renumber, ← measure_renumber] at hmem'
      obtain ⟨m, _, _, _, _, box', heq, hbox'⟩ := BoxTable.boxes_of_fill (layout_eq_ok ht').1 _ hmem'
      cases heq
      rw [hbox, hbox']

end Engine

end Railroad
