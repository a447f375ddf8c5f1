import Railroad.Proofs.Layout.Arrangement
import Railroad.Proofs.Layout.Renumbered
/-!
Layout is compositional.  Of everything that an engine keeps, the boxes of a tree depend on the flow that
the tree is entered with and on nothing else, and no other box is touched.
-/
namespace Railroad

variable {α : Type}

namespace Sized

section Contexts

variable (c₀ : Context α)

mutual
/-- The measured tree as if all its nodes had been entered in one context. -/
def within : Sized α → Sized α
  | part n _ above handsBack box parts => part n c₀ above handsBack box (withinList parts)
  | gap fault _ => gap fault c₀

def withinList : List (Sized α) → List (Sized α)
  | [] => []
  | s :: ss => within s :: withinList ss
end

@[simp] theorem withinList_eq_map (ss : List (Sized α)) : withinList c₀ ss = ss.map (within c₀) := by
  induction ss with
  | nil => rfl
  | cons s ss ih => rw [withinList, ih, List.map_cons]

@[simp] theorem handsBack_within (s : Sized α) : (s.within c₀).handsBack = s.handsBack := by
  cases s <;> rfl

@[simp] theorem box_within [Scalar α] (s : Sized α) : (s.within c₀).box = s.box := by
  cases s <;> rfl

@[simp] theorem within_withBox (s : Sized α) (box : Box α) :
    (s.withBox box).within c₀ = (s.within c₀).withBox box := by
  cases s <;> rfl

@[simp] theorem map_within_placed (ss : List (Sized α)) (boxes : List (Box α)) :
    (placed ss boxes).map (within c₀) = placed (ss.map (within c₀)) boxes := by
  rw [placed, placed, List.map_zipWith, List.zipWith_map_left]
  simp only [within_withBox]

end Contexts

end Sized

/-- The box that a step writes; there is none where something is wrong. -/
def Step.box? : Step α → Option (Box α)
  | .enter _ _ _ _ _ box => some box
  | .gap .. => none

namespace Sized

mutual
/-- Neither the contexts nor the nesting depth can be told from the boxes. -/
theorem boxes_within (c₀ : Context α) : ∀ (s : Sized α) (k j : Nat),
    ((s.within c₀).steps j).filterMap Step.box? = (s.steps k).filterMap Step.box?
  | part _ _ _ _ _ parts, k, j => by
      rw [within, steps, steps, List.filterMap_cons, List.filterMap_cons,
        boxesList_within c₀ parts (k + 1) (j + 1)]
      rfl
  | gap .., _, _ => rfl

theorem boxesList_within (c₀ : Context α) : ∀ (ss : List (Sized α)) (k j : Nat),
    (stepsList j (withinList c₀ ss)).filterMap Step.box? = (stepsList k ss).filterMap Step.box?
  | [], _, _ => rfl
  | s :: ss, k, j => by
      rw [withinList, stepsList, stepsList, List.filterMap_append, List.filterMap_append,
        boxes_within c₀ s k j, boxesList_within c₀ ss k j]
end

theorem boxes_renumber (r : Nat → Nat) (s : Sized α) (k : Nat) :
    ((s.renumber r).steps k).filterMap Step.box? = (s.steps k).filterMap Step.box? := by
  rw [steps_renumber, List.filterMap_map]
  congr 1
  funext st
  cases st <;> rfl

end Sized

/-- Lists that are related to the same one are alike if related elements are. -/
theorem map_eq_of_related {β γ δ : Type} {R S : β → γ → Prop} {g : γ → δ} {xs : List β}
    {ys zs : List γ} (h : List.Forall₂ R xs ys) (h' : List.Forall₂ S xs zs)
    (halike : ∀ x ∈ xs, ∀ y z, R x y → S x z → g y = g z) : ys.map g = zs.map g := by
  induction h generalizing zs with
  | nil =>
      cases h'
      rfl
  | cons hy _ ih =>
      cases h' with
      | cons hz hzs =>
          rw [List.forall_mem_cons] at halike
          rw [List.map_cons, List.map_cons, halike.1 _ _ hy hz, ih hzs halike.2]

section Measured

variable [Scalar α] {n : Node} {f : Flow} {above : Bool} {ss ss' : List (Sized α)} {p p' : Placement α}

/-- Where a node places its children is decided by their boxes and the flags that they hand back. -/
theorem Arranges.placement_eq (h : Arranges n f above ss p) (h' : Arranges n f above ss' p')
    (hboxes : ss.map Sized.box = ss'.map Sized.box)
    (hflags : ss.map Sized.handsBack = ss'.map Sized.handsBack) : p = p' := by
  cases h with
  | grammar _ _ rules hheading hclosing =>
      obtain ⟨heading', closing', rules', hheading', hclosing', rfl, rfl⟩ := h'.eq_of_grammar
      simp only [List.map_append, List.map_cons] at hboxes
      obtain ⟨htitle, hrest⟩ := List.append_inj hboxes (by simp [hheading, hheading'])
      obtain ⟨hrules, hcomment⟩ := List.cons.inj hrest
      rw [← List.head?_map, ← List.head?_map, ← List.head?_map, ← List.head?_map, htitle, hrules,
        hcomment]
  | productionList => rw [h'.eq_of_productionList, hboxes]
  | production =>
      obtain ⟨_, _, first, second, -, -, rfl, rfl⟩ := h'.eq_of_production
      simp only [List.map_cons, List.cons.injEq] at hboxes
      rw [hboxes.1, hboxes.2.1]
  | fan _ hfan => rw [h'.eq_of_fan hfan, hboxes]
  | stack _ hfan => rw [(h'.eq_of_stack hfan).2, hboxes]
  | sequence => rw [h'.eq_of_sequence, hboxes]
  | repetition =>
      obtain ⟨body, rfl, rfl⟩ := h'.eq_of_repetition
      simp only [List.map_cons, List.cons.injEq] at hboxes hflags
      rw [hboxes.1, hflags.1]
  | loop =>
      obtain ⟨body, rfl, rfl⟩ := h'.eq_of_loop
      simp only [List.map_cons, List.cons.injEq] at hboxes
      rw [hboxes.1]
  | separatedLoop =>
      obtain ⟨body, separator, rfl, rfl⟩ := h'.eq_of_separatedLoop
      simp only [List.map_cons, List.cons.injEq] at hboxes
      rw [hboxes.1, hboxes.2.1]
  | optional =>
      obtain ⟨body, rfl, rfl⟩ := h'.eq_of_optional
      simp only [List.map_cons, List.cons.injEq] at hboxes hflags
      rw [hboxes.1, hflags.1]
  | leaf htext => exact (h'.eq_of_leaf htext).2.symm

/-- What a complete tree that does not lie too deep is measured as depends on the flow that it is entered
with, and not on the rest of the context or on the depth. -/
theorem within_measure (c₀ : Context α) (hcomplete : n.isComplete = true) {c c' : Context α}
    (hflow : c.flow = c'.flow) {k k' : Nat} (hk : k + n.height ≤ Metrics.maxDepth)
    (hk' : k' + n.height ≤ Metrics.maxDepth) (above : Bool) :
    (measure n c k above).within c₀ = (measure n c' k' above).within c₀ := by
  induction n using Node.descend generalizing c c' k k' above with
  | _ n ih =>
      obtain ⟨⟨hknown, hparts⟩, hchildren⟩ := (Node.isComplete_iff_children n).mp hcomplete
      have hpos := n.height_pos
      obtain ⟨ss, p, hmeasure, harranges, hvisits⟩ :=
        measure_entered hknown hparts (by omega : k < Metrics.maxDepth) c above
      obtain ⟨ss', p', hmeasure', harranges', hvisits'⟩ :=
        measure_entered hknown hparts (by omega : k' < Metrics.maxDepth) c' above
      rw [← hflow] at harranges' hvisits'
      -- The parts are visited alike, so they are measured alike.
      have hss : ss.map (Sized.within c₀) = ss'.map (Sized.within c₀) := by
        apply map_eq_of_related hvisits hvisits'
        rintro v hv _ _ ⟨c, hc, rfl⟩ ⟨c', hc', rfl⟩
        have hchild := Visit.node_mem_children hv
        have hheight := Node.height_lt_of_mem_children hchild
        exact ih v.node hchild (hchildren v.node hchild) (hc.trans hc'.symm) (by omega) (by omega)
          v.above
      have hp : p = p' := by
        refine harranges.placement_eq harranges' ?_ ?_
        · simpa [Function.comp_def] using congrArg (List.map Sized.box) hss
        · simpa [Function.comp_def] using congrArg (List.map Sized.handsBack) hss
      rw [hmeasure, hmeasure', Sized.within, Sized.within, Sized.withinList_eq_map,
        Sized.withinList_eq_map, Sized.map_within_placed, Sized.map_within_placed, hss, hp]

end Measured

namespace Engine

/-- The nodes that are entered have the boxes of their steps afterwards. -/
theorem map_box?_of_fill {t t' : BoxTable α} {steps : List (Step α)} (h : t.fill steps = .ok t') :
    (steps.filterMap entered?).map t'.box? = (steps.filterMap Step.box?).map some := by
  have hboxes := BoxTable.boxes_of_fill h
  clear h
  induction steps with
  | nil => rfl
  | cons st steps ih =>
      rw [List.forall_mem_cons] at hboxes
      obtain ⟨⟨n, c, above, b, k, box, rfl, hbox⟩, hboxes⟩ := hboxes
      rw [BoxTable.entered_cons, List.map_cons, hbox, ih hboxes]
      rfl

theorem base_of_fill {t t' : BoxTable α} {steps : List (Step α)} (h : t.fill steps = .ok t') :
    t'.base = t.base := by
  induction steps generalizing t with
  | nil =>
      cases h
      rfl
  | cons st steps ih =>
      obtain ⟨n, c, above, b, k, box, t₁, rfl, hassign, hfill⟩ := BoxTable.fill_cons h
      obtain ⟨s, -, -, rfl⟩ := BoxTable.assign_eq_ok hassign
      rw [ih hfill]

variable {e d : Engine α}

variable [Scalar α] {n : Node} {above b : Bool}

theorem conditions_of_steps {c : Context α} {k j : Nat}
    (h : ∀ st ∈ (measure n c k above).steps j, st.visit? ≠ none) :
    n.isComplete = true ∧ k + n.height ≤ Metrics.maxDepth :=
  (none_notMem_itinerary_iff ..).mp (none_notMem_of_steps h)

/-- A computation that finds nothing wrong enters every node once, and the boxes of the steps stand in
the table. -/
theorem boxes_of_compute (h : e.compute n above = (.ok b, d)) :
    ((measure n e.context e.nesting above).steps e.nesting).filterMap entered? = n.preorder ∧
      n.preorder.map d.table.box? =
        (((measure n e.context e.nesting above).steps e.nesting).filterMap Step.box?).map some := by
  obtain ⟨t, hfill, rfl, -⟩ := compute_eq_ok h
  have hentered : ((measure n e.context e.nesting above).steps e.nesting).filterMap entered? =
      n.preorder :=
    entered_of_complete (none_notMem_of_steps (visit?_of_fill hfill)) e.nesting
  refine ⟨hentered, ?_⟩
  rw [← hentered, map_box?_of_fill hfill]

end Engine

variable [Scalar α]

/-- Two engines that find nothing wrong with trees of the same structure, which they enter with the same
flow and the same flag, hand back the same flag and write the same boxes.  They touch no box of another
node, and nothing else that they keep. -/
theorem compute_compositional {n n' : Node} {above b b' : Bool} {e d e' d' : Engine α}
    (hn : n.unnumbered = n'.unnumbered) (hflow : e.context.flow = e'.context.flow)
    (h : e.compute n above = (.ok b, d)) (h' : e'.compute n' above = (.ok b', d')) :
    b = b' ∧
      (∃ boxes : List (Box α), n.walk.map d.table.box? = boxes.map some ∧
        n'.walk.map d'.table.box? = boxes.map some) ∧
      (∀ m, (∀ l ∈ n.walk, l.id ≠ m.id) → d.table.box? m = e.table.box? m) ∧
      d.context = e.context ∧ d.nesting = e.nesting ∧ d.table.base = e.table.base := by
  obtain ⟨hentered, hboxes⟩ := Engine.boxes_of_compute h
  obtain ⟨-, hboxes'⟩ := Engine.boxes_of_compute h'
  obtain ⟨t, hfill, rfl, rfl⟩ := Engine.compute_eq_ok h
  obtain ⟨t', hfill', rfl, rfl⟩ := Engine.compute_eq_ok h'
  have hnodup := BoxTable.nodup_of_fill hfill
  rw [hentered] at hnodup
  -- The ids do not matter, so both engines may as well measure the first tree.
  obtain ⟨r, rfl⟩ := Node.exists_renumber hn hnodup
  rw [measure_renumber] at hfill' hboxes' ⊢
  rw [Sized.boxes_renumber] at hboxes'
  obtain ⟨hcomplete, hk⟩ := Engine.conditions_of_steps (Engine.visit?_of_fill hfill)
  have hsteps : ∀ st ∈ (measure n e'.context e'.nesting above).steps e'.nesting,
      st.visit? ≠ none := by
    rw [Sized.steps_renumber] at hfill'
    intro st hst hgap
    refine Engine.visit?_of_fill hfill' _ (List.mem_map_of_mem hst) ?_
    cases st with
    | enter => cases hgap
    | gap => rfl
  have hwithin := within_measure e.context hcomplete hflow hk (Engine.conditions_of_steps hsteps).2
    above
  rw [Node.walk_eq_preorder, Node.walk_eq_preorder]
  refine ⟨?_, ⟨_, hboxes, ?_⟩, ?_, rfl, rfl, Engine.base_of_fill hfill⟩
  · rw [Sized.handsBack_renumber, ← Sized.handsBack_within e.context, hwithin,
      Sized.handsBack_within]
  · rw [hboxes', ← Sized.boxes_within e.context _ _ 0, ← hwithin, Sized.boxes_within]
  · intro m hm
    exact BoxTable.box?_of_fill hfill m (hentered ▸ hm)

/-- A sequence in brackets, its nodes numbered from some id on. -/
def bracketed (first : Nat) : Node :=
  .optional (first + 3) (some
    (.sequence (first + 2) [.identifier first "a", .literal (first + 1) "b" .quoted]))

/-- An engine that has entered nothing yet, in leftwards flow with a rail on its right. -/
def freshEngine : Engine Rat :=
  ⟨(Context.new .left).withRails false true, .forTree (bracketed 0), 0⟩

/-- An engine in the middle of a tree, in the same flow. -/
def busyEngine : Engine Rat :=
  ⟨⟨⟨.left, false, true, 3, 40, -7, 90⟩, [⟨.right, true, false, 0, 1, 2, 3⟩]⟩,
    ⟨5, #[some Metrics.newBox, none, none, none, none, none]⟩, 12⟩

theorem compute_compositional_bracketed : ∃ d d' : Engine Rat,
    (bracketed 0).unnumbered = (bracketed 6).unnumbered ∧
      freshEngine.context.flow = busyEngine.context.flow ∧
      freshEngine.compute (bracketed 0) true = (.ok false, d) ∧
      busyEngine.compute (bracketed 6) true = (.ok false, d') ∧
      (∃ boxes : List (Box Rat), (bracketed 0).walk.map d.table.box? = boxes.map some ∧
        (bracketed 6).walk.map d'.table.box? = boxes.map some) ∧
      (∀ m, (∀ l ∈ (bracketed 0).walk, l.id ≠ m.id) →
        d.table.box? m = freshEngine.table.box? m) ∧
      d.context = freshEngine.context ∧ d.nesting = freshEngine.nesting ∧
      d.table.base = freshEngine.table.base := by
  have hn : (bracketed 0).unnumbered = (bracketed 6).unnumbered := rfl
  have hflow : freshEngine.context.flow = busyEngine.context.flow := rfl
  have h : freshEngine.compute (bracketed 0) true =
      (.ok false, (freshEngine.compute (bracketed 0) true).2) :=
    Prod.ext (by decide +kernel) rfl
  have h' : busyEngine.compute (bracketed 6) true =
      (.ok false, (busyEngine.compute (bracketed 6) true).2) :=
    Prod.ext (by decide +kernel) rfl
  exact ⟨_, _, hn, hflow, h, h', (compute_compositional hn hflow h h').2⟩

end Railroad
