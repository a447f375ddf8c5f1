import Railroad.Proofs.Layout.Success
/-!
Where the nodes of a tree stand once it is laid out.  The table then holds the box of the root, and below
every node that stands in the table the children stand where the node has placed them.
-/
namespace Railroad

variable {α : Type}

/-- The table holds all boxes of a measured tree, and the tree has no gap. -/
def Sized.KeptBy (t : BoxTable α) (k : Nat) (s : Sized α) : Prop :=
  ∀ st ∈ s.steps k, ∃ n c above b j box,
    st = .enter n c above b j box ∧ t.box? n = some box

section Kept

variable {t : BoxTable α} {k : Nat}

theorem Sized.keptBy_part_iff {n : Node} {c : Context α} {above b : Bool} {box : Box α}
    {parts : List (Sized α)} : (part n c above b box parts).KeptBy t k ↔
      t.box? n = some box ∧ ∀ s ∈ parts, s.KeptBy t (k + 1) := by
  simp only [KeptBy, steps, List.forall_mem_cons, stepsList_eq_flatMap, List.mem_flatMap]
  refine and_congr ?_ ⟨fun h s hs st hst => h st ⟨s, hs, hst⟩, ?_⟩
  · constructor
    · rintro ⟨n', c', above', b', j, box', hst, hbox⟩
      cases hst
      exact hbox
    · intro hbox
      exact ⟨n, c, above, b, k, box, rfl, hbox⟩
  · rintro h st ⟨s, hs, hst⟩
    exact h s hs st hst

theorem Sized.not_keptBy_gap {fault : LayoutFault} {c : Context α} :
    ¬ (gap fault c).KeptBy t k := by
  intro h
  obtain ⟨n, c', above, b, j, box, hst, -⟩ := h _ (by rw [steps]; exact List.mem_cons_self)
  cases hst

/-- If placed trees are kept, then each of them is kept at its own place. -/
theorem Sized.forall₂_of_placed {ss : List (Sized α)} {boxes : List (Box α)}
    (hlength : boxes.length = ss.length) (h : ∀ s ∈ placed ss boxes, s.KeptBy t k) :
    List.Forall₂ (fun s b => (s.withBox b).KeptBy t k) ss boxes := by
  induction ss generalizing boxes with
  | nil =>
      rw [List.length_eq_zero_iff.mp hlength]
      exact .nil
  | cons s ss ih =>
      cases boxes with
      | nil => cases hlength
      | cons box boxes =>
          rw [placed, List.zipWith_cons_cons, List.forall_mem_cons] at h
          exact .cons h.1 (ih (Nat.succ.inj hlength) h.2)

end Kept

variable [Scalar α]

/-- A node that has been visited and measured and stands in a box of the table, with all that is below
it. -/
structure Visit.Stands (t : BoxTable α) (k : Nat) (v : Visit) (s : Sized α) (box : Box α) :
    Prop where
  measures : v.Measures k s
  kept : (s.withBox box).KeptBy t k

/-- What is known of a node that stands in a table: how it has placed its children, and that they stand
there. -/
structure Visit.Holds (t : BoxTable α) (k : Nat) (v : Visit) (s : Sized α) (box : Box α)
    (ss : List (Sized α)) (p : Placement α) : Prop where
  box? : t.box? v.node = some box
  size : s.box = p.box
  flag : s.handsBack = (v.node.isAlternation && v.above)
  arranges : Arranges v.node v.flow v.above ss p
  measures : List.Forall₂ (Visit.Measures (k + 1)) (v.flow.onward .right v.node) ss
  parts : List.Forall₂ (fun v x => v.Stands t (k + 1) x.1 x.2) (v.flow.onward .right v.node)
    (ss.zip p.parts)

variable {t : BoxTable α} {k : Nat} {v : Visit} {s : Sized α} {box : Box α}

/-- Visits that are measured and then kept at some places stand there. -/
theorem forall₂_stands {vs : List Visit} {ss : List (Sized α)} {boxes : List (Box α)}
    (hvisits : List.Forall₂ (Visit.Measures k) vs ss)
    (hkept : List.Forall₂ (fun s b => (s.withBox b).KeptBy t k) ss boxes) :
    List.Forall₂ (fun v x => v.Stands t k x.1 x.2) vs (ss.zip boxes) := by
  induction hvisits generalizing boxes with
  | nil => exact .nil
  | cons hv _ ih =>
      cases hkept with
      | cons hs hss => exact .cons ⟨hv, hs⟩ (ih hss)

/-- A complete node that stands in a table has placed its children, and they stand in it too. -/
theorem Visit.Stands.holds (hcomplete : v.node.isComplete = true) (h : v.Stands t k s box) :
    ∃ ss p, v.Holds t k s box ss p := by
  obtain ⟨⟨c, hflow, rfl⟩, hkept⟩ := h
  obtain ⟨⟨hknown, hparts⟩, -⟩ := (Node.isComplete_iff_children v.node).mp hcomplete
  by_cases hk : k < Metrics.maxDepth
  · obtain ⟨ss, p, hmeasure, harranges, hvisits⟩ := measure_entered hknown hparts hk c v.above
    rw [hmeasure, Sized.withBox, Sized.keptBy_part_iff] at hkept
    rw [hflow] at harranges hvisits
    refine ⟨ss, p, hkept.1, by rw [hmeasure, Sized.box], by rw [hmeasure, Sized.handsBack],
      harranges, hvisits, ?_⟩
    exact forall₂_stands hvisits (Sized.forall₂_of_placed harranges.length_eq hkept.2)
  · rw [measure.eq_def, if_neg (by simp [hknown]), if_pos (by omega)] at hkept
    exact absurd hkept Sized.not_keptBy_gap

namespace Visit.Holds

variable {ss : List (Sized α)} {p : Placement α}

theorem map_box? (hcomplete : v.node.isComplete = true) (h : v.Holds t k s box ss p) :
    v.node.children.map t.box? = p.parts.map some := by
  have hchildren := ((Node.isComplete_iff_children v.node).mp hcomplete).2
  have hlength : p.parts.length ≤ ss.length := Nat.le_of_eq h.arranges.length_eq
  have hparts : List.Forall₂ (fun v x => t.box? v.node = some x.2) (v.flow.onward .right v.node)
      (ss.zip p.parts) := by
    rw [List.forall₂_iff_zip]
    refine ⟨h.parts.length_eq, ?_⟩
    intro v' x hx
    have hnode := Visit.node_mem_children (List.of_mem_zip hx).1
    obtain ⟨ss', p', hholds⟩ := (List.forall₂_zip h.parts hx).holds (hchildren _ hnode)
    exact hholds.box?
  rw [← map_node_onward .right v.flow v.node, ← List.map_snd_zip hlength, List.map_map,
    List.map_map, ← List.forall₂_eq_eq_eq, List.forall₂_map_left_iff, List.forall₂_map_right_iff]
  exact hparts

theorem exists_stands (h : v.Holds t k s box ss p) {m : Node} (hm : m ∈ v.node.children) :
    ∃ v' ∈ v.flow.onward .right v.node, v'.node = m ∧
      ∃ x ∈ ss.zip p.parts, v'.Stands t (k + 1) x.1 x.2 := by
  obtain ⟨v', hv', rfl⟩ := exists_visit_of_child .right v.flow hm
  exact ⟨v', hv', rfl, exists_of_mem_left h.parts hv'⟩

theorem exists_stands_of_mem (h : v.Holds t k s box ss p) {s' : Sized α} (hs : s' ∈ ss) :
    ∃ v' ∈ v.flow.onward .right v.node, ∃ box', v'.Stands t (k + 1) s' box' := by
  rw [← List.map_fst_zip (Nat.le_of_eq h.arranges.length_eq.symm), List.mem_map] at hs
  obtain ⟨x, hx, rfl⟩ := hs
  obtain ⟨v', hv', hstands⟩ := exists_of_mem_right h.parts hx
  exact ⟨v', hv', x.2, hstands⟩

end Visit.Holds

/-- Once a tree is laid out, its root stands in the table, in the box that it has been measured to. -/
theorem stands_of_layout {root : Node} {direction : Direction} {e : Engine α}
    (h : Engine.layout root direction = (.ok t, e)) :
    Visit.Stands t 0 (.to root (.free direction) false)
      (measure root (.new direction) 0 false) (measure root (.new direction) 0 false).box := by
  refine ⟨⟨.new direction, rfl, rfl⟩, ?_⟩
  have hself : ∀ s : Sized α, s.withBox s.box = s := by
    intro s
    cases s <;> rfl
  rw [hself]
  exact BoxTable.boxes_of_fill (Engine.layout_eq_ok h).1

end Railroad
