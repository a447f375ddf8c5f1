import Railroad.Proofs.Layout.Descent
import Railroad.Proofs.Layout.Nesting
/-!
The order in which the items of a sequence stand: within the flow the box of every expression is wide enough
for an arrowhead, and every item stands beyond the ones before it.
-/
namespace Railroad

/-- The box stands to the left of another one. -/
def Box.LeftOf (b e : Box Rat) : Prop :=
  b.br.x ≤ e.tl.x

theorem Box.LeftOf.asymm {b e : Box Rat} (h : b.LeftOf e) (hb : 0 < b.width) (he : 0 < e.width) :
    ¬ e.LeftOf b := by
  rw [width_eq] at hb he
  rw [LeftOf] at h ⊢
  linarith

namespace Placement

variable {b e : Box Rat} {es : List (Box Rat)} {rightwards : Bool}

/-- The first of two boxes comes before the second along a flow. -/
def Precedes (rightwards : Bool) (b e : Box Rat) : Prop :=
  if rightwards then b.LeftOf e else e.LeftOf b

theorem precedes_moveBy_iff (δ : Point Rat) :
    Precedes rightwards (b.moveBy δ) (e.moveBy δ) ↔ Precedes rightwards b e := by
  cases rightwards <;> simp [Precedes, Box.LeftOf]

theorem pairwise_chain (box : Box Rat) (anchor : Point Rat) (hes : ∀ e ∈ es, 0 ≤ e.width) :
    (chain rightwards box anchor es).parts.Pairwise (Precedes rightwards) := by
  induction es generalizing box anchor with
  | nil => exact .nil
  | cons e es ih =>
      rw [List.forall_mem_cons] at hes
      refine List.pairwise_cons.mpr ⟨fun c hc => ?_, ih _ _ hes.2⟩
      have hbeyond := beyond_of_mem_chain hes.2 hc
      cases rightwards with
      | true => exact hbeyond
      | false => exact hbeyond

/-- The items of a sequence stand along the flow in the order in which they are listed. -/
theorem pairwise_sequence (hes : ∀ e ∈ es, 0 ≤ e.width) :
    (sequence rightwards es).parts.Pairwise (Precedes rightwards) := by
  rw [parts_sequence, normalize, List.pairwise_map]
  exact (pairwise_chain _ _ hes).imp (precedes_moveBy_iff _).mpr

theorem le_width_leaf {direction : Direction} (hdirection : direction ≠ .none) (letters : Nat) :
    30 ≤ (leaf direction letters : Box Rat).width := by
  have hletters : (0 : Rat) ≤ Scalar.ofInt letters := Rat.natCast_nonneg
  have hratio : (Scalar.textRatio : Rat) = 7 / 20 := rfl
  have hwidth : 10 ≤ ((Scalar.ofInt letters : Rat) + 2) * 32 * (7 / 20) := by linarith
  simp only [leaf, if_neg hdirection]
  split <;> simp [Box.width_eq, Box.setHeight, Box.setWidth, hratio] <;> right <;> linarith

end Placement

section Widths

variable {n : Node} {f : Flow} {above : Bool} {ss : List (Sized Rat)} {p : Placement Rat}

/-- The flow through an expression goes on to its parts. -/
theorem direction_ne_none_of_mem_onward {names : Direction} {v : Visit} (hn : n.IsExpression)
    (hdirection : f.direction ≠ .none) (hv : v ∈ f.onward names n) : v.flow.direction ≠ .none := by
  have hback : f.direction.reversed ≠ .none := by
    cases hd : f.direction <;> simp_all [Direction.reversed]
  have hitems : ∀ {first : Bool} {ns : List Node}, v ∈ f.items first ns → v.flow.direction ≠ .none := by
    intro first ns hv
    induction ns generalizing first with
    | nil => cases hv
    | cons n ns ih =>
        rcases List.mem_cons.mp hv with rfl | hv
        · exact hdirection
        · exact ih hv
  cases hn with
  | literal | identifier => cases hv
  | alternation =>
      obtain ⟨m, -, rfl⟩ := List.mem_map.mp hv
      rw [Row.ofAlternatives]
      split
      · exact nofun
      · exact hdirection
  | sequence => exact hitems hv
  | repetition =>
      obtain ⟨m, -, rfl⟩ := List.mem_map.mp hv
      exact hback
  | optional | loop =>
      obtain rfl := List.mem_singleton.mp hv
      exact hdirection
  | separatedLoop =>
      rcases List.mem_cons.mp hv with rfl | hv
      · exact hdirection
      · obtain rfl := List.mem_singleton.mp hv
        exact hback

theorem Arranges.le_width (h : Arranges n f above ss p) (hn : n.IsExpression)
    (hdirection : f.direction ≠ .none) (hlength : ss.length = n.children.length)
    (hss : ∀ s ∈ ss, s.box.Homed ∧ 30 ≤ s.box.width) : 30 ≤ p.box.width := by
  cases ss with
  | nil =>
      cases hn with
      | literal | identifier =>
          cases h with
          | leaf => exact Placement.le_width_leaf hdirection _
      | alternation _ hmany | sequence _ hmany =>
          exact absurd hlength.symm (by simp only [Node.children, List.length_nil]; omega)
      | repetition | optional | loop | separatedLoop => cases hlength
  | cons s ss =>
      -- The box is as wide as the first part, which lies inside it.
      obtain ⟨hhomed, hsizes, hinside, -⟩ := h.sound fun s hs => (hss s hs).1
      obtain ⟨b, hb, hwidth, -⟩ := exists_of_mem_left hsizes (List.mem_map_of_mem List.mem_cons_self)
      have hpos := (hss s List.mem_cons_self).2
      have hleft := (hinside b hb).left
      have hright := (hinside b hb).right
      rw [hwidth, Box.width_eq] at hpos
      rw [Box.width_eq]
      linarith

variable {t : BoxTable Rat} {k : Nat} {v : Visit} {s : Sized Rat} {b : Box Rat}

/-- An expression within the flow has a box that is wide enough for an arrowhead. -/
theorem Visit.Stands.le_width (hn : v.node.IsExpression) (hdirection : v.flow.direction ≠ .none)
    (h : v.Stands t k s b) : 30 ≤ s.box.width := by
  generalize hnode : v.node = n at hn
  induction n using Node.descend generalizing v k s b with
  | _ n ih =>
      subst hnode
      have hcomplete := hn.isComplete
      obtain ⟨ss, p, hholds⟩ := h.holds hcomplete
      rw [hholds.size]
      refine hholds.arranges.le_width hn hdirection ?_ fun s' hs' => ⟨hholds.homed hcomplete s' hs', ?_⟩
      · rw [← map_node_onward .right v.flow, List.length_map, hholds.measures.length_eq]
      · obtain ⟨v', hv', b', hstands⟩ := hholds.exists_stands_of_mem hs'
        have hm := Visit.node_mem_children hv'
        exact ih v'.node hm (direction_ne_none_of_mem_onward hn hdirection hv') hstands rfl
          (hn.of_mem_children hm)

/-- The parts of an expression within the flow have boxes of such a width. -/
theorem Visit.Holds.le_width {ss : List (Sized Rat)} {p : Placement Rat} (hn : v.node.IsExpression)
    (hdirection : v.flow.direction ≠ .none) (h : v.Holds t k s b ss p) :
    ∀ e ∈ p.parts, 30 ≤ e.width := by
  have hsizes := (h.arranges.sound (h.homed hn.isComplete)).sizes
  intro e he
  obtain ⟨c, hc, hwidth, -⟩ := exists_of_mem_right hsizes he
  obtain ⟨s', hs', rfl⟩ := List.mem_map.mp hc
  obtain ⟨v', hv', b', hstands⟩ := h.exists_stands_of_mem hs'
  rw [← hwidth]
  exact hstands.le_width (hn.of_mem_children (Visit.node_mem_children hv'))
    (direction_ne_none_of_mem_onward hn hdirection hv')

end Widths

/-- The box of a node stands to the left of that of another one. -/
def BoxTable.LeftOf (t : BoxTable Rat) (m n : Node) : Prop :=
  ∃ b e, t.box? m = some b ∧ t.box? n = some e ∧ b.LeftOf e

section Sequences

variable {t : BoxTable Rat} {k : Nat} {v : Visit} {s : Sized Rat} {b : Box Rat} {id : Nat}
  {items : List Node}

/-- The items of a sequence that stands in a table follow one another along the flow. -/
theorem Visit.Stands.pairwise_items (hn : v.node.IsExpression) (hnode : v.node = .sequence id items)
    (h : v.Stands t k s b) : items.Pairwise fun m m' =>
      if v.flow.direction = .right then t.LeftOf m m' else t.LeftOf m' m := by
  have hcomplete := hn.isComplete
  obtain ⟨ss, p, hholds⟩ := h.holds hcomplete
  have hmap := hholds.map_box? hcomplete
  have hhomed := hholds.homed hcomplete
  obtain ⟨-, -, -, harranges, -, -⟩ := hholds
  rw [hnode] at hmap harranges
  have hpairs : (p.parts.map some).Pairwise fun o o' => ∃ b e, o = some b ∧ o' = some e ∧
      Placement.Precedes (v.flow.direction = .right) b e := by
    obtain rfl := harranges.eq_of_sequence
    rw [List.pairwise_map]
    refine (Placement.pairwise_sequence ?_).imp fun hbe => ⟨_, _, rfl, rfl, hbe⟩
    rw [List.forall_mem_map]
    exact fun s' hs' => (hhomed s' hs').width_nonneg
  rw [← hmap, List.pairwise_map] at hpairs
  refine hpairs.imp ?_
  rintro m m' ⟨b, e, hb, he, hprecedes⟩
  by_cases hright : v.flow.direction = .right
  · rw [if_pos hright]
    exact ⟨b, e, hb, he, by simpa [Placement.Precedes, hright] using hprecedes⟩
  · rw [if_neg hright]
    exact ⟨e, b, he, hb, by simpa [Placement.Precedes, hright] using hprecedes⟩

/-- No two items of a sequence stand to the left of each other. -/
theorem Visit.Stands.leftOf_asymm (hn : v.node.IsExpression)
    (hdirection : v.flow.direction ≠ .none) (h : v.Stands t k s b) {m m' : Node}
    (hm : m ∈ v.node.children) (hm' : m' ∈ v.node.children) (hleft : t.LeftOf m m') :
    ¬ t.LeftOf m' m := by
  obtain ⟨ss, p, hholds⟩ := h.holds hn.isComplete
  have hmap := hholds.map_box? hn.isComplete
  have hpos : ∀ {n : Node} {e : Box Rat}, n ∈ v.node.children → t.box? n = some e → 0 < e.width := by
    intro n e hchild he
    have hbox : t.box? n ∈ p.parts.map some := hmap ▸ List.mem_map_of_mem hchild
    obtain ⟨c, hc, hbox⟩ := List.mem_map.mp hbox
    cases hbox.trans he
    exact lt_of_lt_of_le (by norm_num) (hholds.le_width hn hdirection _ hc)
  obtain ⟨b, e, hb, he, hbe⟩ := hleft
  rintro ⟨e', b', he', hb', heb⟩
  cases hb.symm.trans hb'
  cases he.symm.trans he'
  exact hbe.asymm (hpos hm hb) (hpos hm' he) heb

end Sequences

end Railroad
