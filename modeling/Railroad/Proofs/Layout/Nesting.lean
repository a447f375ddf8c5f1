import Railroad.Proofs.Layout.Spread
import Railroad.Proofs.Layout.Standing
/-!
The boxes of a tree that is laid out: each lies inside the box of the node above it, and those of nodes of
which neither is above the other do not overlap.
-/
namespace Railroad

section Measured

/-- The parts of a node lie in its box and apart from each other. -/
theorem Arranges.sound {n : Node} {f : Flow} {above : Bool} {ss : List (Sized Rat)}
    {p : Placement Rat} (h : Arranges n f above ss p) (hss : ∀ s ∈ ss, s.box.Homed) :
    p.Sound (ss.map Sized.box) := by
  cases h with
  | @grammar _ title comment _ _ _ heading closing rules hheading hclosing =>
      rw [List.map_append, List.map_cons, map_box_eq_toList hheading, map_box_eq_toList hclosing]
      apply Placement.sound_headed
      · intro b hb
        obtain ⟨s, hs, rfl⟩ := Option.map_eq_some_iff.mp hb
        exact hss s (List.mem_append_left _ (List.mem_of_mem_head? hs))
      · exact hss rules (by simp)
  | productionList => exact Placement.sound_rules _
  | production => exact Placement.sound_production _ _
  | fan => exact Placement.sound_fan _
  | stack => exact Placement.sound_stack _
  | sequence =>
      refine Placement.sound_sequence ?_
      rw [List.forall_mem_map]
      exact fun s hs => (hss s hs).width_nonneg
  | repetition => exact Placement.sound_repetition _
  | loop => exact Placement.sound_loop _
  | separatedLoop => exact Placement.sound_separatedLoop _ _
  | optional => exact Placement.sound_optional _
  | leaf => exact Placement.sound_leaf _

/-- A complete tree is measured at home. -/
theorem homed_measure {n : Node} (hcomplete : n.isComplete = true) (c : Context Rat) (k : Nat)
    (above : Bool) : (measure n c k above).box.Homed := by
  induction n using Node.descend generalizing c k above with
  | _ n ih =>
      obtain ⟨⟨hknown, hparts⟩, hchildren⟩ := (Node.isComplete_iff_children n).mp hcomplete
      by_cases hk : k < Metrics.maxDepth
      · obtain ⟨ss, p, hmeasure, harranges, hvisits⟩ := measure_entered hknown hparts hk c above
        rw [hmeasure]
        refine (harranges.sound ?_).homed
        intro s hs
        obtain ⟨m, hm, c', above', rfl⟩ := exists_child_of_mem hvisits hs
        exact ih m hm (hchildren m hm) c' (k + 1) above'
      · rw [measure.eq_def, if_neg (by simp [hknown]), if_pos (by omega)]
        exact Placement.homed_newBox

theorem Visit.Holds.homed {t : BoxTable Rat} {k : Nat} {v : Visit} {s : Sized Rat} {b : Box Rat}
    {ss : List (Sized Rat)} {p : Placement Rat} (hcomplete : v.node.isComplete = true)
    (h : v.Holds t k s b ss p) : ∀ s' ∈ ss, s'.box.Homed := by
  intro s' hs'
  obtain ⟨m, hm, c, above, rfl⟩ := exists_child_of_mem h.measures hs'
  exact homed_measure (((Node.isComplete_iff_children v.node).mp hcomplete).2 m hm) c (k + 1) above

end Measured

/-- The box of a node, and those of its children, told from its own top-left corner: they lie inside it
and do not overlap. -/
structure BoxTable.Nests (t : BoxTable Rat) (n : Node) (b : Box Rat) : Prop where
  box : t.box? n = some b
  width : 0 ≤ b.width
  height : 0 ≤ b.height
  inside : ∀ m ∈ n.children, ∃ c, t.box? m = some c ∧
    (0 ≤ c.tl.x ∧ 0 ≤ c.tl.y) ∧ c.br.x ≤ b.width ∧ c.br.y ≤ b.height
  apart : n.children.Pairwise fun m m' => ∀ c c', t.box? m = some c → t.box? m' = some c' → c.Apart c'

/-- Where a node below another one lies, told from a point that the box of the upper one is measured
from: every node's box is told from the top-left corner of the one above. -/
inductive BoxTable.Lies (t : BoxTable Rat) : Point Rat → Node → Node → Box Rat → Prop
  | here (origin : Point Rat) (n : Node) {b : Box Rat} (hbox : t.box? n = some b) :
      Lies t origin n n (b.moveBy origin)
  | under {origin : Point Rat} {n m l : Node} {b a : Box Rat} (hbox : t.box? n = some b)
      (hchild : m ∈ n.children) (h : Lies t (b.tl.translate origin) m l a) : Lies t origin n l a

section Standing

variable {t : BoxTable Rat}

/-- Below a node that stands in a table the boxes nest, and its children stand there too. -/
theorem Visit.Stands.nests {v : Visit} {s : Sized Rat} {k : Nat} {b : Box Rat}
    (hcomplete : v.node.isComplete = true) (h : v.Stands t k s b) (hsize : s.box.SameSize b) :
    t.Nests v.node b ∧ ∀ m ∈ v.node.children, ∃ (v' : Visit) (s' : Sized Rat) (b' : Box Rat),
      v'.node = m ∧ v'.Stands t (k + 1) s' b' ∧ s'.box.SameSize b' := by
  obtain ⟨ss, p, hholds⟩ := h.holds hcomplete
  have hmap := hholds.map_box? hcomplete
  obtain ⟨hhomed, hsizes, hinside, hapart⟩ := hholds.arranges.sound (hholds.homed hcomplete)
  -- the box of the node is its measured box elsewhere
  obtain ⟨hwidth, hheight⟩ := hsize
  rw [hholds.size, Box.width_eq, hhomed.x, sub_zero] at hwidth
  rw [hholds.size, Box.height_eq, hhomed.y, sub_zero] at hheight
  refine ⟨⟨hholds.box?, hwidth ▸ hhomed.width, hheight ▸ hhomed.height, ?_, ?_⟩, ?_⟩
  · intro m hm
    have hbox : t.box? m ∈ p.parts.map some := hmap ▸ List.mem_map_of_mem hm
    obtain ⟨c, hc, hbox⟩ := List.mem_map.mp hbox
    obtain ⟨hl, ht, hr, hb⟩ := hinside c hc
    rw [hhomed.x] at hl
    rw [hhomed.y] at ht
    exact ⟨c, hbox.symm, ⟨hl, ht⟩, hwidth ▸ hr, hheight ▸ hb⟩
  · have hpairs : (p.parts.map some).Pairwise fun o o' =>
        ∀ c c', o = some c → o' = some c' → Box.Apart c c' := by
      rw [List.pairwise_map]
      refine hapart.imp ?_
      rintro b b' hb c c' ⟨⟩ ⟨⟩
      exact hb
    rwa [← hmap, List.pairwise_map] at hpairs
  · intro m hm
    obtain ⟨v', -, hnode, x, hx, hstands⟩ := hholds.exists_stands hm
    refine ⟨v', x.1, x.2, hnode, hstands, ?_⟩
    rw [List.forall₂_map_left_iff] at hsizes
    exact List.forall₂_zip hsizes hx

theorem Visit.Stands.nests_all {n : Node} (hcomplete : n.isComplete = true) {v : Visit}
    (hnode : v.node = n) {s : Sized Rat} {k : Nat} {b : Box Rat} (h : v.Stands t k s b)
    (hsize : s.box.SameSize b) : ∀ m ∈ n.preorder, ∃ c, t.Nests m c := by
  induction n using Node.descend generalizing v s k b with
  | _ n ih =>
      subst hnode
      obtain ⟨hnests, hchildren⟩ := h.nests hcomplete hsize
      intro m hm
      rcases Node.mem_preorder_iff.mp hm with rfl | ⟨l, hl, hm⟩
      · exact ⟨b, hnests⟩
      · obtain ⟨v', s', b', hnode, hstands, hsize'⟩ := hchildren l hl
        exact ih l hl (((Node.isComplete_iff_children _).mp hcomplete).2 l hl) hnode hstands hsize' m hm

end Standing

section Absolute

variable {t : BoxTable Rat} {origin : Point Rat} {n m l : Node} {a b c : Box Rat}

theorem BoxTable.Nests.moveBy (h : t.Nests n b) (hm : m ∈ n.children) (hc : t.box? m = some c)
    (origin : Point Rat) : (c.moveBy (b.tl.translate origin)).Inside (b.moveBy origin) := by
  obtain ⟨c', hc', ⟨hl, ht⟩, hr, hb⟩ := h.inside m hm
  obtain rfl : c' = c := Option.some.inj (hc'.symm.trans hc)
  rw [Box.width_eq] at hr
  rw [Box.height_eq] at hb
  constructor <;> simp <;> linarith

namespace BoxTable.Lies

theorem mem_preorder (h : t.Lies origin n l a) : l ∈ n.preorder := by
  induction h with
  | here => exact Node.mem_preorder_self _
  | under _ hchild _ ih => exact Node.mem_preorder_iff.mpr (.inr ⟨_, hchild, ih⟩)

theorem inside (h : t.Lies origin n l a) (hnests : ∀ m ∈ n.preorder, ∃ c, t.Nests m c)
    (hb : t.box? n = some b) : a.Inside (b.moveBy origin) := by
  induction h generalizing b with
  | here origin n hbox =>
      cases hbox.symm.trans hb
      exact .refl _
  | @under origin n m l b' a hbox hchild h ih =>
      cases hbox.symm.trans hb
      have hsub := (Node.preorder_sublist hchild).subset
      obtain ⟨c, hc⟩ := hnests m (hsub m.mem_preorder_self)
      obtain ⟨b', hn⟩ := hnests n n.mem_preorder_self
      cases hn.box.symm.trans hb
      exact (ih (fun m hm => hnests m (hsub hm)) hc.box).trans (hn.moveBy hchild hc.box origin)

theorem apart {l' : Node} {a' : Box Rat} (h : t.Lies origin n l a) (h' : t.Lies origin n l' a')
    (hnests : ∀ m ∈ n.preorder, ∃ c, t.Nests m c) (hl : l ∉ l'.preorder) (hl' : l' ∉ l.preorder) :
    a.Apart a' := by
  induction h with
  | here => exact absurd h'.mem_preorder hl'
  | @under origin n m l b a hbox hchild h ih =>
      cases h' with
      | here => exact absurd (Lies.under hbox hchild h).mem_preorder hl
      | @under _ _ m' _ b' _ hbox' hchild' h' =>
          cases hbox.symm.trans hbox'
          have hsub : ∀ m ∈ n.children, ∀ l ∈ m.preorder, ∃ c, t.Nests l c :=
            fun m hm l hl => hnests l ((Node.preorder_sublist hm).subset hl)
          by_cases hm : m = m'
          · subst hm
            exact ih h' (hsub m hchild) hl hl'
          · obtain ⟨c, hc⟩ := hsub m hchild m m.mem_preorder_self
            obtain ⟨c', hc'⟩ := hsub m' hchild' m' m'.mem_preorder_self
            obtain ⟨_, hn⟩ := hnests n n.mem_preorder_self
            have : Std.Symm fun m m' => ∀ c c', t.box? m = some c → t.box? m' = some c' →
                Box.Apart c c' := ⟨fun _ _ h c c' hc hc' => (h c' c hc' hc).symm⟩
            have hapart := hn.apart.forall hchild hchild' hm c c' hc.box hc'.box
            exact ((Box.apart_moveBy_iff _).mpr hapart).inside
              (h.inside (hsub m hchild) hc.box) (h'.inside (hsub m' hchild') hc'.box)

/-- In a tree without shared nodes there is one place for each node. -/
theorem unique {a' : Box Rat} (h : t.Lies origin n l a) (h' : t.Lies origin n l a')
    (hnodup : n.preorder.Nodup) : a = a' := by
  induction h with
  | here origin n hbox =>
      cases h' with
      | here _ _ hbox' => rw [Option.some.inj (hbox.symm.trans hbox')]
      | under _ hchild h => exact absurd h.mem_preorder (Node.notMem_preorder_of_child hnodup hchild)
  | @under origin n m l b a hbox hchild h ih =>
      cases h' with
      | here => exact absurd h.mem_preorder (Node.notMem_preorder_of_child hnodup hchild)
      | under hbox' hchild' h' =>
          cases hbox.symm.trans hbox'
          obtain rfl := Node.eq_of_mem_preorder hnodup hchild hchild' h.mem_preorder h'.mem_preorder
          exact ih h' (hnodup.sublist (Node.preorder_sublist hchild))

end BoxTable.Lies

theorem exists_lies (hnests : ∀ m ∈ n.preorder, ∃ c, t.Nests m c) (hl : l ∈ n.preorder)
    (origin : Point Rat) : ∃ a, t.Lies origin n l a := by
  induction n using Node.descend generalizing origin with
  | _ n ih =>
      obtain ⟨b, hb⟩ := hnests n n.mem_preorder_self
      rcases Node.mem_preorder_iff.mp hl with rfl | ⟨m, hm, hl⟩
      · exact ⟨_, .here origin _ hb.box⟩
      · obtain ⟨a, ha⟩ := ih m hm (fun k hk => hnests k ((Node.preorder_sublist hm).subset hk)) hl
          (b.tl.translate origin)
        exact ⟨a, .under hb.box hm ha⟩

end Absolute

/-- In the exact table of a tree that is laid out no box has a negative side, and the boxes of children
lie inside the box of the node above them without overlapping.  So, seen from the root, every node has
one place, which is inside the box of the root, and nodes of which neither is above the other do not
overlap. -/
theorem boxes_nest {root : Node} {direction : Direction} {table : BoxTable Rat} {e : Engine Rat}
    (h : Engine.layout root direction = (.ok table, e)) :
    (∀ n ∈ root.walk, ∃ b, table.Nests n b) ∧
    (∀ n ∈ root.walk, ∃! a, table.Lies .zero root n a) ∧
    (∀ b, table.box? root = some b → ∀ n a, table.Lies .zero root n a → a.Inside b) ∧
    ∀ n m a b, table.Lies .zero root n a → table.Lies .zero root m b →
      n ∉ m.walk → m ∉ n.walk → a.Apart b := by
  obtain ⟨hcomplete, hnodup, -⟩ := Engine.conditions_of_layout h
  have hnests := (stands_of_layout h).nests_all hcomplete rfl ⟨rfl, rfl⟩
  simp only [Node.walk_eq_preorder]
  refine ⟨hnests, ?_, ?_, ?_⟩
  · intro n hn
    obtain ⟨a, ha⟩ := exists_lies hnests hn .zero
    exact ⟨a, ha, fun a' ha' => ha'.unique ha (.of_map _ hnodup)⟩
  · intro b hb n a ha
    have hstay : b.moveBy .zero = b := by ext <;> simp
    exact hstay ▸ ha.inside hnests hb
  · intro n m a b ha hb hn hm
    exact ha.apart hb hnests hn hm

/-- A letter, or a way past another letter. -/
def letterOrSkip : Node :=
  .alternation 3 [.literal 0 "a" .quoted, .optional 2 (some (.literal 1 "b" .quoted))]

theorem boxes_nest_letterOrSkip :
    ∃ (table : BoxTable Rat) (e : Engine Rat),
      Engine.layout letterOrSkip .right = (.ok table, e) ∧
      (∀ n ∈ letterOrSkip.walk, ∃ b, table.Nests n b) ∧
      (∀ n ∈ letterOrSkip.walk, ∃! a, table.Lies .zero letterOrSkip n a) ∧
      (∀ b, table.box? letterOrSkip = some b →
        ∀ n a, table.Lies .zero letterOrSkip n a → a.Inside b) ∧
      ∀ n m a b, table.Lies .zero letterOrSkip n a → table.Lies .zero letterOrSkip m b →
        n ∉ m.walk → m ∉ n.walk → a.Apart b := by
  have hcomplete : letterOrSkip.isComplete = true := by decide
  obtain ⟨table, e, hlayout⟩ := Engine.layout_of_complete (α := Rat) hcomplete
    (by decide) (by decide) .right
  exact ⟨table, e, hlayout, boxes_nest hlayout⟩

end Railroad
