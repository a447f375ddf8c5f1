import Railroad.Proofs.Drawing.Agreement
import Railroad.Proofs.Drawing.Flawless
import Railroad.Proofs.Drawing.Pen
import Railroad.Proofs.Layout.Clearance
/-!
The connectors of a drawing reach where they lead to: the size pass has kept clear what the render pass
needs.
-/
namespace Railroad

open Metrics

/-- A connector of the usual radius that is supported and fits between its points. -/
def Call.HasRoom : Call Rat → Prop
  | .composite (.connector leaving p q arriving r _) =>
      r = radius ∧ leaving.joins arriving = true ∧ Fits leaving p q arriving r
  | _ => True

@[simp] theorem hasRoom_primitive (p : Primitive Rat) : (Call.primitive p).HasRoom := trivial

@[simp] theorem hasRoom_arrowLeft (p : Point Rat) (length size : Rat) :
    (Call.composite (.arrowLeft p length size)).HasRoom := trivial

@[simp] theorem hasRoom_arrowRight (p : Point Rat) (length size : Rat) :
    (Call.composite (.arrowRight p length size)).HasRoom := trivial

@[simp] theorem hasRoom_arrowDown (p : Point Rat) (length size : Rat) :
    (Call.composite (.arrowDown p length size)).HasRoom := trivial

theorem twice_radius_le {a b : Rat} (h : a + 20 ≤ b ∨ b + 20 ≤ a) : (radius : Rat) * 2 ≤ |b - a| := by
  rw [radius_rat, le_abs]
  rcases h with h | h
  · left
    linarith
  · right
    linarith

namespace Strokes

variable {box body separator name expression first last : Box Rat} {alternatives : List (Box Rat)}
  {direction : Direction} {above : Bool} {s : Surroundings Rat} {p q : Point Rat}

@[simp] theorem hasRoom_connect {leaving arriving : Direction} :
    (connect leaving p q arriving).HasRoom ↔
      leaving.joins arriving = true ∧ Fits leaving p q arriving radius :=
  and_iff_right rfl

@[simp] theorem hasRoom_hline : (hline p q).HasRoom := trivial

@[simp] theorem hasRoom_vline : (vline p q).HasRoom := trivial

@[simp] theorem hasRoom_forwardArrow : (forwardArrow direction box).HasRoom := by
  simp only [forwardArrow]
  split <;> trivial

/-- Three radii below the anchor row leave two between it and the bottom line of a fan. -/
theorem hasRoom_fan (hclear : box.yAnchor + 30 ≤ box.height) (hfirst : 0 ≤ first.tl.y)
    (hlast : 0 ≤ last.tl.y) : ∀ c ∈ fan direction above box first last alternatives, c.HasRoom := by
  have hrows : (10 : Rat) * 2 ≤ |box.yAnchor - (box.br.y + -10 + -box.tl.y)| := by
    rw [Box.height_eq] at hclear
    exact twice_radius_le (.inr (by linarith))
  rw [fan]
  split
  · rw [fanRightwards]
    simp only [List.forall_mem_append]
    constructor
    · cases above
      · simpa [Direction.joins, Fits] using hrows
      · simpa [Direction.joins, Fits] using hlast
    · refine forall_mem_mapIdx fun i b _ => ?_
      split <;> split <;> simp [Direction.joins, Fits]
  · rw [fanLeftwards]
    simp only [List.forall_mem_append]
    constructor
    · cases above
      · simpa [Direction.joins, Fits] using hrows
      · simpa [Direction.joins, Fits] using hfirst
    · refine forall_mem_mapIdx fun i b _ => ?_
      split <;> split <;> simp [Direction.joins, Fits]

theorem hasRoom_stack (hlast : above = false → box.normalize.Hangs last s.useLeft s.useRight) :
    ∀ c ∈ stack s above box first last alternatives, c.HasRoom := by
  unfold stack
  simp only [List.forall_mem_append]
  refine ⟨⟨?_, ?_⟩, ?_⟩
  · cases above with
    | true => simp [Direction.joins, Fits]
    | false =>
        obtain ⟨hrow, hleft, hright⟩ := (hlast rfl).coordinates
        have hdown := twice_radius_le (.inl hrow)
        have hup := twice_radius_le (.inr hrow)
        simp only [radius_rat] at hdown hup
        cases hl : s.useLeft <;> cases hr : s.useRight <;> simp [Direction.joins, Fits]
        · exact ⟨⟨hleft hl, hdown⟩, hright hr, hup⟩
        · exact ⟨hleft hl, hdown⟩
        · exact ⟨hright hr, hup⟩
  · cases above <;> cases s.useLeft <;> cases s.useRight <;> simp [Direction.joins, Fits]
  · intro c hc
    obtain ⟨b, -, hc⟩ := List.mem_flatMap.mp hc
    simp only [List.mem_cons, List.not_mem_nil, or_false] at hc
    rcases hc with rfl | rfl <;> simp [Direction.joins, Fits]

theorem hasRoom_repetition (hbody : above = false → box.normalize.Hangs body true true) :
    ∀ c ∈ repetition direction above box body, c.HasRoom := by
  cases above with
  | true => simp [repetition, Direction.joins, Fits]
  | false =>
      have hrow := (hbody rfl).coordinates.1
      simp [repetition, Direction.joins, Fits]
      exact ⟨twice_radius_le (.inl (by linarith)), twice_radius_le (.inr (by linarith))⟩

theorem hasRoom_loop : ∀ c ∈ loop direction box body, c.HasRoom := by
  have hrise : (10 : Rat) * 2 ≤ |max (10 * 2) (body.yAnchor + 10)| :=
    (le_max_left _ _).trans (le_abs_self _)
  simp only [loop]
  split <;> simp [Direction.joins, Fits, hrise]

theorem hasRoom_separatedLoop (hrows : body.lAnchor.y + 20 ≤ separator.lAnchor.y) :
    ∀ c ∈ separatedLoop box body separator, c.HasRoom := by
  have hdown := twice_radius_le (.inl hrows)
  have hup := twice_radius_le (.inr hrows)
  simpa [separatedLoop, Direction.joins, Fits] using ⟨hdown, hup⟩

theorem hasRoom_optional (hbody : above = false → box.normalize.Hangs body s.useLeft s.useRight) :
    ∀ c ∈ optional s above box body, c.HasRoom := by
  cases above with
  | true => simp [optional, Direction.joins, Fits]
  | false =>
      obtain ⟨hrow, hleft, hright⟩ := (hbody rfl).coordinates
      have hdown : (10 : Rat) * 2 ≤
          |body.tl.y + body.yAnchor + box.tl.y - (box.tl.y + box.yAnchor)| :=
        twice_radius_le (.inl (by linarith))
      have hup : (10 : Rat) * 2 ≤
          |box.tl.y + box.yAnchor - (body.tl.y + body.yAnchor + box.tl.y)| :=
        twice_radius_le (.inr (by linarith))
      cases hl : s.useLeft <;> cases hr : s.useRight <;> simp [optional, Direction.joins, Fits, hl, hr]
      · exact ⟨⟨hleft hl, hdown⟩, hright hr, hup⟩
      · exact ⟨hleft hl, hdown⟩
      · exact ⟨hright hr, hup⟩

theorem hasRoom_production : ∀ c ∈ production name expression, c.HasRoom := by
  simp [production]

theorem hasRoom_leaf {isLinked isPlain : Bool} {style : Style} {text : String} :
    ∀ c ∈ leaf direction isLinked isPlain style box text, c.HasRoom := by
  unfold leaf
  refine List.forall_mem_append.mpr ⟨?_, ?_⟩
  · cases direction <;> simp
  · generalize (if (direction = .none && style != .title) = true then Style.production else style) =
      look
    by_cases htext : (look = .production || look = .title) = true
    · rw [if_pos htext]
      exact List.forall_mem_singleton.mpr trivial
    · rw [if_neg htext]
      by_cases hname : look = .identifier
      · rw [if_pos hname]
        cases isLinked <;> simp
      · rw [if_neg hname]
        cases isPlain <;> simp

end Strokes

/-- All connectors among the calls of some events have room. -/
def HaveRoom (es : List (Event Rat)) : Prop :=
  ∀ c ∈ callsOf es, c.HasRoom

section Events

variable {es es' : List (Event Rat)}

@[simp] theorem haveRoom_nil : HaveRoom [] := by
  simp [HaveRoom, callsOf]

@[simp] theorem haveRoom_append : HaveRoom (es ++ es') ↔ HaveRoom es ∧ HaveRoom es' := by
  rw [HaveRoom, callsOf_append, List.forall_mem_append]
  rfl

@[simp] theorem haveRoom_map_call {cs : List (Call Rat)} :
    HaveRoom (cs.map .call) ↔ ∀ c ∈ cs, c.HasRoom := by
  rw [HaveRoom, callsOf_map_call]

@[simp] theorem haveRoom_map_rail (rs : List (RailSpan Rat)) : HaveRoom (rs.map .rail) := by
  simp [HaveRoom, callsOf]

@[simp] theorem haveRoom_visit (n : Node) (c : Context Rat) (above handsBack : Bool) :
    HaveRoom (.enter n c above :: es ++ [.leave n handsBack]) ↔ HaveRoom es := by
  simp [HaveRoom, callsOf]

@[simp] theorem haveRoom_within (origin : Point Rat) :
    HaveRoom (Strokes.within origin Event.call es) ↔ HaveRoom es := by
  simp [HaveRoom, callsOf, Strokes.within, or_imp, forall_and]

end Events

variable {d : Backdrop Rat} {k : Nat}

/-- However a visit is paid with its flow, the connectors of its scene have room. -/
def Backdrop.Reserves (d : Backdrop Rat) (k : Nat) (v : Visit) : Prop :=
  ∀ c : Context Rat, c.flow = v.flow → HaveRoom (scene d v.node c k v.above).1

section Lists

variable {ns : List Node} {c : Context Rat} {f : Flow}

theorem sceneList_haveRoom (hflags : ∀ n ∈ ns, (scene d n c k false).2 = false) (hflow : c.flow = f)
    (h : ∀ v ∈ ns.map (Visit.to · f false), d.Reserves k v) :
    HaveRoom (sceneList d ns c k false).1 := by
  induction ns with
  | nil => exact haveRoom_nil
  | cons n ns ih =>
      rw [List.forall_mem_cons] at hflags
      rw [List.map_cons, List.forall_mem_cons] at h
      rw [sceneList]
      simp only [hflags.1, haveRoom_append]
      exact ⟨h.1 c hflow, ih hflags.2 h.2⟩

theorem sceneItems_haveRoom {first : Bool} (hflags : ∀ n ∈ ns, ∀ c, (scene d n c k false).2 = false)
    (h : ∀ v ∈ c.flow.items first ns, d.Reserves k v) :
    HaveRoom (sceneItems d first ns c k false).1 := by
  induction ns generalizing first with
  | nil => exact haveRoom_nil
  | cons n ns ih =>
      rw [List.forall_mem_cons] at hflags
      rw [Flow.items, List.forall_mem_cons] at h
      rw [sceneItems]
      simp only [hflags.1, haveRoom_append]
      exact ⟨h.1 _ (flow_itemContext c first ns.isEmpty), ih hflags.2 h.2⟩

theorem sceneFan_haveRoom (hflow : c.flow = f)
    (h : ∀ v ∈ ns.map (Visit.to · f false), d.Reserves k v) : HaveRoom (sceneFan d ns c k) := by
  induction ns with
  | nil => exact haveRoom_nil
  | cons n ns ih =>
      rw [List.map_cons, List.forall_mem_cons] at h
      rw [sceneFan, haveRoom_append]
      exact ⟨h.1 c hflow, ih h.2⟩

end Lists

section Own

theorem Backdrop.map_box {ns : List Node} {bs : List (Box Rat)}
    (h : ns.map d.table.box? = bs.map some) : ns.map d.box = bs := by
  have hboxes := congrArg (List.map (·.getD Metrics.newBox)) h
  rw [List.map_map, List.map_map] at hboxes
  exact hboxes.trans (List.map_id bs)

theorem getLast?_mem_tail {xs : List (Box Rat)} (h : 2 ≤ xs.length) (x : Box Rat) :
    xs.getLast?.getD x ∈ xs.tail := by
  match xs, h with
  | _ :: y :: ys, _ =>
      rw [List.getLast?_cons_cons, List.getLast?_eq_some_getLast (List.cons_ne_nil y ys)]
      exact List.getLast_mem _

/-- What the render pass finds at an expression that is entered with a flow and a flag: its box, and
those of its children as the size pass has placed them. -/
structure Backdrop.Finds (d : Backdrop Rat) (n : Node) (f : Flow) (above : Bool) (b : Box Rat)
    (ss : List (Sized Rat)) (p : Placement Rat) : Prop where
  arranges : Arranges n f above ss p
  boxes : n.children.map d.box = p.parts
  level : ∀ s ∈ ss, s.box.Homed ∧ s.box.Level
  moved : p.box.Moved b

namespace Backdrop.Finds

variable {n : Node} {f : Flow} {above : Bool} {b e : Box Rat} {ss : List (Sized Rat)}
  {p : Placement Rat} {id : Nat} {direction : Direction} {s : Surroundings Rat}

theorem sound (h : d.Finds n f above b ss p) : p.Sound (ss.map Sized.box) :=
  h.arranges.sound fun s hs => (h.level s hs).1

/-- What hangs in the placement of a node also does so in its box. -/
theorem hangs {useLeft useRight : Bool} (h : d.Finds n f above b ss p)
    (he : p.box.Hangs e useLeft useRight) : b.normalize.Hangs e useLeft useRight :=
  he.of_homed h.sound.homed h.moved

theorem nonneg (h : d.Finds n f above b ss p) (he : e ∈ n.children.map d.box) : 0 ≤ e.tl.y := by
  rw [h.boxes] at he
  rw [← h.sound.homed.y]
  exact (h.sound.inside e he).top

theorem mem_parts (h : d.Finds n f above b ss p) {m : Node} (hm : m ∈ n.children) :
    d.box m ∈ p.parts :=
  h.boxes ▸ List.mem_map_of_mem hm

section Bodies

variable {body separator : Node} {flag : Bool}

theorem exists_repetition (h : d.Finds (.repetition id (some body)) f above b ss p)
    (hflag : ∀ s ∈ ss, s.handsBack = flag) :
    ∃ e, p = .repetition flag e ∧ d.box body ∈ p.parts := by
  obtain ⟨s, rfl, hp⟩ := h.arranges.eq_of_repetition
  exact ⟨s.box, hp.trans (by rw [hflag s List.mem_cons_self]), h.mem_parts List.mem_cons_self⟩

theorem exists_optional (h : d.Finds (.optional id (some body)) f above b ss p)
    (hflag : ∀ s ∈ ss, s.handsBack = flag) :
    ∃ e, p = .optional flag f.useLeft f.useRight e ∧ d.box body ∈ p.parts := by
  obtain ⟨s, rfl, hp⟩ := h.arranges.eq_of_optional
  exact ⟨s.box, hp.trans (by rw [hflag s List.mem_cons_self]), h.mem_parts List.mem_cons_self⟩

theorem exists_loop (h : d.Finds (.oneOrMore id (some body) none) f above b ss p) :
    ∃ e, p = .loop e ∧ d.box body ∈ p.parts := by
  obtain ⟨s, -, hp⟩ := h.arranges.eq_of_loop
  exact ⟨s.box, hp, h.mem_parts List.mem_cons_self⟩

theorem exists_separatedLoop
    (h : d.Finds (.oneOrMore id (some body) (some separator)) f above b ss p) :
    ∃ e e', p = .separatedLoop e e' ∧ p.parts = [d.box body, d.box separator] := by
  obtain ⟨s, s', -, hp⟩ := h.arranges.eq_of_separatedLoop
  exact ⟨s.box, s'.box, hp, h.boxes.symm⟩

/-- The body that is passed above it hangs below the line. -/
theorem hangs_repetition (h : d.Finds (.repetition id (some body)) f above b ss p)
    (hflag : ∀ s ∈ ss, s.handsBack = false) : b.normalize.Hangs (d.box body) true true := by
  obtain ⟨e, rfl, hbody⟩ := h.exists_repetition hflag
  exact h.hangs (Placement.hangs_repetition e _ hbody)

theorem hangs_optional (h : d.Finds (.optional id (some body)) f above b ss p)
    (hflag : ∀ s ∈ ss, s.handsBack = false) :
    b.normalize.Hangs (d.box body) f.useLeft f.useRight := by
  obtain ⟨e, rfl, hbody⟩ := h.exists_optional hflag
  exact h.hangs (Placement.hangs_optional e _ hbody)

theorem rows_separatedLoop
    (h : d.Finds (.oneOrMore id (some body) (some separator)) f above b ss p) :
    (d.box body).lAnchor.y + 20 ≤ (d.box separator).lAnchor.y := by
  obtain ⟨e, e', rfl, hparts⟩ := h.exists_separatedLoop
  obtain ⟨c, c', hplaced, hrows⟩ := Placement.hangs_separatedLoop e e'
  obtain ⟨rfl, hrest⟩ := List.cons.inj (hplaced.symm.trans hparts)
  obtain ⟨rfl, -⟩ := List.cons.inj hrest
  exact hrows

end Bodies

theorem fan {as : List Node} (h : d.Finds (.alternation id as) f above b ss p)
    (hfan : Node.isFan as = true) {first last : Box Rat} (hfirst : first ∈ as.map d.box)
    (hlast : last ∈ as.map d.box) :
    ∀ c ∈ Strokes.fan direction above b first last (as.map d.box), c.HasRoom := by
  refine Strokes.hasRoom_fan ?_ (h.nonneg hfirst) (h.nonneg hlast)
  have hhomed := h.sound.homed
  obtain ⟨harranges, -, -, ⟨-, hheight⟩, hrow⟩ := h
  rw [← hrow, ← hheight, Box.height_eq, hhomed.y, sub_zero]
  obtain rfl := harranges.eq_of_fan hfan
  have hclear := (Placement.clear_fan f.direction (ss.map Sized.box)).2
  rwa [Box.lAnchor_y, hhomed.y, zero_add] at hclear

theorem stack {as : List Node}
    (h : d.Finds (.alternation id as) ⟨s.direction, s.useLeft, s.useRight⟩ above b ss p)
    (hfan : Node.isFan as = false) {first last : Box Rat} (hlast : last ∈ (as.map d.box).tail) :
    ∀ c ∈ Strokes.stack s above b first last (as.map d.box), c.HasRoom := by
  refine Strokes.hasRoom_stack ?_
  rintro rfl
  refine h.hangs ?_
  obtain ⟨harranges, hboxes, hlevel, -⟩ := h
  rw [Node.children] at hboxes
  rw [hboxes] at hlast
  obtain ⟨-, rfl⟩ := harranges.eq_of_stack hfan
  cases ss with
  | nil => cases hlast
  | cons first ss =>
      refine Placement.hangs_stack ?_ _ hlast
      rw [List.forall_mem_map]
      exact (List.forall_mem_cons.mp hlevel).2

theorem repetition {body : Node} (h : d.Finds (.repetition id (some body)) f above b ss p)
    {flag : Bool} (hflag : ∀ s ∈ ss, s.handsBack = flag) :
    ∀ c ∈ Strokes.repetition direction flag b (d.box body), c.HasRoom := by
  refine Strokes.hasRoom_repetition ?_
  rintro rfl
  exact h.hangs_repetition hflag

theorem optional {body : Node}
    (h : d.Finds (.optional id (some body)) ⟨s.direction, s.useLeft, s.useRight⟩ above b ss p)
    {flag : Bool} (hflag : ∀ s ∈ ss, s.handsBack = flag) :
    ∀ c ∈ Strokes.optional s flag b (d.box body), c.HasRoom := by
  refine Strokes.hasRoom_optional ?_
  rintro rfl
  exact h.hangs_optional hflag

theorem separatedLoop {body separator : Node}
    (h : d.Finds (.oneOrMore id (some body) (some separator)) f above b ss p) :
    ∀ c ∈ Strokes.separatedLoop b (d.box body) (d.box separator), c.HasRoom :=
  Strokes.hasRoom_separatedLoop h.rows_separatedLoop

end Backdrop.Finds

/-- The render pass finds an expression that stands in its table as the size pass has left it, and the
flags that the parts hand back in both passes are those of alternations. -/
theorem Visit.Stands.finds {v : Visit} {s : Sized Rat} {b : Box Rat} (hn : v.node.IsExpression)
    (h : v.Stands d.table k s b) (hmoved : s.box.Moved b) :
    d.table.box? v.node = some b ∧ ∃ ss p, d.Finds v.node v.flow v.above b ss p ∧
      (∀ s' ∈ ss, ∃ v' ∈ v.flow.onward .right v.node,
        s'.handsBack = (v'.node.isAlternation && v'.above)) ∧
      ∀ v' ∈ v.flow.onward .right v.node, ∃ s' b', v'.Stands d.table (k + 1) s' b' ∧
        s'.box.Moved b' := by
  have hcomplete := hn.isComplete
  obtain ⟨ss, p, hholds⟩ := h.holds hcomplete
  have hhomed := hholds.homed hcomplete
  refine ⟨hholds.box?, ss, p, ?_, ?_, ?_⟩
  · refine ⟨hholds.arranges, Backdrop.map_box (hholds.map_box? hcomplete), ?_, hholds.size ▸ hmoved⟩
    intro s' hs'
    obtain ⟨v', hv', b', hstands⟩ := hholds.exists_stands_of_mem hs'
    exact ⟨hhomed s' hs', hstands.level (hn.of_mem_children (Visit.node_mem_children hv'))⟩
  · intro s' hs'
    obtain ⟨v', hv', b', hstands⟩ := hholds.exists_stands_of_mem hs'
    obtain ⟨ss', p', hholds'⟩ := hstands.holds
      (hn.of_mem_children (Visit.node_mem_children hv')).isComplete
    exact ⟨v', hv', hholds'.flag⟩
  · intro v' hv'
    obtain ⟨x, hx, hstands⟩ := exists_of_mem_left hholds.parts hv'
    exact ⟨x.1, x.2, hstands, List.forall₂_zip (hholds.arranges.moved hn hhomed) hx⟩

end Own

section Expressions

variable {v : Visit} {s : Sized Rat} {b : Box Rat}

/-- The scene of an expression that stands in the table has room for its connectors if those of its parts
have. -/
theorem reserves_of_children (hn : v.node.IsExpression) (h : v.Stands d.table k s b)
    (hmoved : s.box.Moved b) (hcovers : d.Covers v.node) (hk : k + v.node.height ≤ Metrics.maxDepth)
    (hchildren : ∀ v' ∈ v.flow.onward .right v.node, d.Reserves (k + 1) v') : d.Reserves k v := by
  obtain ⟨hbox, ss, p, hfinds, hflags, -⟩ := h.finds hn hmoved
  have hflag : ∀ m ∈ v.node.children, ∀ (c : Context Rat) (above : Bool),
      (scene d m c (k + 1) above).2 = (m.isAlternation && above) := by
    intro m hm c above
    have hheight := Node.height_lt_of_mem_children hm
    exact ((hn.of_mem_children hm).renders (hcovers.child hm) c.flow c (k + 1) above rfl
      (by omega)).2
  have hknown := ((Node.isComplete_iff_children v.node).mp hn.isComplete).1.1
  have hpos := v.node.height_pos
  obtain ⟨n, f, above, handsBack⟩ := v
  rintro c rfl
  rw [scene.eq_def, if_neg (by simp [hknown]), if_neg (by omega), hbox]
  refine (haveRoom_visit n c above _).mpr ?_
  -- A sole part hands back in the scene what it did when it was measured.
  have hsole {m : Node} {f : Flow} {entered : Bool}
      (honward : c.flow.onward .right n = [.to m f entered]) (hm : m ∈ n.children)
      (c' : Context Rat) : ∀ s' ∈ ss, s'.handsBack = (scene d m c' (k + 1) entered).2 := by
    intro s' hs'
    obtain ⟨v', hv', hhands⟩ := hflags s' hs'
    dsimp only at hv'
    rw [honward] at hv'
    rw [hhands, List.mem_singleton.mp hv']
    exact (hflag m hm c' entered).symm
  cases hn with
  | literal | identifier => exact haveRoom_map_call.mpr Strokes.hasRoom_leaf
  | @alternation id alternatives hmany halternatives =>
      -- An alternative that is entered without the flag hands none on, so none gets it from the one before.
      have hthreads : ∀ m ∈ alternatives, ∀ c, (scene d m c (k + 1) false).2 = false := by
        intro m hm c
        rw [hflag m hm, Bool.and_false]
      cases alternatives with
      | nil => simp at hmany
      | cons a as =>
          -- Only the boxes below the first one hang; the last box has to be one of those.
          have hlength : 2 ≤ ((a :: as).map d.box).length := by simpa using hmany
          have hlast := getLast?_mem_tail hlength (d.box a)
          rw [Flow.onward] at hchildren
          dsimp only
          split
          · rename_i hfan
            rw [Row.ofAlternatives, if_pos hfan] at hchildren
            rw [haveRoom_within, haveRoom_append, haveRoom_map_call]
            exact ⟨sceneFan_haveRoom rfl hchildren,
              hfinds.fan hfan List.mem_cons_self (List.mem_of_mem_tail hlast)⟩
          · rename_i hfan
            rw [Row.ofAlternatives, if_neg hfan] at hchildren
            rw [haveRoom_within, haveRoom_append, haveRoom_append, haveRoom_map_call]
            refine ⟨⟨haveRoom_map_rail _, sceneList_haveRoom (hthreads · · _) ?_ hchildren⟩,
              hfinds.stack (s := (c.push.translateRails b.tl).live) (by simpa using hfan) hlast⟩
            rw [Context.flow_push, flow_openRails]
            rfl
  | @sequence id items hmany hitems =>
      rw [haveRoom_within]
      refine sceneItems_haveRoom ?_ hchildren
      intro m hm c
      rw [hflag m hm, Bool.and_false]
  | @repetition id body hbody =>
      rw [haveRoom_append, haveRoom_within, haveRoom_map_call]
      exact ⟨hchildren (.to body c.flow.back true) List.mem_cons_self _ rfl,
        hfinds.repetition (hsole rfl List.mem_cons_self _)⟩
  | @optional id body hbody =>
      rw [haveRoom_append, haveRoom_within, haveRoom_map_call]
      exact ⟨hchildren (.to body c.flow.clear true) List.mem_cons_self _ rfl,
        hfinds.optional (hsole rfl List.mem_cons_self _)⟩
  | @loop id body hbody =>
      rw [haveRoom_within, haveRoom_append, haveRoom_map_call]
      exact ⟨hchildren (.to body c.flow.clear false) List.mem_cons_self _ rfl, Strokes.hasRoom_loop⟩
  | @separatedLoop id body separator hbody hseparator =>
      simp only [sceneRequired]
      rw [hflag body List.mem_cons_self, Bool.and_false]
      rw [haveRoom_within, haveRoom_append, haveRoom_append, haveRoom_map_call]
      refine ⟨⟨hchildren (.to body c.flow.clear false) List.mem_cons_self _ rfl, ?_⟩,
        hfinds.separatedLoop⟩
      exact hchildren (.to separator c.flow.back false) (List.mem_cons_of_mem _ List.mem_cons_self)
        _ rfl

theorem Node.IsExpression.reserves {n : Node} (hn : n.IsExpression) (hnode : v.node = n)
    (h : v.Stands d.table k s b) (hmoved : s.box.Moved b) (hcovers : d.Covers n)
    (hk : k + n.height ≤ Metrics.maxDepth) : d.Reserves k v := by
  induction n using Node.descend generalizing v k s b with
  | _ n ih =>
      subst hnode
      refine reserves_of_children hn h hmoved hcovers hk ?_
      intro v' hv'
      obtain ⟨-, ss, p, -, -, hstands⟩ := h.finds hn hmoved
      obtain ⟨s', b', hstands', hmoved'⟩ := hstands v' hv'
      have hm := Visit.node_mem_children hv'
      have hheight := Node.height_lt_of_mem_children hm
      exact ih v'.node hm (hn.of_mem_children hm) rfl hstands' hmoved' (hcovers.child hm) (by omega)

end Expressions

section Grammars

variable {n : Node} {s : Sized Rat} {b : Box Rat}

theorem haveRoom_of_isLeaf (hleaf : n.isLeaf = true) (c : Context Rat) (above : Bool) :
    HaveRoom (scene d n c k above).1 ∧ (scene d n c k above).2 = false := by
  have hfault : ∀ f (c : Context Rat) j, HaveRoom [.fault f c j] := by
    intro f c j
    simp [HaveRoom, callsOf]
  rw [scene.eq_def]
  split
  · exact ⟨hfault _ _ _, rfl⟩
  · split
    · exact ⟨hfault _ _ _, rfl⟩
    · split
      · exact ⟨hfault _ _ _, rfl⟩
      · cases n with
        | literal | identifier | other =>
            refine ⟨?_, rfl⟩
            rw [haveRoom_visit, haveRoom_map_call]
            exact Strokes.hasRoom_leaf
        | _ => cases hleaf

/-- Rules are drawn outside the flow, and their expressions without rails. -/
theorem Node.IsProduction.haveRoom (hn : n.IsProduction) {v : Visit} (hnode : v.node = n)
    (h : v.Stands d.table k s b) (hcovers : d.Covers n) (hk : k + n.height ≤ Metrics.maxDepth)
    {c : Context Rat} (hflow : c.flow = .free .none) (above : Bool) :
    HaveRoom (scene d n c k above).1 := by
  obtain ⟨ss, p, hholds⟩ := h.holds (hnode ▸ hn.isComplete)
  have hbox := hholds.box?
  have harranges := hholds.arranges
  have hparts := hholds.parts
  have hpos := n.height_pos
  rw [hnode] at hbox harranges hparts
  cases hn with
  | @intro id nameId name expression hexpression =>
      have hm : expression ∈ (production id (some (.identifier nameId name))
        (some expression)).children := List.mem_cons_of_mem _ List.mem_cons_self
      have hheight := height_lt_of_mem_children hm
      obtain ⟨hname, hflag⟩ := haveRoom_of_isLeaf (d := d) (k := k + 1)
        (n := .identifier nameId name) rfl c.push.push false
      have hbody : d.Reserves (k + 1) (.to expression (.free .right) false) := by
        obtain ⟨_, _, first, second, -, -, rfl, rfl⟩ := harranges.eq_of_production
        cases hparts with
        | cons _ hparts =>
            cases hparts with
            | cons hstands _ =>
                refine hexpression.reserves rfl hstands ⟨?_, rfl⟩ (hcovers.child hm) (by omega)
                exact (Box.sameSize_moveLAnchor _ _).trans (Box.sameSize_moveBy _ _)
      rw [scene.eq_def, if_neg (by simp [isKnown]), if_neg (by omega), hbox]
      refine (haveRoom_visit _ c _ _).mpr ?_
      simp only [sceneRequired, hflag]
      rw [haveRoom_within, haveRoom_append, haveRoom_append, haveRoom_map_call]
      refine ⟨⟨hname, hbody (c.push.push.toward .right) ?_⟩, Strokes.hasRoom_production⟩
      rw [Context.flow_toward, Context.flow_push, Context.flow_push, hflow]
      rfl

theorem haveRoom_productionList {id : Nat} {productions : List Node}
    (hproductions : ∀ n ∈ productions, n.IsProduction) {v : Visit}
    (hnode : v.node = .productionList id productions) (h : v.Stands d.table k s b)
    (hcovers : d.Covers (.productionList id productions))
    (hk : k + (Node.productionList id productions).height ≤ Metrics.maxDepth)
    {c : Context Rat} (hflow : c.flow = .free .none) (above : Bool) :
    HaveRoom (scene d (.productionList id productions) c k above).1 := by
  have hcomplete : v.node.isComplete = true := by
    rw [hnode, Node.isComplete, Node.isCompleteList_iff]
    exact fun n hn => (hproductions n hn).isComplete
  obtain ⟨ss, p, hholds⟩ := h.holds hcomplete
  have hbox := hholds.box?
  have hinner : (c.push.toward .none).push.flow = .free .none := by
    rw [Context.flow_push, Context.flow_toward, Context.flow_push, hflow]
    rfl
  rw [hnode] at hbox
  have hpos := (Node.productionList id productions).height_pos
  rw [scene.eq_def, if_neg (by simp [Node.isKnown]), if_neg (by omega), hbox]
  refine (haveRoom_visit _ c _ _).mpr ?_
  rw [haveRoom_within]
  refine sceneList_haveRoom ?_ hinner ?_
  · intro n hn
    have hheight := Node.height_lt_of_mem_children (n := .productionList id productions) hn
    rw [((hproductions n hn).renders (hcovers.child hn) _ (k + 1) false hinner (by omega)).2,
      Bool.and_false]
  · rw [List.forall_mem_map]
    intro n hn c hflow
    have hheight := Node.height_lt_of_mem_children (n := .productionList id productions) hn
    have hm : n ∈ v.node.children := hnode ▸ hn
    obtain ⟨v', -, hnode', x, -, hstands⟩ := hholds.exists_stands hm
    exact (hproductions n hn).haveRoom hnode' hstands (hcovers.child hn) (by omega) hflow false

theorem haveRoom_option {o : Option Node} (h : ∀ n ∈ o, n.isLeaf = true) (c : Context Rat)
    (above : Bool) : HaveRoom (sceneOption d o c k above).1 := by
  cases o with
  | none => exact haveRoom_nil
  | some n => exact (haveRoom_of_isLeaf (h n rfl) c above).1

theorem Node.IsGrammar.haveRoom (hn : n.IsGrammar) {v : Visit} (hnode : v.node = n)
    (h : v.Stands d.table k s b) (hcovers : d.Covers n) (hk : k + n.height ≤ Metrics.maxDepth)
    {direction : Direction} {c : Context Rat} (hflow : c.flow = .free direction) (above : Bool) :
    HaveRoom (scene d n c k above).1 := by
  obtain ⟨ss, p, hholds⟩ := h.holds (hnode ▸ hn.isComplete)
  have hbox := hholds.box?
  have hpos := n.height_pos
  rw [hnode] at hbox
  cases hn with
  | @intro id listId title comment productions htitle hproductions hcomment =>
      have hinner : (c.push.toward .none).push.flow = .free .none := by
        rw [Context.flow_push, Context.flow_toward, Context.flow_push, hflow]
        rfl
      have hm : .productionList listId productions ∈ (grammar id title
          (some (.productionList listId productions)) comment).children := by
        simp [children]
      have hheight := height_lt_of_mem_children hm
      obtain ⟨v', -, hnode', x, -, hstands⟩ := hholds.exists_stands (hnode ▸ hm)
      rw [scene.eq_def, if_neg (by simp [isKnown]), if_neg (by omega), hbox]
      refine (haveRoom_visit _ c _ _).mpr ?_
      dsimp only
      rw [haveRoom_within, haveRoom_append, haveRoom_append]
      refine ⟨⟨haveRoom_option ?_ _ _, ?_⟩, haveRoom_option ?_ _ _⟩
      · intro n hn
        obtain ⟨i, text, rfl⟩ := htitle n hn
        rfl
      · exact haveRoom_productionList hproductions hnode' hstands (hcovers.child hm) (by omega) hinner _
      · intro n hn
        obtain ⟨i, text, rfl⟩ := hcomment n hn
        rfl

end Grammars

/-- In a drawing of a grammar that has been read and laid out, every connector has a path that is not
empty and leads to its second point.  One that leaves and arrives horizontally joins rows that two arcs
fit between, and never goes back between them. -/
theorem connectors_reach {reader : Ebnf.Reader} {nextId : Nat} {text : String} {root : Node}
    (hread : (reader.read nextId text).result = .ok root) {direction : Direction}
    {table : BoxTable Rat} {e : Engine Rat}
    (hlayout : Engine.layout root direction = (.ok table, e)) (links : List String) (above : Bool) :
    ∃ (handsBack : Bool) (session : DrawingSession Rat),
      (DrawingSession.start table links direction).draw root above = (.ok handsBack, session) ∧
      ∀ leaving p q arriving r style,
        .composite (.connector leaving p q arriving r style) ∈ session.calls →
        r = radius ∧ ∃ segments,
          (Composite.connector leaving p q arriving r style).primitives =
            .ok (.pathBegin p.x p.y style :: segments ++ [.pathEnd]) ∧
          Reaches leaving p q arriving r segments := by
  have hroot := Ebnf.isGrammar_of_read hread
  obtain ⟨-, -, hheight⟩ := Engine.conditions_of_layout hlayout
  have hcovers : (⟨table, links⟩ : Backdrop Rat).Covers root := Engine.box_of_layout hlayout
  have hroom := hroot.haveRoom (d := ⟨table, links⟩) (k := 0) rfl (stands_of_layout hlayout) hcovers
    (by omega) (c := .new direction) rfl above
  obtain ⟨hfault, -⟩ := draws_of_complete (k := 0) hroot.isComplete hcovers (by omega)
    (.new direction) above
  refine ⟨_, _, (DrawingSession.start table links direction).draw_of_noFault hfault, ?_⟩
  intro leaving p q arriving r style hcall
  obtain ⟨rfl, hjoins, hfits⟩ := hroom _ (by simpa [DrawingSession.calls, DrawingSession.start] using hcall)
  obtain ⟨segments, hreaches⟩ := hfits.reaches (by simp) hjoins
  exact ⟨rfl, segments, hreaches.primitives style, hreaches⟩

theorem connectors_reach_choice : ∃ (table : BoxTable Rat) (e : Engine Rat),
    (Ebnf.Reader.new.read 0 choiceText).result = .ok choiceTree ∧
    Engine.layout choiceTree .right = (.ok table, e) ∧
    ∃ (handsBack : Bool) (session : DrawingSession Rat),
      (DrawingSession.start table ["x"] .right).draw choiceTree false = (.ok handsBack, session) ∧
      ∀ leaving p q arriving r style,
        .composite (.connector leaving p q arriving r style) ∈ session.calls →
        r = radius ∧ ∃ segments,
          (Composite.connector leaving p q arriving r style).primitives =
            .ok (.pathBegin p.x p.y style :: segments ++ [.pathEnd]) ∧
          Reaches leaving p q arriving r segments := by
  have hcomplete : choiceTree.isComplete = true := by decide
  obtain ⟨table, e, hlayout⟩ := Engine.layout_of_complete (α := Rat) hcomplete
    (by decide) (by decide) .right
  exact ⟨table, e, read_choiceText, hlayout, connectors_reach read_choiceText hlayout ["x"] false⟩

end Railroad
