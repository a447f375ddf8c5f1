import Railroad.Proofs.Drawing.Marks
/-!
How far what a node draws extends: each call marks points of a zone, which is the box of the node or, where
it draws to rails of a node above, all that lies around it.
-/
namespace Railroad

open Metrics

/-- The point lies in the box, its edges included. -/
structure Box.Holds (z : Box Rat) (p : Point Rat) : Prop where
  left : z.tl.x ≤ p.x
  right : p.x ≤ z.br.x
  top : z.tl.y ≤ p.y
  bottom : p.y ≤ z.br.y

/-- All points that the call marks lie in the box. -/
def Box.Covers (z : Box Rat) (c : Call Rat) : Prop :=
  ∀ p ∈ c.marks, z.Holds p

section Zones

variable {b z : Box Rat} {p q : Point Rat}

theorem Box.Holds.cross (hp : z.Holds p) (hq : z.Holds q) : z.Holds ⟨p.x, q.y⟩ :=
  ⟨hp.left, hp.right, hq.top, hq.bottom⟩

theorem Box.Holds.of_inside (h : b.Holds p) (hb : b.Inside z) : z.Holds p :=
  ⟨hb.left.trans h.left, h.right.trans hb.right, hb.top.trans h.top, h.bottom.trans hb.bottom⟩

theorem Box.holds_moveBy (δ : Point Rat) : (z.moveBy δ).Holds (p.translate δ) ↔ z.Holds p := by
  constructor
  · rintro ⟨hleft, hright, htop, hbottom⟩
    simp only [Box.moveBy_tl, Box.moveBy_br, Point.translate_x, Point.translate_y,
      add_le_add_iff_right] at hleft hright htop hbottom
    exact ⟨hleft, hright, htop, hbottom⟩
  · rintro ⟨hleft, hright, htop, hbottom⟩
    constructor <;> simpa

theorem Box.Covers.of_inside {c : Call Rat} (h : b.Covers c) (hb : b.Inside z) : z.Covers c :=
  fun p hp => (h p hp).of_inside hb

end Zones

section Connectors

open Strokes

variable {z : Box Rat} {p q : Point Rat}

theorem marks_connect {leaving arriving : Direction} {segments : List (Primitive Rat)}
    (h : connectorSegments? leaving arriving p q radius = some segments) :
    (connect leaving p q arriving).marks = p :: marks p segments := by
  have hend : ∀ pen : Point Rat, marks pen [.pathEnd] = [] := fun _ => rfl
  rw [connect, Call.marks, Call.primitives, Composite.primitives, Composite.strokes, h]
  change marks .zero (_ :: segments ++ [.pathEnd]) = _
  rw [marks_append, hend, List.append_nil]
  rfl

/-- A connector with one turn, onto the column of its last point, covers the box if the other corner of its
turn is held. -/
theorem covers_onto_column {leaving arriving : Direction} {arc : Arc} {corner : Point Rat}
    (hsegments : connectorSegments? leaving arriving p q radius =
      some [.pathHTo corner.x, .pathArc radius arc, .pathVTo q.y])
    (harc : (Primitive.pathArc radius arc).penNext ⟨corner.x, p.y⟩ = ⟨q.x, corner.y⟩) (hp : z.Holds p)
    (hq : z.Holds q) (hcorner : z.Holds corner) : z.Covers (connect leaving p q arriving) := by
  rw [radius_rat] at harc
  rw [Box.Covers, marks_connect hsegments]
  simpa [marks_pathArc, harc] using ⟨hp, hcorner.cross hp, hq.cross hcorner, hq⟩

/-- The same for a turn onto the row of the last point. -/
theorem covers_onto_row {leaving arriving : Direction} {arc : Arc} {corner : Point Rat}
    (hsegments : connectorSegments? leaving arriving p q radius =
      some [.pathVTo corner.y, .pathArc radius arc, .pathHTo q.x])
    (harc : (Primitive.pathArc radius arc).penNext ⟨p.x, corner.y⟩ = ⟨corner.x, q.y⟩) (hp : z.Holds p)
    (hq : z.Holds q) (hcorner : z.Holds corner) : z.Covers (connect leaving p q arriving) := by
  rw [radius_rat] at harc
  rw [Box.Covers, marks_connect hsegments]
  simpa [marks_pathArc, harc] using ⟨hp, hp.cross hcorner, hcorner.cross hq, hq⟩

theorem covers_right_up (hp : z.Holds p) (hq : z.Holds q) (hx : z.tl.x + 10 ≤ q.x)
    (hy : z.tl.y + 10 ≤ p.y) : z.Covers (connect .right p q .up) := by
  have hcorner : z.Holds ⟨q.x - 10, p.y - 10⟩ :=
    ⟨by linarith, by linarith [hq.right], by linarith, by linarith [hp.bottom]⟩
  exact covers_onto_column rfl (by simp [penNext_pathArc, Arc.heading]) hp hq hcorner

theorem covers_right_down (hp : z.Holds p) (hq : z.Holds q) (hx : z.tl.x + 10 ≤ q.x)
    (hy : p.y + 10 ≤ z.br.y) : z.Covers (connect .right p q .down) := by
  have hcorner : z.Holds ⟨q.x - 10, p.y + 10⟩ :=
    ⟨by linarith, by linarith [hq.right], by linarith [hp.top], by linarith⟩
  exact covers_onto_column rfl (by simp [penNext_pathArc, Arc.heading]) hp hq hcorner

theorem covers_left_down (hp : z.Holds p) (hq : z.Holds q) (hx : q.x + 10 ≤ z.br.x)
    (hy : p.y + 10 ≤ z.br.y) : z.Covers (connect .left p q .down) := by
  have hcorner : z.Holds ⟨q.x + 10, p.y + 10⟩ :=
    ⟨by linarith [hq.left], by linarith, by linarith [hp.top], by linarith⟩
  exact covers_onto_column rfl (by simp [penNext_pathArc, Arc.heading]) hp hq hcorner

theorem covers_down_right (hp : z.Holds p) (hq : z.Holds q) (hx : p.x + 10 ≤ z.br.x)
    (hy : z.tl.y + 10 ≤ q.y) : z.Covers (connect .down p q .right) := by
  have hcorner : z.Holds ⟨p.x + 10, q.y - 10⟩ :=
    ⟨by linarith [hp.left], by linarith, by linarith, by linarith [hq.bottom]⟩
  exact covers_onto_row rfl (by simp [penNext_pathArc, Arc.heading]) hp hq hcorner

theorem covers_down_left (hp : z.Holds p) (hq : z.Holds q) (hx : z.tl.x + 10 ≤ p.x)
    (hy : z.tl.y + 10 ≤ q.y) : z.Covers (connect .down p q .left) := by
  have hcorner : z.Holds ⟨p.x - 10, q.y - 10⟩ :=
    ⟨by linarith, by linarith [hp.right], by linarith, by linarith [hq.bottom]⟩
  exact covers_onto_row rfl (by simp [penNext_pathArc, Arc.heading]) hp hq hcorner

theorem covers_up_right (hp : z.Holds p) (hq : z.Holds q) (hx : p.x + 10 ≤ z.br.x)
    (hy : q.y + 10 ≤ z.br.y) : z.Covers (connect .up p q .right) := by
  have hcorner : z.Holds ⟨p.x + 10, q.y + 10⟩ :=
    ⟨by linarith [hp.left], by linarith, by linarith [hq.top], by linarith⟩
  exact covers_onto_row rfl (by simp [penNext_pathArc, Arc.heading]) hp hq hcorner

theorem covers_right_right (hp : z.Holds p) (hq : z.Holds q) (hx : p.x + 20 ≤ q.x)
    (hy : p.y + 20 ≤ q.y ∨ q.y + 20 ≤ p.y) : z.Covers (connect .right p q .right) := by
  have ⟨hleft, hright, htop, hbottom⟩ := hp
  have ⟨hleft', hright', htop', hbottom'⟩ := hq
  rw [Box.Covers, marks_connect rfl, if_neg (by linarith)]
  split
  · have hrows : p.y + 20 ≤ q.y := hy.resolve_right (by linarith)
    have harc : z.Holds ⟨p.x + 10, p.y + 10⟩ := by constructor <;> linarith
    have harc' : z.Holds ⟨p.x + 10 + 10, q.y - 10⟩ := by constructor <;> linarith
    simpa [marks_pathArc, penNext_pathArc, Arc.heading]
      using ⟨hp, harc, harc.cross harc', harc'.cross hq, hq⟩
  · have hrows : q.y + 20 ≤ p.y := hy.resolve_left (by linarith)
    have harc : z.Holds ⟨q.x - 10 * 2, p.y - 10⟩ := by constructor <;> linarith
    have harc' : z.Holds ⟨q.x - 10 * 2 + 10, q.y + 10⟩ := by constructor <;> linarith
    have hend : q.x - 10 * 2 + 10 + 10 = q.x := by ring
    simpa [marks_pathArc, penNext_pathArc, Arc.heading, hend]
      using ⟨hp, harc.cross hp, harc'.cross harc, harc', hq⟩

theorem covers_left_left (hp : z.Holds p) (hq : z.Holds q) (hx : q.x + 20 ≤ p.x)
    (hy : p.y + 20 ≤ q.y ∨ q.y + 20 ≤ p.y) : z.Covers (connect .left p q .left) := by
  have ⟨hleft, hright, htop, hbottom⟩ := hp
  have ⟨hleft', hright', htop', hbottom'⟩ := hq
  rw [Box.Covers, marks_connect rfl]
  split
  · have hrows : p.y + 20 ≤ q.y := hy.resolve_right (by linarith)
    have harc : z.Holds ⟨p.x - 10, p.y + 10⟩ := by constructor <;> linarith
    have harc' : z.Holds ⟨p.x - 10 - 10, q.y - 10⟩ := by constructor <;> linarith
    simpa [marks_pathArc, penNext_pathArc, Arc.heading]
      using ⟨hp, harc, harc.cross harc', harc'.cross hq, hq⟩
  · have hrows : q.y + 20 ≤ p.y := hy.resolve_left (by linarith)
    have harc : z.Holds ⟨q.x + 10 * 2, p.y - 10⟩ := by constructor <;> linarith
    have harc' : z.Holds ⟨q.x + 10 * 2 - 10, q.y + 10⟩ := by constructor <;> linarith
    have hend : q.x + 10 * 2 - 10 - 10 = q.x := by ring
    rw [if_neg (by linarith)]
    simpa [marks_pathArc, penNext_pathArc, Arc.heading, hend]
      using ⟨hp, harc.cross hp, harc'.cross harc, harc', hq⟩

theorem covers_right_left (hp : z.Holds p) (hq : z.Holds q) (hpx : p.x + 10 ≤ z.br.x)
    (hqx : q.x + 10 ≤ z.br.x) (hy : p.y + 20 ≤ q.y ∨ q.y + 20 ≤ p.y) :
    z.Covers (connect .right p q .left) := by
  have ⟨hleft, hright, htop, hbottom⟩ := hp
  have ⟨hleft', hright', htop', hbottom'⟩ := hq
  rw [Box.Covers, marks_connect rfl, Scalar.max_rat]
  have hturn : z.tl.x ≤ max p.x q.x ∧ max p.x q.x + 10 ≤ z.br.x := by grind
  generalize max p.x q.x = x at hturn ⊢
  split
  · have hrows : p.y + 20 ≤ q.y := hy.resolve_right (by linarith)
    have harc : z.Holds ⟨x, p.y + 10⟩ := by constructor <;> linarith
    have harc' : z.Holds ⟨x + 10, q.y - 10⟩ := by constructor <;> linarith
    simpa [marks_pathArc, penNext_pathArc, Arc.heading]
      using ⟨hp, harc.cross hp, harc'.cross harc, harc', harc.cross hq, hq⟩
  · have hrows : q.y + 20 ≤ p.y := hy.resolve_left (by linarith)
    have harc : z.Holds ⟨x, p.y - 10⟩ := by constructor <;> linarith
    have harc' : z.Holds ⟨x + 10, q.y + 10⟩ := by constructor <;> linarith
    simpa [marks_pathArc, penNext_pathArc, Arc.heading]
      using ⟨hp, harc.cross hp, harc'.cross harc, harc', harc.cross hq, hq⟩

theorem covers_left_right (hp : z.Holds p) (hq : z.Holds q) (hpx : z.tl.x + 10 ≤ p.x)
    (hqx : z.tl.x + 10 ≤ q.x) (hy : p.y + 20 ≤ q.y ∨ q.y + 20 ≤ p.y) :
    z.Covers (connect .left p q .right) := by
  have ⟨hleft, hright, htop, hbottom⟩ := hp
  have ⟨hleft', hright', htop', hbottom'⟩ := hq
  rw [Box.Covers, marks_connect rfl, Scalar.min_rat]
  have hturn : z.tl.x + 10 ≤ min p.x q.x ∧ min p.x q.x ≤ z.br.x := by grind
  generalize min p.x q.x = x at hturn ⊢
  split
  · have hrows : p.y + 20 ≤ q.y := hy.resolve_right (by linarith)
    have harc : z.Holds ⟨x, p.y + 10⟩ := by constructor <;> linarith
    have harc' : z.Holds ⟨x - 10, q.y - 10⟩ := by constructor <;> linarith
    simpa [marks_pathArc, penNext_pathArc, Arc.heading]
      using ⟨hp, harc.cross hp, harc'.cross harc, harc', harc.cross hq, hq⟩
  · have hrows : q.y + 20 ≤ p.y := hy.resolve_left (by linarith)
    have harc : z.Holds ⟨x, p.y - 10⟩ := by constructor <;> linarith
    have harc' : z.Holds ⟨x - 10, q.y + 10⟩ := by constructor <;> linarith
    simpa [marks_pathArc, penNext_pathArc, Arc.heading]
      using ⟨hp, harc.cross hp, harc'.cross harc, harc', harc.cross hq, hq⟩

/-- A connector that dips below both its points. -/
theorem covers_down_up (hp : z.Holds p) (hq : z.Holds q) (hpx : z.tl.x + 10 ≤ p.x ∧ p.x + 10 ≤ z.br.x)
    (hqx : z.tl.x + 10 ≤ q.x ∧ q.x + 10 ≤ z.br.x) (hpy : p.y + 10 ≤ z.br.y) (hqy : q.y + 10 ≤ z.br.y) :
    z.Covers (connect .down p q .up) := by
  have ⟨hleft, hright, htop, hbottom⟩ := hp
  have ⟨hleft', hright', htop', hbottom'⟩ := hq
  rw [Box.Covers, marks_connect rfl, Scalar.max_rat]
  have hturn : z.tl.y ≤ max p.y q.y ∧ max p.y q.y + 10 ≤ z.br.y := by grind
  generalize max p.y q.y = y at hturn ⊢
  split
  · have harc : z.Holds ⟨p.x - 10, y + 10⟩ := by constructor <;> linarith
    have harc' : z.Holds ⟨q.x + 10, y⟩ := by constructor <;> linarith
    simpa [marks_pathArc, penNext_pathArc, Arc.heading]
      using ⟨hp, hp.cross harc', harc, harc'.cross harc, hq.cross harc', hq⟩
  · have harc : z.Holds ⟨p.x + 10, y + 10⟩ := by constructor <;> linarith
    have harc' : z.Holds ⟨q.x - 10, y⟩ := by constructor <;> linarith
    simpa [marks_pathArc, penNext_pathArc, Arc.heading]
      using ⟨hp, hp.cross harc', harc, harc'.cross harc, hq.cross harc', hq⟩

theorem covers_down_down (hp : z.Holds p) (hq : z.Holds q)
    (hpx : z.tl.x + 10 ≤ p.x ∧ p.x + 10 ≤ z.br.x) (hqx : z.tl.x + 10 ≤ q.x ∧ q.x + 10 ≤ z.br.x)
    (hy : p.y + 20 ≤ q.y) : z.Covers (connect .down p q .down) := by
  have ⟨hleft, hright, htop, hbottom⟩ := hp
  have ⟨hleft', hright', htop', hbottom'⟩ := hq
  rw [Box.Covers, marks_connect rfl, Scalar.max_rat, max_eq_right (by linarith)]
  have hend : q.y - 10 * 2 + 10 + 10 = q.y := by ring
  split
  · have harc : z.Holds ⟨p.x - 10, q.y - 10 * 2⟩ := by constructor <;> linarith
    have harc' : z.Holds ⟨q.x + 10, q.y - 10 * 2 + 10⟩ := by constructor <;> linarith
    simpa [marks_pathArc, penNext_pathArc, Arc.heading, hend]
      using ⟨hp, hp.cross harc, harc.cross harc', harc', hq⟩
  · have harc : z.Holds ⟨p.x + 10, q.y - 10 * 2⟩ := by constructor <;> linarith
    have harc' : z.Holds ⟨q.x - 10, q.y - 10 * 2 + 10⟩ := by constructor <;> linarith
    simpa [marks_pathArc, penNext_pathArc, Arc.heading, hend]
      using ⟨hp, hp.cross harc, harc.cross harc', harc', hq⟩

end Connectors

section Shapes

open Strokes

variable {z : Box Rat} {p q : Point Rat} {x y w h r length : Rat} {style : Style}

theorem covers_hline (hp : z.Holds p) (hleft : z.tl.x ≤ q.x) (hright : q.x ≤ z.br.x) :
    z.Covers (hline p q) :=
  List.forall_mem_cons.mpr ⟨hp, List.forall_mem_singleton.mpr ⟨hleft, hright, hp.top, hp.bottom⟩⟩

theorem covers_vline (hp : z.Holds p) (htop : z.tl.y ≤ q.y) (hbottom : q.y ≤ z.br.y) :
    z.Covers (vline p q) :=
  List.forall_mem_cons.mpr ⟨hp, List.forall_mem_singleton.mpr ⟨hp.left, hp.right, htop, hbottom⟩⟩

theorem covers_circle (hleft : z.tl.x + r ≤ x) (hright : x + r ≤ z.br.x) (htop : z.tl.y + r ≤ y)
    (hbottom : y + r ≤ z.br.y) (hr : 0 ≤ r) : z.Covers (.primitive (.circle x y r style)) := by
  refine List.forall_mem_cons.mpr ⟨?_, List.forall_mem_singleton.mpr ?_⟩
  · constructor <;> dsimp only <;> linarith
  · constructor <;> dsimp only <;> linarith

theorem covers_rectangle (style : Style) (hp : z.Holds ⟨x, y⟩) (hq : z.Holds ⟨x + w, y + h⟩) :
    z.Covers (.primitive (.rectangle x y w h style)) ∧
      z.Covers (.primitive (.roundedRectangle x y w h style)) :=
  ⟨List.forall_mem_cons.mpr ⟨hp, List.forall_mem_singleton.mpr hq⟩,
    List.forall_mem_cons.mpr ⟨hp, List.forall_mem_singleton.mpr hq⟩⟩

/-- The shaft of an arrow is a line. -/
theorem shaft?_of_shaft {c l : Composite Rat} (h : c.shaft? = some l) : l.shaft? = none := by
  cases c with
  | arrowLeft | arrowRight | arrowDown =>
      rw [Composite.shaft?] at h
      split at h
      · cases h
        rfl
      · cases h
  | hline | vline | connector => cases h

/-- A composite extends as far as its shaft and its other strokes. -/
theorem covers_of_shaft {c : Composite Rat} {ps : List (Primitive Rat)} (hps : c.strokes = .ok ps)
    (hshaft : ∀ l, c.shaft? = some l → z.Covers (.composite l))
    (hstrokes : ∀ pen, ∀ p ∈ marks pen ps, z.Holds p) : z.Covers (.composite c) := by
  rw [Box.Covers, Call.marks, Call.primitives, Composite.primitives, hps]
  cases hline : c.shaft? with
  | none => exact hstrokes .zero
  | some l =>
      obtain ⟨qs, hqs, -⟩ := Composite.exists_strokes (Composite.isSupported_shaft hline)
      have hcovers := hshaft l hline
      rw [Box.Covers, Call.marks, Call.primitives, Composite.primitives, shaft?_of_shaft hline, hqs]
        at hcovers
      simp only [hqs]
      change ∀ p ∈ marks .zero (qs ++ ps), z.Holds p
      rw [marks_append]
      exact List.forall_mem_append.mpr ⟨hcovers, hstrokes _⟩

/-- An arrow extends as far as its line, which is left out where it is short, and its head. -/
theorem covers_arrow {c line : Composite Rat} {ps : List (Primitive Rat)} {isLong : Prop}
    [Decidable isLong] (hps : c.strokes = .ok ps)
    (hshaft : c.shaft? = if isLong then some line else none) (hline : z.Covers (.composite line))
    (hstrokes : ∀ pen, ∀ p ∈ marks pen ps, z.Holds p) : z.Covers (.composite c) := by
  refine covers_of_shaft hps (fun l hl => ?_) hstrokes
  rw [hshaft] at hl
  split at hl
  · cases hl
    exact hline
  · cases hl

theorem covers_arrowLeft (hp : z.Holds p) (hleft : z.tl.x + length ≤ p.x)
    (hright : p.x + 10 ≤ z.br.x + length) (htop : z.tl.y + 5 ≤ p.y) (hbottom : p.y + 5 ≤ z.br.y) :
    z.Covers (.composite (.arrowLeft p length arrowSize)) := by
  have ⟨hleft', hright', htop', hbottom'⟩ := hp
  refine covers_arrow rfl rfl (covers_hline hp (by simp; linarith) (by simp; linarith)) fun pen => ?_
  simp only [marks_cons, marks_nil, Primitive.marks, Primitive.penNext, Point.move, List.nil_append,
    List.append_nil, List.cons_append, List.forall_mem_cons, arrowSize_rat]
  refine ⟨?_, ?_, ?_, ?_, by simp⟩ <;> constructor <;> linarith

theorem covers_arrowRight (hp : z.Holds p) (hleft : z.tl.x + 10 ≤ p.x + length)
    (hright : p.x + length ≤ z.br.x) (htop : z.tl.y + 5 ≤ p.y) (hbottom : p.y + 5 ≤ z.br.y) :
    z.Covers (.composite (.arrowRight p length arrowSize)) := by
  have ⟨hleft', hright', htop', hbottom'⟩ := hp
  refine covers_arrow rfl rfl (covers_hline hp (by simp; linarith) (by simp; linarith)) fun pen => ?_
  simp only [marks_cons, marks_nil, Primitive.marks, Primitive.penNext, Point.move, List.nil_append,
    List.append_nil, List.cons_append, List.forall_mem_cons, arrowSize_rat]
  refine ⟨?_, ?_, ?_, ?_, by simp⟩ <;> constructor <;> linarith

theorem covers_arrowDown (hp : z.Holds p) (hleft : z.tl.x + 5 ≤ p.x)
    (hright : p.x + 5 ≤ z.br.x) (htop : z.tl.y + 10 ≤ p.y + length) (hbottom : p.y + length ≤ z.br.y) :
    z.Covers (.composite (.arrowDown p length arrowSize)) := by
  have ⟨hleft', hright', htop', hbottom'⟩ := hp
  refine covers_arrow rfl rfl (covers_vline hp (by simp; linarith) (by simp; linarith)) fun pen => ?_
  simp only [marks_cons, marks_nil, Primitive.marks, Primitive.penNext, Point.move, List.nil_append,
    List.append_nil, List.cons_append, List.forall_mem_cons, arrowSize_rat]
  refine ⟨?_, ?_, ?_, ?_, by simp⟩ <;> constructor <;> linarith

end Shapes

end Railroad
