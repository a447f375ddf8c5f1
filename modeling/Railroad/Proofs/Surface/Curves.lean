import Mathlib.Analysis.SpecialFunctions.Trigonometric.Basic
import Railroad.Proofs.Surface.Answers
/-!
The curves that outputs write, as the points at which their segments start and end: read from the path data
of a document, from the text of a picture, and off the pen of a painter.

A document and a painter always tell the same points.  A picture tells them too unless an arc turns off from
the way to the left: the angles of such an arc take the reader to the wrong side of the row, and the next
line leads back.
-/
namespace Railroad

section Tracing

variable {α : Type}

/-- Primitives that begin, draw and end paths of lines and arcs, by whether a path is open before and
after. -/
inductive Primitive.Traces : Primitive α → Bool → Bool → Prop
  | begins (x y : α) (style : Style) : Traces (.pathBegin x y style) false true
  | horizontal (x : α) : Traces (.pathHTo x) true true
  | vertical (y : α) : Traces (.pathVTo y) true true
  | arc (radius : α) (arc : Arc) : Traces (.pathArc radius arc) true true
  | ends : Traces .pathEnd true false

/-- Paths of lines and arcs one after another; the last one may be left open. -/
inductive Tracing : Bool → List (Primitive α) → Prop
  | nil (opened : Bool) : Tracing opened []
  | cons {p : Primitive α} {ps : List (Primitive α)} {before after : Bool}
      (hp : p.Traces before after) (h : Tracing after ps) : Tracing before (p :: ps)

end Tracing

/-- The absolute place of the pen after a primitive, from the origin in force and the place before. -/
def Primitive.track (origin : Point Rat) (pen : Option (Point Rat)) : Primitive Rat → Option (Point Rat)
  | pathBegin x y _ => some (Point.translate ⟨x, y⟩ origin)
  | pathHTo x => pen.map fun pen => pen.withX (x + origin.x)
  | pathVTo y => pen.map fun pen => pen.withY (y + origin.y)
  | pathArc radius arc => pen.map fun pen =>
      let d : Point Rat := arc.delta
      pen.move (d.x * radius) (d.y * radius)
  | pathEnd => none
  | _ => pen

/-- The absolute points at which the segments of paths start and end. -/
def tracks (origin : Point Rat) (pen : Option (Point Rat)) : List (Primitive Rat) → List (Point Rat)
  | [] => []
  | p :: ps => (p.track origin pen).toList ++ tracks origin (p.track origin pen) ps

theorem Primitive.Traces.isSome_track {p : Primitive Rat} {pen : Option (Point Rat)} {after : Bool}
    (hp : p.Traces pen.isSome after) (origin : Point Rat) :
    (p.track origin pen).isSome = after := by
  generalize hbefore : pen.isSome = before at hp
  cases hp <;> simp [track, hbefore]

/-- What an output answers to each primitive of a path: its state goes with the pen, and tells one more
point wherever there is one. -/
structure Tells {σ : Type} (step : σ → Primitive Rat → Reply σ) (origin : Point Rat)
    (State : Option (Point Rat) → List (Point Rat) → σ → Prop) : Prop where
  next : ∀ {pen told s p after}, State pen told s → p.Traces pen.isSome after →
    (step s p).Settles (State (p.track origin pen) (told ++ (p.track origin pen).toList))

theorem Tells.sendAll {σ : Type} {step : σ → Primitive Rat → Reply σ} {origin : Point Rat}
    {State : Option (Point Rat) → List (Point Rat) → σ → Prop} (h : Tells step origin State)
    {pen : Option (Point Rat)} {s : σ} {ps : List (Primitive Rat)} (told : List (Point Rat))
    (hps : Tracing pen.isSome ps) (hs : State pen told s) :
    (sendAll step s ps).Settles fun s' => ∃ pen', State pen' (told ++ tracks origin pen ps) s' := by
  induction ps generalizing pen told s with
  | nil =>
      refine ⟨rfl, pen, ?_⟩
      rw [tracks, List.append_nil]
      exact hs
  | cons p ps ih =>
      obtain - | ⟨hp, hps⟩ := hps
      rw [← hp.isSome_track origin] at hps
      refine sendAll_cons (h.next hs hp) fun s' hs' => ?_
      rw [tracks, ← List.append_assoc]
      exact ih _ hps hs'

/-! ### Path data -/

/-- Where a segment of path data leads. -/
def SvgSegment.leads (pen : Point Rat) : SvgSegment Rat → Point Rat
  | horizontal x => pen.withX x
  | vertical y => pen.withY y
  | arc _ _ delta => pen.translate delta
  | head _ => pen

def SvgPiece.points : SvgPiece Rat → List (Point Rat)
  | path _ start segments => segments.scanl SvgSegment.leads start
  | _ => []

namespace SvgPath

/-- Where the path data written so far leads. -/
def pen (path : SvgPath Rat) : Point Rat :=
  path.segments.reverse.foldl SvgSegment.leads path.start

def piece (path : SvgPath Rat) : SvgPiece Rat :=
  .path path.style path.start path.segments.reverse

variable (path : SvgPath Rat) (s : SvgSegment Rat)

theorem pen_segment : pen { path with segments := s :: path.segments } = s.leads path.pen := by
  simp [pen]

theorem points_segment :
    (piece { path with segments := s :: path.segments }).points =
      path.piece.points ++ [s.leads path.pen] := by
  simp [piece, pen, SvgPiece.points, List.scanl_append]

end SvgPath

namespace Svg

/-- The points of everything written so far. -/
def points (s : Svg Rat) : List (Point Rat) :=
  s.pieces.toList.flatMap SvgPiece.points ++ s.path.elim [] fun path => path.piece.points

/-- A document whose path data leads to the pen and tells some points. -/
structure TellsOf (origin : Point Rat) (pen : Option (Point Rat)) (told : List (Point Rat))
    (s : Svg Rat) : Prop where
  origin : s.origins.current = origin
  pen : s.path.map SvgPath.pen = pen
  points : s.points = told

theorem tellsOf_segment {s : Svg Rat} {path : SvgPath Rat} (hpath : s.path = some path)
    (added : SvgSegment Rat) :
    (s.segment added).Settles (TellsOf s.origins.current (some (added.leads path.pen))
      (s.points ++ [added.leads path.pen])) := by
  rw [segment, hpath]
  refine ⟨rfl, rfl, ?_, ?_⟩
  · exact congrArg some (path.pen_segment added)
  · rw [points, points, hpath, List.append_assoc]
    exact congrArg _ (path.points_segment added)

theorem tells (origin : Point Rat) : Tells primitive origin (TellsOf origin) where
  next := by
    rintro pen told s p after ⟨rfl, rfl, rfl⟩ hp
    rw [Option.isSome_map] at hp
    cases hpath : s.path with
    | none =>
        rw [hpath] at hp
        obtain ⟨x, y, style⟩ := hp
        rw [primitive, hpath]
        refine ⟨rfl, rfl, rfl, ?_⟩
        rw [points, points, hpath, Option.elim_none, List.append_nil]
        rfl
    | some path =>
        rw [hpath] at hp
        cases hp with
        | horizontal x => exact tellsOf_segment hpath _
        | vertical y => exact tellsOf_segment hpath _
        | arc radius arc => exact tellsOf_segment hpath _
        | ends =>
            rw [primitive, hpath]
            refine ⟨rfl, rfl, rfl, ?_⟩
            simp [points, hpath, write, Reply.ok, Primitive.track, SvgPath.piece]

end Svg

/-! ### The pen of a painter -/

namespace Png

/-- The places of the pen while primitives are sent. -/
def places (s : Png Rat) : List (Primitive Rat) → List (Point Rat)
  | [] => []
  | p :: ps => (s.primitive p).state.pen.toList ++ (s.primitive p).state.places ps

structure DrawsAt (origin : Point Rat) (pen : Option (Point Rat)) (s : Png Rat) : Prop where
  drawing : s.drawing = true
  origin : s.origins.current = origin
  pen : s.pen = pen

theorem drawsAt_give {origin : Point Rat} {pen : Option (Point Rat)} {s : Png Rat}
    (h : DrawsAt origin pen s) (c : PngCommand Rat) : (s.give c).Settles (DrawsAt origin pen) := by
  have hfits : c.width?.all (Scalar.fits Rat) = true := by
    cases c.width? <;> rfl
  have hdrawing : ¬ (!s.drawing) = true := by
    simp [h.drawing]
  rw [give, if_neg hdrawing, if_pos hfits]
  exact ⟨rfl, h.drawing, h.origin, h.pen⟩

theorem drawsAt_moved {origin pen : Point Rat} {s : Png Rat} (h : DrawsAt origin (some pen) s)
    (c : PngCommand Rat) (target : Point Rat) :
    ((s.give c).andThen fun s => .ok { s with pen := some target }).Settles
      (DrawsAt origin (some target)) :=
  (drawsAt_give h c).andThen fun _ hs => ⟨rfl, hs.drawing, hs.origin, rfl⟩

theorem drawsAt_primitive {origin : Point Rat} {pen : Option (Point Rat)} {s : Png Rat}
    {p : Primitive Rat} {after : Bool} (h : DrawsAt origin pen s) (hp : p.Traces pen.isSome after) :
    (s.primitive p).Settles (DrawsAt origin (p.track origin pen)) := by
  obtain rfl := h.origin
  cases pen with
  | none =>
      obtain ⟨x, y, style⟩ := hp
      rw [primitive, h.pen]
      exact ⟨rfl, h.drawing, rfl, rfl⟩
  | some pen =>
      cases hp with
      | horizontal x | vertical y =>
          rw [primitive, lineTo, h.pen]
          exact drawsAt_moved h _ _
      | arc radius arc =>
          rw [primitive, Png.arc, h.pen]
          have hcross : (pen.move (Scalar.ofInt arc.turn.2.1 * radius)
              (Scalar.ofInt arc.turn.2.2 * radius)).move (Scalar.ofInt arc.turn.1.1 * radius)
              (Scalar.ofInt arc.turn.1.2 * radius) =
              pen.move ((arc.delta : Point Rat).x * radius) ((arc.delta : Point Rat).y * radius) := by
            cases arc <;> simp [Point.move, Arc.turn, Arc.delta, Arc.heading, Scalar.ofInt]
          simp only [Primitive.track, Option.map_some, ← hcross]
          exact drawsAt_moved h _ _
      | ends =>
          rw [primitive, h.pen]
          refine Reply.Settles.andThen (P := DrawsAt s.origins.current (some pen)) ?_ fun s' hs =>
            ⟨rfl, hs.drawing, hs.origin, rfl⟩
          split
          · exact ⟨rfl, h⟩
          · exact drawsAt_give h _

theorem tells (origin : Point Rat) : Tells primitive origin fun pen _ => DrawsAt origin pen :=
  ⟨fun h hp => drawsAt_primitive h hp⟩

theorem places_eq_tracks {origin : Point Rat} {pen : Option (Point Rat)} {s : Png Rat}
    {ps : List (Primitive Rat)} (h : DrawsAt origin pen s) (hps : Tracing pen.isSome ps) :
    s.places ps = tracks origin pen ps := by
  induction ps generalizing pen s with
  | nil => rfl
  | cons p ps ih =>
      obtain - | ⟨hp, hps⟩ := hps
      rw [← hp.isSome_track origin] at hps
      have hnext := (drawsAt_primitive h hp).2
      rw [places, tracks, hnext.pen, ih hnext hps]

end Png

/-! ### The text of a picture -/

/-- The direction of an angle in degrees. -/
noncomputable def heading (angle : Int) : Point ℝ :=
  ⟨Real.cos (angle * (Real.pi / 180)), Real.sin (angle * (Real.pi / 180))⟩

theorem heading_add_quarter (angle : Int) :
    heading (angle + 90) = ⟨-(heading angle).y, (heading angle).x⟩ := by
  have hangle : ((angle + 90 : Int) : ℝ) * (Real.pi / 180) =
      angle * (Real.pi / 180) + Real.pi / 2 := by
    push_cast
    ring
  rw [heading, hangle, Real.cos_add_pi_div_two, Real.sin_add_pi_div_two]
  rfl

theorem heading_sub_quarter (angle : Int) :
    heading (angle - 90) = ⟨(heading angle).y, -(heading angle).x⟩ := by
  have hback := heading_add_quarter (angle - 90)
  rw [Int.sub_add_cancel] at hback
  rw [hback, neg_neg]

@[simp] theorem heading_zero : heading 0 = ⟨1, 0⟩ := by
  simp [heading]

@[simp] theorem heading_ninety : heading 90 = ⟨0, 1⟩ := by
  simpa using heading_add_quarter 0

@[simp] theorem heading_half : heading 180 = ⟨-1, 0⟩ := by
  simpa using heading_add_quarter 90

@[simp] theorem heading_threeQuarters : heading 270 = ⟨0, -1⟩ := by
  simpa using heading_add_quarter 180

@[simp] theorem heading_neg_ninety : heading (-90) = ⟨0, -1⟩ := by
  simpa using heading_sub_quarter 0

@[simp] theorem heading_neg_half : heading (-180) = ⟨-1, 0⟩ := by
  simpa using heading_sub_quarter (-90)

/-- A turn off from the way to the left. -/
def Arc.leavesLeft (arc : Arc) : Bool :=
  arc = leftUp || arc = leftDown

/-- The way between the ends of a piece of the unit circle, by its two angles. -/
noncomputable def chord (fromAngle toAngle : Int) : Point ℝ :=
  ⟨(heading toAngle).x - (heading fromAngle).x, (heading toAngle).y - (heading fromAngle).y⟩

/-- The angles of an arc lead across it, except that they mistake up for down where the arc leaves the way
to the left. -/
theorem chord_angles (arc : Arc) :
    chord arc.angles.1 arc.angles.2 =
      ⟨((arc.delta : Point Rat).x : ℝ),
        if arc.leavesLeft then -((arc.delta : Point Rat).y : ℝ) else ((arc.delta : Point Rat).y : ℝ)⟩ := by
  cases arc <;> simp [chord, Arc.angles, Arc.leavesLeft, Arc.delta, Arc.heading, Scalar.ofInt]

def Point.map {α β : Type} (f : α → β) (p : Point α) : Point β :=
  ⟨f p.x, f p.y⟩

def TikzSegment.map {α β : Type} (f : α → β) : TikzSegment α → TikzSegment β
  | line p => line (p.map f)
  | arc fromAngle toAngle radius => arc fromAngle toAngle (f radius)
  | head steps => head (steps.map (Point.map f))

def TikzPiece.map {α β : Type} (f : α → β) : TikzPiece α → TikzPiece β
  | figureStart caption label => figureStart caption label
  | figureEnd => figureEnd
  | rectangle p q => rectangle (p.map f) (q.map f)
  | rounded radius p q => rounded (f radius) (p.map f) (q.map f)
  | circle filled p r => circle filled (p.map f) (f r)
  | text p centered content => text (p.map f) centered content
  | path filled start segments => path filled (start.map f) (segments.map (TikzSegment.map f))

def Point.real (p : Point Rat) : Point ℝ :=
  ⟨p.x, p.y⟩

/-- The point that a coordinate in units of the text size stands for. -/
noncomputable def Point.ofUnits (p : Point Rat) : Point ℝ :=
  ⟨p.x * (Metrics.textSize : Rat), p.y * (Metrics.textSize : Rat)⟩

/-- Where a segment leads whose lengths are in units of the text size. -/
noncomputable def TikzSegment.leads (pen : Point ℝ) : TikzSegment Rat → Point ℝ
  | line p => p.ofUnits
  | arc fromAngle toAngle radius =>
      let r : ℝ := radius * (Metrics.textSize : Rat)
      ⟨pen.x + r * (chord fromAngle toAngle).x, pen.y + r * (chord fromAngle toAngle).y⟩
  | head _ => pen

/-- The points of a piece whose lengths are in units of the text size. -/
noncomputable def TikzPiece.points : TikzPiece Rat → List (Point ℝ)
  | path _ start segments => segments.scanl TikzSegment.leads start.ofUnits
  | _ => []

theorem ofUnits_map (p : Point Rat) : (p.map (· / Metrics.textSize)).ofUnits = p.real := by
  have hsize : ((Metrics.textSize : Rat) : ℝ) ≠ 0 := by
    norm_num [Metrics.textSize]
  simp [Point.ofUnits, Point.map, Point.real, hsize]

/-- Arcs keep their ways when they are written, except that a picture mistakes up for down. -/
theorem leads_arc (pen : Point ℝ) (radius : Rat) (arc : Arc) :
    ((TikzSegment.arc arc.angles.1 arc.angles.2 radius).map (· / Metrics.textSize)).leads pen =
      ⟨pen.x + radius * (arc.delta : Point Rat).x,
        if arc.leavesLeft then pen.y - radius * (arc.delta : Point Rat).y
        else pen.y + radius * (arc.delta : Point Rat).y⟩ := by
  have hsize : ((Metrics.textSize : Rat) : ℝ) ≠ 0 := by
    norm_num [Metrics.textSize]
  simp only [TikzSegment.map, TikzSegment.leads, chord_angles, Rat.cast_div, div_mul_cancel₀ _ hsize]
  split
  · rw [mul_neg, ← sub_eq_add_neg]
  · rfl

/-- The text of an arc leads to its end unless it mistakes its way. -/
theorem leads_arc_eq_iff (pen : Point Rat) (radius : Rat) (arc : Arc) :
    ((TikzSegment.arc arc.angles.1 arc.angles.2 radius).map (· / Metrics.textSize)).leads pen.real =
        (pen.move ((arc.delta : Point Rat).x * radius) ((arc.delta : Point Rat).y * radius)).real ↔
      (arc.leavesLeft = true → radius = 0) := by
  have hdelta : ((arc.delta : Point Rat).y : ℝ) ≠ 0 := by
    cases arc <;> norm_num [Arc.delta, Arc.heading, Scalar.ofInt]
  have hx : (pen.x : ℝ) + radius * (arc.delta : Point Rat).x =
      pen.x + (arc.delta : Point Rat).x * radius := by
    rw [mul_comm]
  rw [leads_arc]
  cases harc : arc.leavesLeft with
  | false =>
      simp [Point.real, Point.move, mul_comm]
  | true =>
      simp only [Point.real, Point.move, Rat.cast_add, Rat.cast_mul, if_true, Point.mk.injEq, hx,
        true_and, forall_const]
      constructor
      · intro hy
        have hzero : (radius : ℝ) * (arc.delta : Point Rat).y = 0 := by linarith
        exact_mod_cast (mul_eq_zero.mp hzero).resolve_right hdelta
      · rintro rfl
        simp

namespace TikzPath

/-- Where the text so far leads its reader. -/
noncomputable def reader (path : TikzPath Rat) : Point ℝ :=
  (path.segments.reverse.map (TikzSegment.map (· / Metrics.textSize))).foldl TikzSegment.leads
    path.start.real

/-- The text of the path so far, its lengths in units of the text size. -/
def piece (path : TikzPath Rat) : TikzPiece Rat :=
  (TikzPiece.path path.filled path.start path.segments.reverse).map (· / Metrics.textSize)

variable (path : TikzPath Rat) (s : TikzSegment Rat)

theorem reader_segment :
    reader { path with segments := s :: path.segments } =
      (s.map (· / Metrics.textSize)).leads path.reader := by
  simp [reader]

theorem points_segment :
    (piece { path with segments := s :: path.segments }).points =
      path.piece.points ++ [(s.map (· / Metrics.textSize)).leads path.reader] := by
  simp only [piece, reader, TikzPiece.map, TikzPiece.points, ofUnits_map, List.reverse_cons,
    List.map_append, List.scanl_append]
  rfl

end TikzPath

/-- A primitive that does not mislead the reader of a picture: an arc that leaves the way to the left has no
radius. -/
def Primitive.IsPlain (p : Primitive Rat) : Prop :=
  ∀ radius arc, p = .pathArc radius arc → arc.leavesLeft = true → radius = 0

namespace Tikz

/-- The points of everything written so far. -/
noncomputable def points (s : Tikz Rat) : List (Point ℝ) :=
  (s.pieces.toList.map (TikzPiece.map (· / Metrics.textSize))).flatMap TikzPiece.points ++
    s.path.elim [] fun path => path.piece.points

/-- Where the text leads its reader, while a path is open. -/
noncomputable def reader (s : Tikz Rat) : Option (Point ℝ) :=
  s.path.map TikzPath.reader

/-- A picture that keeps track of the pen while a path is open. -/
structure DrawsAt (origin : Point Rat) (pen : Option (Point Rat)) (s : Tikz Rat) : Prop where
  origin : s.origins.current = origin
  pen : s.path.map (fun _ => s.pen) = pen

section Steps

variable {origin : Point Rat} {pen : Option (Point Rat)} {s : Tikz Rat} {p : Primitive Rat}
  {ps : List (Primitive Rat)}

theorem drawsAt_segment {path : TikzPath Rat} (hpath : s.path = some path) (added : TikzSegment Rat) :
    (s.segment added).Settles fun s' =>
      DrawsAt s.origins.current (some s.pen) s' ∧
        s'.reader = some ((added.map (· / Metrics.textSize)).leads path.reader) ∧
        s'.points = s.points ++ s'.reader.toList := by
  rw [segment, hpath]
  have hreader := path.reader_segment added
  refine ⟨rfl, ⟨rfl, rfl⟩, congrArg some hreader, ?_⟩
  rw [points, points, hpath, List.append_assoc]
  refine congrArg _ ((path.points_segment added).trans ?_)
  rw [← hreader]
  rfl

theorem drawsAt_lineTo {path : TikzPath Rat} (hpath : s.path = some path) (pen : Point Rat) :
    (s.lineTo pen).Settles fun s' =>
      DrawsAt s.origins.current (some pen) s' ∧
        s'.reader = some (((TikzSegment.line pen).map (· / Metrics.textSize)).leads path.reader) ∧
        s'.points = s.points ++ s'.reader.toList :=
  drawsAt_segment (s := { s with pen }) hpath _

/-- An arc is added before the pen moves along it. -/
theorem drawsAt_arc {path : TikzPath Rat} (hpath : s.path = some path) (radius : Rat) (arc : Arc) :
    (s.primitive (.pathArc radius arc)).Settles fun s' =>
      DrawsAt s.origins.current (Primitive.track s.origins.current (some s.pen) (.pathArc radius arc)) s' ∧
        s'.reader = some (((TikzSegment.arc arc.angles.1 arc.angles.2 radius).map
          (· / Metrics.textSize)).leads path.reader) ∧
        s'.points = s.points ++ s'.reader.toList := by
  rw [primitive]
  refine Reply.Settles.andThen (drawsAt_segment hpath _) ?_
  rintro s' ⟨⟨horigin, hpen⟩, hreader, hpoints⟩
  obtain ⟨path', hpath', hpen'⟩ := Option.map_eq_some_iff.mp hpen
  refine ⟨rfl, ⟨horigin, ?_⟩, hreader, hpoints⟩
  simp [Reply.ok, hpath', hpen', Primitive.track]

theorem drawsAt_primitive {after : Bool} (h : DrawsAt origin pen s)
    (hp : p.Traces pen.isSome after) :
    (s.primitive p).Settles fun s' =>
      DrawsAt origin (p.track origin pen) s' ∧ s'.points = s.points ++ s'.reader.toList ∧
        (s.reader = pen.map Point.real →
          (s'.reader = (p.track origin pen).map Point.real ↔ p.IsPlain)) := by
  obtain ⟨rfl, rfl⟩ := h
  rw [Option.isSome_map] at hp
  cases hpath : s.path with
  | none =>
      rw [hpath] at hp
      obtain ⟨x, y, style⟩ := hp
      rw [primitive, hpath]
      refine ⟨rfl, ⟨rfl, rfl⟩, ?_, fun _ => ⟨by rintro _ _ _ ⟨⟩, fun _ => rfl⟩⟩
      simp only [points, hpath, Option.elim_none, List.append_nil]
      refine congrArg _ ?_
      exact congrArg ([·]) (ofUnits_map _)
  | some path =>
      rw [hpath] at hp
      cases hp with
      | horizontal x | vertical y =>
          obtain ⟨hfault, hdraws, hreader, hpoints⟩ := drawsAt_lineTo hpath _
          refine ⟨hfault, hdraws, hpoints, fun _ => ⟨by rintro _ _ _ ⟨⟩, fun _ => ?_⟩⟩
          exact hreader.trans (congrArg some (ofUnits_map _))
      | arc radius arc =>
          obtain ⟨hfault, hdraws, hreader, hpoints⟩ := drawsAt_arc hpath radius arc
          refine ⟨hfault, hdraws, hpoints, fun hbefore => ?_⟩
          have hpen : path.reader = s.pen.real := by
            simpa [reader, hpath] using hbefore
          rw [hpen] at hreader
          -- The reader has followed the pen so far, and goes on to do so iff this arc does not mislead it.
          have hiff := Option.some_inj.trans (leads_arc_eq_iff s.pen radius arc)
          rw [← hreader] at hiff
          refine hiff.trans ?_
          constructor
          · rintro hturn _ _ ⟨⟩
            exact hturn
          · exact fun hplain => hplain radius arc rfl
      | ends =>
          rw [primitive, hpath]
          refine ⟨rfl, ⟨rfl, rfl⟩, ?_, fun _ => ⟨by rintro _ _ _ ⟨⟩, fun _ => rfl⟩⟩
          simp [points, hpath, write, Reply.ok, reader, TikzPath.piece]

theorem tells (origin : Point Rat) : Tells primitive origin fun pen _ => DrawsAt origin pen where
  next h hp :=
    have hnext := drawsAt_primitive h hp
    ⟨hnext.1, hnext.2.1⟩

/-- A reader and a pen that begin one list stand at one place. -/
theorem reader_eq_of_told (h : DrawsAt origin pen s) {more : List (Point ℝ)}
    (htold : s.reader.toList <+: pen.toList.map Point.real ++ more) :
    s.reader = pen.map Point.real := by
  obtain ⟨-, rfl⟩ := h
  rw [reader] at htold ⊢
  cases hpath : s.path with
  | none => rfl
  | some path =>
      rw [hpath] at htold
      exact congrArg some (List.cons_prefix_cons.mp htold).1

theorem told_of_sendAll (h : DrawsAt origin pen s) (hps : Tracing pen.isSome ps) :
    s.points <+: (sendAll primitive s ps).state.points := by
  induction ps generalizing pen s with
  | nil => exact List.prefix_rfl
  | cons p ps ih =>
      obtain - | ⟨hp, hps⟩ := hps
      rw [← hp.isSome_track origin] at hps
      obtain ⟨hfault, hdraws, hpoints, -⟩ := drawsAt_primitive h hp
      rw [sendAll, Reply.andThen, hfault]
      refine List.IsPrefix.trans ?_ (ih hdraws hps)
      rw [hpoints]
      exact List.prefix_append _ _

/-- A picture tells the curve exactly if no arc misleads its reader. -/
theorem points_sendAll_iff (h : DrawsAt origin pen s) (hreader : s.reader = pen.map Point.real)
    (hps : Tracing pen.isSome ps) :
    (sendAll primitive s ps).state.points = s.points ++ (tracks origin pen ps).map Point.real ↔
      ∀ p ∈ ps, p.IsPlain := by
  induction ps generalizing pen s with
  | nil => simp [sendAll, Reply.ok, tracks]
  | cons p ps ih =>
      obtain - | ⟨hp, hps⟩ := hps
      rw [← hp.isSome_track origin] at hps
      obtain ⟨hfault, hdraws, hpoints, hplain⟩ := drawsAt_primitive h hp
      rw [sendAll, Reply.andThen, hfault, List.forall_mem_cons, ← hplain hreader, tracks,
        List.map_append, ← List.append_assoc]
      by_cases hnext : (s.primitive p).state.reader = (p.track origin pen).map Point.real
      · rw [← ih hdraws hnext hps, hpoints, hnext]
        cases p.track origin pen <;> simp
      · -- A point that is told wrong stays wrong, since what follows only adds points.
        refine ⟨fun hall => absurd ?_ hnext, fun hall => absurd hall.1 hnext⟩
        have htold := told_of_sendAll hdraws hps
        rw [hall, hpoints, List.append_assoc, List.prefix_append_right_inj] at htold
        exact reader_eq_of_told hdraws htold

end Steps

end Tikz

/-- Whatever paths are drawn from one origin, a document and a painter tell the same points, and a picture
tells them exactly if every arc that leaves the way to the left has no radius. -/
theorem points_agree_iff {svg : Svg Rat} {tikz : Tikz Rat} {png : Png Rat}
    {ps : List (Primitive Rat)} (hsvg : svg.path = none) (htikz : tikz.path = none)
    (hpng : png.pen = none) (hdrawing : png.drawing = true)
    (hsvgOrigin : svg.origins.current = png.origins.current)
    (htikzOrigin : tikz.origins.current = png.origins.current) (hps : Tracing false ps) :
    (sendAll Png.primitive png ps).fault = none ∧
      (sendAll Svg.primitive svg ps).Settles (fun s => s.points = svg.points ++ png.places ps) ∧
      (sendAll Tikz.primitive tikz ps).Settles fun s =>
        (s.points = tikz.points ++ (png.places ps).map Point.real ↔
          ∀ radius arc, .pathArc radius arc ∈ ps → arc = .leftUp ∨ arc = .leftDown → radius = 0) := by
  have hdrawn : Png.DrawsAt png.origins.current none png := ⟨hdrawing, rfl, hpng⟩
  have hpicture : Tikz.DrawsAt png.origins.current none tikz := ⟨htikzOrigin, by rw [htikz]; rfl⟩
  have hdocument : Svg.TellsOf png.origins.current none svg.points svg :=
    ⟨hsvgOrigin, by rw [hsvg]; rfl, rfl⟩
  have hclosed : Tracing (none : Option (Point Rat)).isSome ps := hps
  have hplaces := Png.places_eq_tracks hdrawn hclosed
  refine ⟨((Png.tells _).sendAll [] hclosed hdrawn).1, ?_, ?_⟩
  · obtain ⟨hfault, _, hs⟩ := (Svg.tells _).sendAll _ hclosed hdocument
    refine ⟨hfault, ?_⟩
    rw [hplaces]
    exact hs.points
  · refine ⟨((Tikz.tells _).sendAll [] hclosed hpicture).1, ?_⟩
    have hreader : tikz.reader = (none : Option (Point Rat)).map Point.real := by
      rw [Tikz.reader, htikz]
      rfl
    rw [hplaces]
    refine (Tikz.points_sendAll_iff hpicture hreader hclosed).trans ⟨?_, ?_⟩
    · intro hplain radius arc hmem hleaves
      exact hplain _ hmem radius arc rfl (by simpa [Arc.leavesLeft] using hleaves)
    · rintro hradius _ hmem radius arc rfl hleaves
      exact hradius radius arc hmem (by simpa [Arc.leavesLeft] using hleaves)

/-- A document, a picture and a painter's diagram from one place. -/
def blankSheets : Svg Rat × Tikz Rat × Png Rat :=
  (((Svg.start ⟨none, true, none⟩).primitive (.pushTranslate ⟨5, 7⟩)).state,
    ((Tikz.start ⟨"Figure", "fig:picture"⟩).primitive (.pushTranslate ⟨5, 7⟩)).state,
    ((Png.start ⟨2, 5, 1, 16⟩).primitive (.beginDiagram 0 (-2) 90 40 "rule")).state)

/-- A path with a turn to the left and one off from there, and a line after it. -/
theorem points_agree_iff_of_turns :
    let sheets := blankSheets
    let ps : List (Primitive Rat) :=
      [.pathBegin 0 0 .line, .pathHTo 20, .pathArc 10 .rightDown, .pathVTo 30, .pathArc 10 .downLeft,
        .pathArc 10 .leftUp, .pathVTo 5, .pathEnd]
    (sheets.1.path = none ∧ sheets.2.1.path = none ∧ sheets.2.2.pen = none ∧
      sheets.2.2.drawing = true ∧ Tracing false ps) ∧
    (sendAll Png.primitive sheets.2.2 ps).fault = none ∧
      (sendAll Svg.primitive sheets.1 ps).Settles
        (fun s => s.points = sheets.1.points ++ sheets.2.2.places ps) ∧
      (sendAll Tikz.primitive sheets.2.1 ps).Settles fun s =>
        (s.points = sheets.2.1.points ++ (sheets.2.2.places ps).map Point.real ↔
          ∀ radius arc, .pathArc radius arc ∈ ps → arc = .leftUp ∨ arc = .leftDown → radius = 0) := by
  intro sheets ps
  have hps : Tracing false ps :=
    .cons (.begins ..) <| .cons (.horizontal _) <| .cons (.arc ..) <| .cons (.vertical _) <|
      .cons (.arc ..) <| .cons (.arc ..) <| .cons (.vertical _) <| .cons .ends (.nil false)
  have hpen : sheets.2.2.pen = none := by decide +kernel
  have hdrawing : sheets.2.2.drawing = true := by decide +kernel
  have hsvg : sheets.1.origins.current = sheets.2.2.origins.current := by decide +kernel
  have htikz : sheets.2.1.origins.current = sheets.2.2.origins.current := by decide +kernel
  exact ⟨⟨rfl, rfl, hpen, hdrawing, hps⟩, points_agree_iff rfl rfl hpen hdrawing hsvg htikz hps⟩

/-- Where the way up from the left ends: a document and a painter say above, a picture says below. -/
theorem picture_misleads :
    let sheets := blankSheets
    let ps : List (Primitive Rat) := [.pathBegin 0 0 .line, .pathArc 24 .leftUp, .pathEnd]
    Tracing false ps ∧
      (sendAll Svg.primitive sheets.1 ps).state.points = [⟨5, 7⟩, ⟨-19, -17⟩] ∧
      sheets.2.2.places ps = [⟨5, 7⟩, ⟨-19, -17⟩] ∧
      (sendAll Tikz.primitive sheets.2.1 ps).state.points = [⟨5, 7⟩, ⟨-19, 31⟩] ∧
      (sendAll Tikz.primitive sheets.2.1 ps).state.points ≠ (sheets.2.2.places ps).map Point.real := by
  intro sheets ps
  have hplaces : sheets.2.2.places ps = [⟨5, 7⟩, ⟨-19, -17⟩] := by decide +kernel
  have hpoints : (sendAll Tikz.primitive sheets.2.1 ps).state.points = [⟨5, 7⟩, ⟨-19, 31⟩] := by
    have hpieces : (sendAll Tikz.primitive sheets.2.1 ps).state.pieces =
        #[.path false ⟨5, 7⟩ [.arc (-90) (-180) 24]] := by
      decide +kernel
    have hpath : (sendAll Tikz.primitive sheets.2.1 ps).state.path = none := rfl
    rw [Tikz.points, hpieces, hpath]
    simp only [List.map_cons, List.map_nil, TikzPiece.map, List.flatMap_cons, List.flatMap_nil,
      TikzPiece.points, ofUnits_map]
    norm_num [TikzSegment.map, TikzSegment.leads, chord, Point.real, Metrics.textSize]
  refine ⟨.cons (.begins ..) (.cons (.arc ..) (.cons .ends (.nil false))), by decide +kernel, hplaces,
    hpoints, ?_⟩
  rw [hpoints, hplaces]
  norm_num [Point.real]

end Railroad
