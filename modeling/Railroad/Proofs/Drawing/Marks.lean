import Railroad.Proofs.Drawing.Verticals
/-!
The points that a drawing marks: the places that the pen comes to, the corners of arrowheads and of
rectangles, and those of the square around a circle.  Texts mark nothing.
-/
namespace Railroad

section Marks

variable {α : Type} [Scalar α]

/-- The points that a primitive marks that is drawn with a pen. -/
def Primitive.marks (pen : Point α) : Primitive α → List (Point α)
  | pathBegin x y _ => [⟨x, y⟩]
  | pathHTo x => [pen.withX x]
  | pathVTo y => [pen.withY y]
  | pathArc radius arc => [(pathArc radius arc).penAfter pen]
  | pathArrowLeft size => [pen, pen.move size (size / 2), pen.move size (-size / 2)]
  | pathArrowRight size => [pen, pen.move (-size) (size / 2), pen.move (-size) (-size / 2)]
  | pathArrowDown size => [pen, pen.move (size / 2) (-size), pen.move (-size / 2) (-size)]
  | rectangle x y w h _ | roundedRectangle x y w h _ => [⟨x, y⟩, ⟨x + w, y + h⟩]
  | circle x y r _ => [⟨x - r, y - r⟩, ⟨x + r, y + r⟩]
  | _ => []

/-- The points that primitives mark, one after another, from a place of the pen on. -/
def marks (pen : Point α) : List (Primitive α) → List (Point α)
  | [] => []
  | p :: ps => p.marks pen ++ marks (p.penNext pen) ps

/-- Where primitives leave the pen. -/
def penLast (pen : Point α) : List (Primitive α) → Point α
  | [] => pen
  | p :: ps => penLast (p.penNext pen) ps

/-- The points that a call marks. -/
def Call.marks (c : Call α) : List (Point α) :=
  c.primitives.toOption.elim [] (Railroad.marks .zero)

/-- A primitive told from another origin. -/
def Primitive.moveBy (δ : Point α) : Primitive α → Primitive α
  | rectangle x y w h style => rectangle (x + δ.x) (y + δ.y) w h style
  | roundedRectangle x y w h style => roundedRectangle (x + δ.x) (y + δ.y) w h style
  | circle x y r style => circle (x + δ.x) (y + δ.y) r style
  | text x y w h content style => text (x + δ.x) (y + δ.y) w h content style
  | centeredText x y w h content style => centeredText (x + δ.x) (y + δ.y) w h content style
  | pathBegin x y style => pathBegin (x + δ.x) (y + δ.y) style
  | pathHTo x => pathHTo (x + δ.x)
  | pathVTo y => pathVTo (y + δ.y)
  | p => p

/-- The origins in force after a primitive. -/
def Origins.after (o : Origins α) : Primitive α → Origins α
  | .pushTranslate origin => o.push origin
  | .popTranslate => o.pop.toOption.getD o
  | _ => o

/-- The points that primitives mark, as absolute points: an absolute pen goes from primitive to primitive,
while origins are pushed and dropped. -/
def marked (o : Origins α) (pen : Point α) : List (Primitive α) → List (Point α)
  | [] => []
  | p :: ps =>
      let p' := p.moveBy o.current
      p'.marks pen ++ marked (o.after p) (p'.penNext pen) ps

end Marks

section Turns

variable {α : Type} [Scalar α]

@[simp] theorem marks_nil (pen : Point α) : marks pen [] = [] := rfl

@[simp] theorem marks_cons (pen : Point α) (p : Primitive α) (ps : List (Primitive α)) :
    marks pen (p :: ps) = p.marks pen ++ marks (p.penNext pen) ps := rfl

@[simp] theorem marks_pathHTo (pen : Point α) (x : α) :
    (Primitive.pathHTo x).marks pen = [⟨x, pen.y⟩] := rfl

@[simp] theorem marks_pathVTo (pen : Point α) (y : α) :
    (Primitive.pathVTo y).marks pen = [⟨pen.x, y⟩] := rfl

@[simp] theorem penNext_pathHTo (pen : Point α) (x : α) :
    (Primitive.pathHTo x).penNext pen = ⟨x, pen.y⟩ := rfl

@[simp] theorem penNext_pathVTo (pen : Point α) (y : α) :
    (Primitive.pathVTo y).penNext pen = ⟨pen.x, y⟩ := rfl

theorem marks_pathArc (pen : Point α) (radius : α) (arc : Arc) :
    (Primitive.pathArc radius arc).marks pen = [(Primitive.pathArc radius arc).penNext pen] := rfl

theorem penNext_pathArc (pen : Point Rat) (radius : Rat) (arc : Arc) :
    (Primitive.pathArc radius arc).penNext pen =
      ⟨if arc.heading.1 then pen.x + radius else pen.x - radius,
        if arc.heading.2 then pen.y + radius else pen.y - radius⟩ := by
  change (Primitive.pathArc radius arc).penAfter pen = _
  rw [penAfter_pathArc]
  cases arc <;> simp [Point.move, Arc.heading, sub_eq_add_neg]

end Turns

section Moves

variable (δ pen : Point Rat)

theorem Primitive.marks_moveBy (p : Primitive Rat) :
    (p.moveBy δ).marks (pen.translate δ) = (p.marks pen).map (·.translate δ) := by
  cases p with
  | pathArc => simp [moveBy, marks, Point.move, Point.translate, add_right_comm]
  | pathArrowLeft | pathArrowRight | pathArrowDown =>
      simp [moveBy, marks, Point.move, Point.translate, add_right_comm]
  | rectangle | roundedRectangle => simp [moveBy, marks, Point.translate, add_right_comm]
  | circle => simp [moveBy, marks, Point.translate, add_right_comm, sub_eq_add_neg]
  | _ => rfl

theorem Primitive.penNext_moveBy (p : Primitive Rat) :
    (p.moveBy δ).penNext (pen.translate δ) = (p.penNext pen).translate δ := by
  cases p with
  | pathArc => simp [moveBy, penNext, Point.move, Point.translate, add_right_comm]
  | _ => rfl

end Moves

section Alone

variable {α : Type} [Scalar α] {ps qs : List (Primitive α)}

theorem marks_append (pen : Point α) :
    marks pen (ps ++ qs) = marks pen ps ++ marks (penLast pen ps) qs := by
  induction ps generalizing pen with
  | nil => rfl
  | cons p ps ih => rw [List.cons_append, marks, ih, marks, penLast, List.append_assoc]

/-- Primitives that leave the origins alone and use no pen but their own. -/
structure StandAlone (ps : List (Primitive α)) : Prop where
  still : ∀ p ∈ ps, (Call.primitive p).isStill = true
  marks : ∀ pen pen', Railroad.marks pen ps = Railroad.marks pen' ps

theorem StandAlone.append (h : StandAlone ps) (h' : StandAlone qs) : StandAlone (ps ++ qs) where
  still := List.forall_mem_append.mpr ⟨h.still, h'.still⟩
  marks pen pen' := by
    rw [marks_append, marks_append, h.marks pen pen', h'.marks (penLast pen ps) (penLast pen' ps)]

theorem IsPath.standAlone (h : IsPath ps) : StandAlone ps := by
  cases h with
  | intro x y style hsegments =>
      refine ⟨?_, fun pen pen' => rfl⟩
      simp only [List.cons_append, List.forall_mem_cons, List.forall_mem_append]
      refine ⟨rfl, fun s hs => ?_, rfl, by simp⟩
      have hsegment := hsegments s hs
      cases s with
      | pushTranslate | popTranslate => cases hsegment
      | _ => rfl

theorem Composite.exists_standAlone {c : Composite α} (h : c.isSupported = true) :
    ∃ ps, c.primitives = .ok ps ∧ StandAlone ps := by
  obtain ⟨ps, hps, hpath⟩ := exists_strokes h
  rw [primitives, hps]
  cases hshaft : c.shaft? with
  | none => exact ⟨ps, rfl, hpath.standAlone⟩
  | some l =>
      obtain ⟨qs, hqs, hpath'⟩ := exists_strokes (isSupported_shaft hshaft)
      refine ⟨qs ++ ps, ?_, hpath'.standAlone.append hpath.standAlone⟩
      simp only [hqs]
      rfl

/-- A call that needs no path but its own. -/
def Call.isWhole : Call α → Bool
  | primitive p => !p.isSegment
  | composite c => c.isSupported

omit [Scalar α] in
theorem Keeps.isWhole {cs : List (Call α)} (h : Keeps cs) : ∀ c ∈ cs, c.isWhole = true := by
  induction h with
  | nil => simp
  | @mark c cs hc _ ih =>
      refine List.forall_mem_cons.mpr ⟨?_, ih⟩
      cases c with
      | composite => exact hc
      | primitive p =>
          cases p with
          | rectangle | roundedRectangle | circle | text | centeredText => rfl
          | _ => cases hc
  | frame _ _ _ ih ih' | link _ _ _ ih ih' =>
      rw [List.cons_append, List.forall_mem_cons, List.forall_mem_append, List.forall_mem_cons]
      exact ⟨rfl, ih, rfl, ih'⟩

theorem Origins.after_of_isStill {o : Origins α} {p : Primitive α}
    (h : (Call.primitive p).isStill = true) : o.after p = o := by
  cases p with
  | pushTranslate | popTranslate => cases h
  | _ => rfl

theorem Scope.origins_after (σ : Scope α) (p : Primitive α) :
    (σ.after (.call (.primitive p))).origins = σ.origins.after p := by
  cases p with
  | popTranslate =>
      rw [after, Origins.after, pop]
      cases σ.origins.pop <;> rfl
  | _ => rfl

end Alone

section Events

/-- While the origins stay the absolute points are the local ones elsewhere. -/
theorem marked_append {ps qs : List (Primitive Rat)} (o : Origins Rat) (pen : Point Rat)
    (h : ∀ p ∈ ps, (Call.primitive p).isStill = true) :
    marked o (pen.translate o.current) (ps ++ qs) =
      (marks pen ps).map (·.translate o.current) ++
        marked o ((penLast pen ps).translate o.current) qs := by
  induction ps generalizing pen with
  | nil => rfl
  | cons p ps ih =>
      rw [List.forall_mem_cons] at h
      rw [List.cons_append, marked, Origins.after_of_isStill h.1, Primitive.penNext_moveBy,
        Primitive.marks_moveBy, ih _ h.2, marks, penLast, List.map_append, List.append_assoc]

/-- A call that needs no path but its own marks the same points wherever the pen is. -/
theorem Call.exists_marked {c : Call Rat} (hc : c.isWhole = true) : ∃ ps, c.primitives = .ok ps ∧
    ∀ (σ : Scope Rat) (pen : Point Rat) (qs : List (Primitive Rat)), ∃ pen',
      marked σ.origins pen (ps ++ qs) = c.marks.map (·.translate σ.origins.current) ++
        marked (σ.after (.call c)).origins pen' qs := by
  cases c with
  | primitive p =>
      refine ⟨[p], rfl, fun σ pen qs => ⟨(p.moveBy σ.origins.current).penNext pen, ?_⟩⟩
      rw [List.singleton_append, marked, Scope.origins_after]
      congr 1
      have hself : p.marks pen = p.marks (pen.minus σ.origins.current) := by
        cases p with
        | pathHTo | pathVTo | pathArc | pathArrowLeft | pathArrowRight | pathArrowDown => cases hc
        | _ => rfl
      have hhome : pen = (pen.minus σ.origins.current).translate σ.origins.current := by
        ext <;> simp
      have hmarks : Call.marks (.primitive p) = p.marks (pen.minus σ.origins.current) := by
        cases p with
        | pathHTo | pathVTo | pathArc | pathArrowLeft | pathArrowRight | pathArrowDown => cases hc
        | _ => rfl
      rw [hmarks, ← Primitive.marks_moveBy, ← hhome]
  | composite c =>
      obtain ⟨ps, hps, hstill, hmarks⟩ := Composite.exists_standAlone hc
      refine ⟨ps, hps, fun σ pen qs => ?_⟩
      have hhome : pen = (pen.minus σ.origins.current).translate σ.origins.current := by
        ext <;> simp
      have hown : Call.marks (.composite c) = Railroad.marks .zero ps := by
        rw [Call.marks, Call.primitives, hps]
        rfl
      rw [hhome, marked_append _ _ hstill, hown, hmarks _ .zero]
      exact ⟨_, rfl⟩

/-- Every absolute point that events mark is marked by a call that is seen, in the frame that is in force at
it. -/
theorem exists_sight_of_mem_marked {es : List (Event Rat)} {pss : List (List (Primitive Rat))}
    {p : Point Rat} (hwhole : ∀ c ∈ callsOf es, c.isWhole = true) (σ : Scope Rat) (pen : Point Rat)
    (h : (callsOf es).mapM Call.primitives = .ok pss) (hp : p ∈ marked σ.origins pen pss.flatten) :
    ∃ ρ c, (ρ, .call c) ∈ sights σ es ∧ ∃ q ∈ c.marks, q.translate ρ.origins.current = p := by
  induction es generalizing σ pen pss with
  | nil =>
      cases h
      cases hp
  | cons e es ih =>
      have hlater : (∃ ρ c, (ρ, .call c) ∈ sights (σ.after e) es ∧
          ∃ q ∈ c.marks, q.translate ρ.origins.current = p) → ∃ ρ c, (ρ, .call c) ∈ sights σ (e :: es) ∧
            ∃ q ∈ c.marks, q.translate ρ.origins.current = p := by
        rintro ⟨ρ, c, hc, hq⟩
        rw [mem_sights_iff] at hc
        exact ⟨ρ, c, mem_sights_iff.mpr ⟨List.mem_cons_of_mem _ hc.1, hc.2⟩, hq⟩
      cases e with
      | call c =>
          obtain ⟨ps, qss, hps, hqss, rfl⟩ := exists_of_mapM_cons h
          rw [show callsOf (.call c :: es) = c :: callsOf es from rfl, List.forall_mem_cons] at hwhole
          obtain ⟨ps', hps', hmarked⟩ := Call.exists_marked hwhole.1
          obtain rfl : ps' = ps := Except.ok.inj (hps'.symm.trans hps)
          obtain ⟨pen', hpen⟩ := hmarked σ pen qss.flatten
          rw [List.flatten_cons, hpen] at hp
          rcases List.mem_append.mp hp with hp | hp
          · obtain ⟨q, hq, rfl⟩ := List.mem_map.mp hp
            refine ⟨σ, c, mem_sights_iff.mpr ⟨List.mem_cons_self, ?_⟩, q, hq, rfl⟩
            cases c with
            | composite => rfl
            | primitive p =>
                cases p with
                | pushTranslate | popTranslate => cases hq
                | _ => rfl
          · exact hlater (ih hwhole.2 _ pen' hqss hp)
      | enter | leave | rail | fault => exact hlater (ih hwhole _ pen h hp)

end Events

end Railroad
