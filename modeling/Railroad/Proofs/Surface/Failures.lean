import Railroad.Proofs.Surface.Tracing
import Railroad.Surface.Settings
/-!
Documents do not remember what went wrong.  A call that is refused writes nothing and leaves the origins as
they are, and the calls after it come to the same as if it had not been made.

A picture keeps one thing of a refused call, the place of its pen.  Nothing is drawn from there before a path
begins, which moves the pen.
-/
namespace Railroad

/-- The calls among some that nothing went wrong in. -/
def successful {β : Type} (cs : List β) (faults : List (Option SurfaceFault)) : List β :=
  (cs.zip faults).filterMap fun p => if p.2.isNone then some p.1 else none

/-- An output that does not remember what went wrong, up to an equivalence of its states: those that are the
same answer alike, and a call that goes wrong leads to a state that is the same as before. -/
structure Forgets {σ β : Type} (step : σ → β → Reply σ) (Same : σ → σ → Prop) : Prop where
  same : Equivalence Same
  agrees : ∀ {s s'} b, Same s s' → (step s b).Agrees Same (step s' b)
  failed : ∀ {s b fault}, (step s b).fault = some fault → Same s (step s b).state

section Runs

variable {σ β : Type} {step : σ → β → Reply σ} {Same : σ → σ → Prop} {s s' : σ}

theorem successful_cons_none (c : β) (cs : List β) (faults : List (Option SurfaceFault)) :
    successful (c :: cs) (none :: faults) = c :: successful cs faults := rfl

theorem successful_cons_some (c : β) (cs : List β) (fault : SurfaceFault)
    (faults : List (Option SurfaceFault)) :
    successful (c :: cs) (some fault :: faults) = successful cs faults := rfl

/-- Without the calls that went wrong, nothing goes wrong and all else is the same. -/
theorem Forgets.sendEach (h : Forgets step Same) (hs : Same s s') (cs : List β) :
    let all := sendEach step s cs
    let kept := sendEach step s' (successful cs all.faults)
    (∀ f ∈ kept.faults, f = none) ∧ Same all.state kept.state := by
  induction cs generalizing s s' with
  | nil => exact ⟨by simp [successful, Railroad.sendEach], hs⟩
  | cons c cs ih =>
      rw [Railroad.sendEach]
      cases hfault : (step s c).fault with
      | some fault =>
          simp only [successful_cons_some]
          exact ih (h.same.trans (h.same.symm (h.failed hfault)) hs)
      | none =>
          obtain ⟨hsame, hstate⟩ := h.agrees c hs
          simp only [successful_cons_none, Railroad.sendEach, List.forall_mem_cons]
          obtain ⟨hnone, hlast⟩ := ih hstate
          exact ⟨⟨hsame.symm.trans hfault, hnone⟩, hlast⟩

end Runs

section Composites

variable {α σ β : Type} [Scalar α] {step : σ → Primitive α → Reply σ} {path : σ → Option β}
  {origins : σ → Origins α} {Same : σ → σ → Prop} {s : σ} {c : Composite α}

omit [Scalar α] in
/-- An output refuses to begin a path inside of another. -/
def KeepsPath (step : σ → Primitive α → Reply σ) (path : σ → Option β) : Prop :=
  ∀ s x y style, (path s).isSome = true → step s (.pathBegin x y style) = .wrong s .pathOpen

/-- What a composite is drawn by, if it has a shape, begins with the start of a path. -/
theorem Composite.exists_begin {ps : List (Primitive α)} (h : c.primitives = .ok ps) :
    c.isSupported = true ∧ ∃ x y style qs, ps = .pathBegin x y style :: qs := by
  obtain ⟨hsupported, shaft, strokes, rfl, hshaft, ⟨x, y, style, -⟩⟩ := paths_of_primitives h
  refine ⟨hsupported, ?_⟩
  obtain rfl | ⟨x', y', style', -⟩ := hshaft
  · exact ⟨x, y, style, _, rfl⟩
  · exact ⟨x', y', style', _, rfl⟩

/-- A composite that is refused has not begun: it has no shape, or a path is open already. -/
theorem DrawsPaths.state_of_fault (h : DrawsPaths step path origins) (hkeeps : KeepsPath step path)
    {fault : SurfaceFault} (hfault : (sendCall step s (.composite c)).fault = some fault) :
    (sendCall step s (.composite c)).state = s := by
  cases hps : c.primitives with
  | error refused =>
      rw [sendCall, Call.primitives, hps]
      rfl
  | ok ps =>
      obtain ⟨hsupported, x, y, style, qs, rfl⟩ := Composite.exists_begin hps
      cases hpath : path s with
      | some p =>
          rw [sendCall, Call.primitives, hps]
          change (sendAll step s (.pathBegin x y style :: qs)).state = s
          rw [sendAll, hkeeps s x y style (by rw [hpath]; rfl)]
          rfl
      | none =>
          have hdrawn := h.obeys.sendCall.mark (i := origins s) (s := s) (c := .composite c)
            ⟨hpath, rfl⟩ hsupported
          exact absurd (hfault.symm.trans hdrawn.1) (by simp)

theorem Forgets.sendCall (h : Forgets step Same) (hdraws : DrawsPaths step path origins)
    (hkeeps : KeepsPath step path) : Forgets (sendCall step) Same where
  same := h.same
  agrees c hs := by
    rw [Railroad.sendCall, Railroad.sendCall]
    cases c.primitives with
    | error fault => exact ⟨rfl, hs⟩
    | ok ps => exact sendAll_agrees (fun p _ _ _ => h.agrees p) hs
  failed {s c fault} hfault := by
    cases c with
    | primitive p =>
        rw [sendCall_primitive] at hfault ⊢
        exact h.failed hfault
    | composite c =>
        rw [hdraws.state_of_fault hkeeps hfault]
        exact h.same.refl s

end Composites

section Documents

variable {α : Type}

/-- Pictures that differ in nothing, or in nothing but the pen while no path is open. -/
inductive Tikz.SamePicture (s : Tikz α) : Tikz α → Prop
  | same : SamePicture s s
  | moved (hpath : s.path = none) (pen : Point α) : SamePicture s { s with pen }

variable [Scalar α]

omit [Scalar α] in
theorem Svg.state_of_segment {s : Svg α} {added : SvgSegment α} {fault : SurfaceFault}
    (hfault : (s.segment added).fault = some fault) : (s.segment added).state = s := by
  rw [segment] at hfault ⊢
  cases hpath : s.path with
  | none => rfl
  | some path =>
      rw [hpath] at hfault
      cases hfault

theorem Svg.forgets : Forgets (Svg.primitive (α := α)) Eq where
  same := ⟨fun _ => rfl, Eq.symm, Eq.trans⟩
  agrees p hs := by
    subst hs
    exact ⟨rfl, rfl⟩
  failed {s p fault} hfault := by
    cases p with
    | pathHTo | pathVTo | pathArc | pathArrowLeft | pathArrowRight | pathArrowDown =>
        exact (state_of_segment hfault).symm
    | popTranslate | endDiagram =>
        rw [primitive] at hfault ⊢
        cases hpop : s.origins.pop with
        | error fault => rfl
        | ok origins =>
            rw [hpop] at hfault
            cases hfault
    | pathBegin | pathEnd =>
        rw [primitive] at hfault ⊢
        split at hfault
        · rfl
        · cases hfault
    | openDocument | closeDocument =>
        rw [primitive] at hfault
        split at hfault <;> cases hfault
    | _ => cases hfault

omit [Scalar α] in
theorem Tikz.path_of_segment {s : Tikz α} {added : TikzSegment α} {fault : SurfaceFault}
    (hfault : (s.segment added).fault = some fault) :
    s.path = none ∧ (s.segment added).state = s := by
  rw [segment] at hfault ⊢
  cases hpath : s.path with
  | none => exact ⟨rfl, rfl⟩
  | some path =>
      rw [hpath] at hfault
      cases hfault

omit [Scalar α] in
theorem Tikz.equivalence_samePicture : Equivalence (SamePicture (α := α)) where
  refl _ := .same
  symm {s _} h := by
    cases h with
    | same => exact .same
    | moved hpath pen => exact .moved (s := { s with pen }) hpath s.pen
  trans h h' := by
    cases h with
    | same => exact h'
    | moved hpath pen =>
        cases h' with
        | same => exact .moved hpath pen
        | moved _ pen' => exact .moved hpath pen'

/-- While no path is open, the pen bears on nothing but itself. -/
theorem Tikz.agrees_moved {s : Tikz α} (hpath : s.path = none) (pen : Point α) (p : Primitive α) :
    (s.primitive p).Agrees SamePicture ({ s with pen }.primitive p) := by
  obtain ⟨options, origins, pieces, path, _⟩ := s
  obtain rfl : path = none := hpath
  cases p with
  | pathBegin => exact ⟨rfl, .same⟩
  | popTranslate | endDiagram =>
      rw [primitive, primitive]
      cases origins.pop <;> exact ⟨rfl, .moved rfl pen⟩
  | _ => exact ⟨rfl, .moved rfl _⟩

theorem Tikz.forgets : Forgets (Tikz.primitive (α := α)) SamePicture where
  same := equivalence_samePicture
  agrees p hs := by
    cases hs with
    | same => exact ⟨rfl, .same⟩
    | moved hpath pen => exact agrees_moved hpath pen p
  failed {s p fault} hfault := by
    cases p with
    | pathHTo | pathVTo =>
        obtain ⟨hpath, hstate⟩ := path_of_segment hfault
        rw [primitive, lineTo, hstate]
        exact .moved (s := s) hpath _
    | pathArc radius arc =>
        rw [primitive, Reply.andThen] at hfault ⊢
        cases hsegment : (s.segment (.arc arc.angles.1 arc.angles.2 radius)).fault with
        | none =>
            rw [hsegment] at hfault
            cases hfault
        | some refused =>
            rw [(path_of_segment hsegment).2]
            exact .same
    | pathArrowLeft | pathArrowRight | pathArrowDown =>
        rw [primitive, (path_of_segment hfault).2]
        exact .same
    | popTranslate | endDiagram =>
        rw [primitive] at hfault ⊢
        cases hpop : s.origins.pop with
        | error fault => exact .same
        | ok origins =>
            rw [hpop] at hfault
            cases hfault
    | pathBegin | pathEnd =>
        rw [primitive] at hfault ⊢
        split at hfault
        · exact .same
        · cases hfault
    | _ => cases hfault

theorem Svg.keepsPath : KeepsPath (Svg.primitive (α := α)) Svg.path := by
  intro s x y style hpath
  obtain ⟨path, hpath⟩ := Option.isSome_iff_exists.mp hpath
  rw [primitive, hpath]

theorem Tikz.keepsPath : KeepsPath (Tikz.primitive (α := α)) Tikz.path := by
  intro s x y style hpath
  obtain ⟨path, hpath⟩ := Option.isSome_iff_exists.mp hpath
  rw [primitive, hpath]

end Documents

/-- Outputs that write a document: SVG, an HTML page, or TikZ. -/
def Surface.isDocument {α : Type} : Surface α → Bool
  | svg _ | tikz _ => true
  | _ => false

/-- A document is a machine that forgets what went wrong, seen by its text and its origins. -/
theorem Surface.exists_forgets {s : Surface Float} (hs : s.isDocument = true) :
    ∃ (σ : Type) (step : σ → Call Float → Reply σ) (Same : σ → σ → Prop) (view : σ → Surface Float)
      (t : σ), view t = s ∧ Forgets step Same ∧ (∀ t c, (view t).call c = (step t c).map view) ∧
        ∀ t t', Same t t' →
          (view t').document = (view t).document ∧ (view t').origins = (view t).origins := by
  cases s with
  | svg s =>
      refine ⟨_, _, _, svg, s, rfl, Svg.forgets.sendCall Svg.drawsPaths Svg.keepsPath, ?_, ?_⟩
      · intro t c
        rw [call_eq rfl]
        exact sendCall_map (fun _ _ => rfl) t c
      · rintro t _ rfl
        exact ⟨rfl, rfl⟩
  | tikz s =>
      refine ⟨_, _, _, tikz, s, rfl, Tikz.forgets.sendCall Tikz.drawsPaths Tikz.keepsPath, ?_, ?_⟩
      · intro t c
        rw [call_eq rfl]
        exact sendCall_map (fun _ _ => rfl) t c
      · intro t t' hsame
        cases hsame <;> exact ⟨rfl, rfl⟩
  | blank | recording | png => cases hs

/-- What goes wrong on a document has no effect: without the calls that go wrong, nothing goes wrong, and the
text and the origins are the same in the end; and after any calls, one that goes wrong writes nothing and
leaves the origins as they are. -/
theorem Surface.failures_forgotten {s : Surface Float} (hs : s.isDocument = true) (cs : List (Call Float)) :
    let all := sendEach Surface.call s cs
    let kept := sendEach Surface.call s (successful cs all.faults)
    ((∀ f ∈ kept.faults, f = none) ∧ kept.state.document = all.state.document ∧
        kept.state.origins = all.state.origins) ∧
      ∀ c, (all.state.call c).fault ≠ none →
        (all.state.call c).state.document = all.state.document ∧
          (all.state.call c).state.origins = all.state.origins := by
  obtain ⟨σ, step, Same, view, t, rfl, hforgets, hcall, hview⟩ := exists_forgets hs
  obtain ⟨hnone, hsame⟩ := hforgets.sendEach (hforgets.same.refl t) cs
  rw [sendEach_map hcall]
  dsimp only
  rw [sendEach_map hcall]
  refine ⟨⟨hnone, hview _ _ hsame⟩, fun c hfault => ?_⟩
  rw [hcall] at hfault ⊢
  obtain ⟨fault, hfault⟩ := Option.ne_none_iff_exists'.mp hfault
  exact hview _ _ (hforgets.failed hfault)

/-- A line outside of any path moves the pen, and a line in an open path is refused at once. -/
theorem Surface.failures_forgotten_aroundPath :
    let s : Surface Float := .tikz (.start SurfaceKind.tikzOptions)
    let all := sendEach Surface.call s [.primitive (.pathHTo 5), .primitive (.pathBegin 0 0 .line),
      .composite (.hline ⟨0, 0⟩ ⟨10, 0⟩ .line), .primitive .popTranslate, .primitive .pathEnd]
    let kept := sendEach Surface.call s [.primitive (.pathBegin 0 0 .line), .primitive .pathEnd]
    s.isDocument = true ∧
      all.faults = [some .segmentOutsidePath, none, some .pathOpen, some .emptyTranslation, none] ∧
      ((∀ f ∈ kept.faults, f = none) ∧ kept.state.document = all.state.document ∧
        kept.state.origins = all.state.origins) ∧
      (all.state.call (.primitive .pathEnd)).state.document = all.state.document := by
  intro s all kept
  have hfaults : all.faults =
      [some .segmentOutsidePath, none, some .pathOpen, some .emptyTranslation, none] := rfl
  obtain ⟨hkept, hrefused⟩ := failures_forgotten (s := s) rfl [.primitive (.pathHTo 5),
    .primitive (.pathBegin 0 0 .line), .composite (.hline ⟨0, 0⟩ ⟨10, 0⟩ .line),
    .primitive .popTranslate, .primitive .pathEnd]
  exact ⟨rfl, hfaults, hkept, (hrefused (.primitive .pathEnd) (by rintro ⟨⟩)).1⟩

end Railroad
