import Railroad.Proofs.Drawing.Protocol
import Railroad.Surface.Surface
/-!
Outputs that answer every call that keeps the protocol, and drop the origins that it pushes.

What an output is left with is told by a predicate on its states, for the origins in force and no path
open.  A recorder has origins of its own in front of those of the output behind it.
-/
namespace Railroad

/-- The answer is no fault, and the next state has a property. -/
def Reply.Settles {σ : Type} (r : Reply σ) (P : σ → Prop) : Prop :=
  r.fault = none ∧ P r.state

section Replies

variable {σ τ β : Type} {P Q : σ → Prop} {r : Reply σ}

theorem Reply.Settles.andThen {next : σ → Reply σ} (h : r.Settles P)
    (hnext : ∀ s, P s → (next s).Settles Q) : (r.andThen next).Settles Q := by
  rw [Reply.andThen, h.1]
  exact hnext r.state h.2

variable {step : σ → β → Reply σ} {s : σ}

theorem sendAll_nil (h : P s) : (sendAll step s []).Settles P :=
  ⟨rfl, h⟩

theorem sendAll_cons {p : β} {ps : List β} (h : (step s p).Settles P)
    (hnext : ∀ s, P s → (sendAll step s ps).Settles Q) : (sendAll step s (p :: ps)).Settles Q :=
  h.andThen hnext

theorem sendAll_append {ps qs : List β} (h : (sendAll step s ps).Settles P)
    (hnext : ∀ s, P s → (sendAll step s qs).Settles Q) : (sendAll step s (ps ++ qs)).Settles Q := by
  induction ps generalizing s with
  | nil => exact hnext s h.2
  | cons p ps ih =>
      rw [List.cons_append, sendAll]
      rw [sendAll] at h
      cases hfault : (step s p).fault with
      | some fault =>
          rw [Reply.andThen, hfault] at h
          exact absurd (hfault.symm.trans h.1) (by simp)
      | none =>
          rw [Reply.andThen, hfault] at h ⊢
          exact ih h

theorem sendAll_map {step' : τ → β → Reply τ} {f : σ → τ}
    (hstep : ∀ s p, step' (f s) p = (step s p).map f) (s : σ) (ps : List β) :
    sendAll step' (f s) ps = (sendAll step s ps).map f := by
  induction ps generalizing s with
  | nil => rfl
  | cons p ps ih =>
      rw [sendAll, sendAll, hstep, Reply.andThen, Reply.andThen, Reply.map]
      cases hfault : (step s p).fault with
      | none => exact ih _
      | some fault => simp [Reply.map, hfault]

end Replies

variable {α : Type}

/-- An output answers all primitives that keep the protocol; `Idle` tells the states in which no path is
open and some origins are in force. -/
structure Obeys {σ ι : Type} (step : σ → Primitive α → Reply σ) (push : ι → Point α → ι)
    (Idle : ι → σ → Prop) : Prop where
  shape : ∀ {i s p}, Idle i s → p.isShape = true → (step s p).Settles (Idle i)
  path : ∀ {i s ps}, Idle i s → IsPath ps → (sendAll step s ps).Settles (Idle i)
  pushed : ∀ {i s} (origin : Point α), Idle i s →
    (step s (.pushTranslate origin)).Settles (Idle (push i origin))
  popped : ∀ {i s} (origin : Point α), Idle (push i origin) s →
    (step s .popTranslate).Settles (Idle i)
  beginLink : ∀ {i s} (name : String), Idle i s → (step s (.beginLink name)).Settles (Idle i)
  endLink : ∀ {i s}, Idle i s → (step s .endLink).Settles (Idle i)

/-- The same for calls. -/
structure Answers {σ ι : Type} (answer : σ → Call α → Reply σ) (push : ι → Point α → ι)
    (Idle : ι → σ → Prop) : Prop where
  mark : ∀ {i s c}, Idle i s → c.isMark = true → (answer s c).Settles (Idle i)
  pushed : ∀ {i s} (origin : Point α), Idle i s →
    (answer s (.primitive (.pushTranslate origin))).Settles (Idle (push i origin))
  popped : ∀ {i s} (origin : Point α), Idle (push i origin) s →
    (answer s (.primitive .popTranslate)).Settles (Idle i)
  beginLink : ∀ {i s} (name : String), Idle i s →
    (answer s (.primitive (.beginLink name))).Settles (Idle i)
  endLink : ∀ {i s}, Idle i s → (answer s (.primitive .endLink)).Settles (Idle i)

section Runs

variable {σ ι : Type} {step : σ → Primitive α → Reply σ} {answer : σ → Call α → Reply σ}
  {push : ι → Point α → ι} {Idle : ι → σ → Prop} {i : ι} {s : σ}

/-- Calls that keep the protocol are answered, and leave the origins as they were. -/
theorem Answers.sendAll (h : Answers answer push Idle) {cs : List (Call α)} (hcs : Keeps cs)
    (hs : Idle i s) : (sendAll answer s cs).Settles (Idle i) := by
  induction hcs generalizing i s with
  | nil => exact sendAll_nil hs
  | mark hc _ ih => exact sendAll_cons (h.mark hs hc) fun s hs => ih hs
  | frame origin _ _ ih ih' =>
      refine sendAll_cons (h.pushed origin hs) fun s hs => ?_
      refine sendAll_append (ih hs) fun s hs => ?_
      exact sendAll_cons (h.popped origin hs) fun s hs => ih' hs
  | link name _ _ ih ih' =>
      refine sendAll_cons (h.beginLink name hs) fun s hs => ?_
      refine sendAll_append (ih hs) fun s hs => ?_
      exact sendAll_cons (h.endLink hs) fun s hs => ih' hs

theorem Obeys.sendAll (h : Obeys step push Idle) {ps : List (Primitive α)} (hps : Orderly ps)
    (hs : Idle i s) : (sendAll step s ps).Settles (Idle i) := by
  induction hps generalizing i s with
  | nil => exact sendAll_nil hs
  | shape hp _ ih => exact sendAll_cons (h.shape hs hp) fun s hs => ih hs
  | path hpath _ ih => exact sendAll_append (h.path hs hpath) fun s hs => ih hs
  | frame origin _ _ ih ih' =>
      refine sendAll_cons (h.pushed origin hs) fun s hs => ?_
      refine sendAll_append (ih hs) fun s hs => ?_
      exact sendAll_cons (h.popped origin hs) fun s hs => ih' hs
  | link name _ _ ih ih' =>
      refine sendAll_cons (h.beginLink name hs) fun s hs => ?_
      refine sendAll_append (ih hs) fun s hs => ?_
      exact sendAll_cons (h.endLink hs) fun s hs => ih' hs

variable [Scalar α]

theorem Obeys.sendCall (h : Obeys step push Idle) : Answers (sendCall step) push Idle := by
  have hsingle : ∀ {s : σ} {p : Primitive α} {P : σ → Prop}, (step s p).Settles P →
      (Railroad.sendCall step s (.primitive p)).Settles P :=
    fun h => h.andThen fun s hs => ⟨rfl, hs⟩
  constructor
  · intro i s c hs hc
    cases c with
    | primitive p => exact hsingle (h.shape hs hc)
    | composite c =>
        obtain ⟨ps, hps, horderly⟩ := Composite.exists_primitives hc
        rw [Railroad.sendCall, Call.primitives, hps]
        exact h.sendAll horderly hs
  · exact fun origin hs => hsingle (h.pushed origin hs)
  · exact fun origin hs => hsingle (h.popped origin hs)
  · exact fun name hs => hsingle (h.beginLink name hs)
  · exact fun hs => hsingle (h.endLink hs)

end Runs

namespace Traced

variable {σ ι : Type} [Scalar α] {step : σ → Primitive α → Reply σ} {push : ι → Point α → ι}
  {Idle : ι → σ → Prop} {t : Traced α σ} {P : σ → Prop}

/-- The origins of a recorder, and those of the output behind it. -/
def pushBoth (push : ι → Point α → ι) (i : Origins α × ι) (origin : Point α) : Origins α × ι :=
  (i.1.push origin, push i.2 origin)

omit [Scalar α] in
/-- A recorder with some origins in force, in front of an idle output. -/
def IsIdle (Idle : ι → σ → Prop) (i : Origins α × ι) (t : Traced α σ) : Prop :=
  t.recorder.origins = i.1 ∧ Idle i.2 t.inner

omit [Scalar α] in
theorem forward_settles {p : Primitive α} (h : (step t.inner p).Settles P) :
    (forward step t p).Settles fun t' => t'.recorder.origins = t.recorder.origins ∧ P t'.inner :=
  ⟨h.1, rfl, h.2⟩

theorem primitive_of_isShape {p : Primitive α} (hp : p.isShape = true) :
    primitive step t p = forward step t p := by
  cases p with
  | rectangle | roundedRectangle | circle | text | centeredText => rfl
  | _ => cases hp

/-- The primitives of a path are passed on as they are. -/
theorem primitive_of_mem_path {ps : List (Primitive α)} (hps : IsPath ps) {p : Primitive α}
    (hp : p ∈ ps) (t : Traced α σ) : primitive step t p = forward step t p := by
  obtain ⟨x, y, style, hsegments⟩ := hps
  rcases List.mem_append.mp hp with hp | hp
  · rcases List.mem_cons.mp hp with rfl | hp
    · rfl
    · have hsegment := hsegments p hp
      cases p with
      | pathHTo | pathVTo | pathArc | pathArrowLeft | pathArrowRight | pathArrowDown => rfl
      | _ => cases hsegment
  · obtain rfl := List.mem_singleton.mp hp
    rfl

theorem sendAll_forward {ps : List (Primitive α)}
    (hps : ∀ p ∈ ps, ∀ t : Traced α σ, primitive step t p = forward step t p)
    (h : (sendAll step t.inner ps).Settles P) :
    (sendAll (primitive step) t ps).Settles fun t' =>
      t'.recorder.origins = t.recorder.origins ∧ P t'.inner := by
  induction ps generalizing t with
  | nil => exact sendAll_nil ⟨rfl, h.2⟩
  | cons p ps ih =>
      rw [List.forall_mem_cons] at hps
      rw [sendAll, Reply.andThen] at h
      rw [sendAll, hps.1, Reply.andThen, forward, Reply.map]
      cases hfault : (step t.inner p).fault with
      | none =>
          rw [hfault] at h
          exact ih (t := ⟨t.recorder.note p, (step t.inner p).state⟩) hps.2 h
      | some fault =>
          rw [hfault] at h
          exact absurd (hfault.symm.trans h.1) (by simp)

theorem obeys (h : Obeys step push Idle) :
    Obeys (primitive step) (pushBoth push) (IsIdle Idle) := by
  constructor
  · rintro ⟨o, i⟩ t p ⟨horigins, hs⟩ hp
    rw [primitive_of_isShape hp]
    obtain ⟨hfault, horigins', hidle⟩ := forward_settles (t := t) (h.shape hs hp)
    exact ⟨hfault, horigins'.trans horigins, hidle⟩
  · rintro ⟨o, i⟩ t ps ⟨horigins, hs⟩ hps
    obtain ⟨hfault, horigins', hidle⟩ :=
      sendAll_forward (t := t) (fun p hp => primitive_of_mem_path hps hp) (h.path hs hps)
    exact ⟨hfault, horigins'.trans horigins, hidle⟩
  · rintro ⟨o, i⟩ t origin ⟨rfl, hs⟩
    refine Reply.Settles.andThen (forward_settles (t := t) (h.pushed origin hs)) ?_
    rintro t' ⟨horigins, hidle⟩
    exact ⟨rfl, congrArg (Origins.push · origin) horigins, hidle⟩
  · rintro ⟨o, i⟩ t origin ⟨horigins, hs⟩
    have hpop : t.recorder.origins.pop = .ok o := by
      rw [horigins]
      rfl
    rw [primitive, hpop]
    exact forward_settles (t := ⟨{ t.recorder with origins := o }, t.inner⟩) (h.popped origin hs)
  · rintro ⟨o, i⟩ t name ⟨rfl, hs⟩
    exact forward_settles (t := t) (h.beginLink name hs)
  · rintro ⟨o, i⟩ t ⟨rfl, hs⟩
    exact forward_settles (t := t) (h.endLink hs)

theorem stroke_settles (h : Obeys step push Idle) {i : Origins α × ι} {c : Composite α}
    (hc : c.isSupported = true) (ht : IsIdle Idle i t) :
    (stroke step t c).Settles (IsIdle Idle i) := by
  obtain ⟨ps, hps, hpath⟩ := Composite.exists_strokes hc
  rw [stroke, hps]
  exact (obeys h).path ht hpath

theorem answers (h : Obeys step push Idle) :
    Answers (call step) (pushBoth push) (IsIdle Idle) := by
  refine ⟨?_, (obeys h).pushed, (obeys h).popped, (obeys h).beginLink, (obeys h).endLink⟩
  intro i t c ht hc
  cases c with
  | primitive p => exact (obeys h).shape ht hc
  | composite c =>
      have hplain : ∀ shaft : Reply (Traced α σ), shaft.Settles (IsIdle Idle i) →
          ((shaft.andThen fun t => stroke step t c).andThen fun t => .ok t.leave).Settles
            (IsIdle Idle i) := by
        intro shaft hshaft
        refine Reply.Settles.andThen (Reply.Settles.andThen hshaft fun t ht => stroke_settles h hc ht) ?_
        intro t ht
        exact ⟨rfl, ht⟩
      cases c with
      | connector => exact stroke_settles (t := t.enter _) h hc ht
      | hline | vline | arrowLeft | arrowRight | arrowDown =>
          refine hplain _ ?_
          split
          · rename_i l hl
            refine Reply.Settles.andThen
              (stroke_settles (t := (t.enter _).enter l) h (Composite.isSupported_shaft hl) ht) ?_
            intro t ht
            exact ⟨rfl, ht⟩
          · exact ⟨rfl, ht⟩

end Traced

section Outputs

theorem Surface.obeys_ignore :
    Obeys (Surface.ignore (α := α)) (fun (u : Unit) _ => u) fun _ _ => True := by
  have hpath : ∀ ps : List (Primitive α), (sendAll Surface.ignore () ps).Settles fun _ => True := by
    intro ps
    induction ps with
    | nil => exact ⟨rfl, trivial⟩
    | cons p ps ih => exact ih
  exact ⟨fun _ _ => ⟨rfl, trivial⟩, fun _ _ => hpath _, fun _ _ => ⟨rfl, trivial⟩,
    fun _ _ => ⟨rfl, trivial⟩, fun _ _ => ⟨rfl, trivial⟩, fun _ => ⟨rfl, trivial⟩⟩

variable {σ β : Type}

/-- No path is open, and some origins are in force. -/
def Closed (path : σ → Option β) (origins : σ → Origins α) (o : Origins α) (s : σ) : Prop :=
  path s = none ∧ origins s = o

/-- What an output with a path and origins does to them, primitive by primitive. -/
structure DrawsPaths [Scalar α] (step : σ → Primitive α → Reply σ) (path : σ → Option β)
    (origins : σ → Origins α) : Prop where
  still : ∀ s p, (p.isShape = true ∨ (∃ name, p = .beginLink name) ∨ p = .endLink) →
    (step s p).Settles fun s' => path s' = path s ∧ origins s' = origins s
  begins : ∀ s x y style, path s = none → (step s (.pathBegin x y style)).Settles fun s' =>
    (path s').isSome = true ∧ origins s' = origins s
  adds : ∀ s p, (path s).isSome = true → p.isSegment = true → (step s p).Settles fun s' =>
    (path s').isSome = true ∧ origins s' = origins s
  ends : ∀ s, (path s).isSome = true → (step s .pathEnd).Settles fun s' =>
    path s' = none ∧ origins s' = origins s
  pushes : ∀ s origin, (step s (.pushTranslate origin)).Settles fun s' =>
    path s' = path s ∧ origins s' = (origins s).push origin
  pops : ∀ s o, (origins s).pop = .ok o → (step s .popTranslate).Settles fun s' =>
    path s' = path s ∧ origins s' = o

theorem DrawsPaths.obeys [Scalar α] {step : σ → Primitive α → Reply σ} {path : σ → Option β}
    {origins : σ → Origins α} (h : DrawsPaths step path origins) :
    Obeys step Origins.push (Closed path origins) := by
  have hstill : ∀ {o s p}, (p.isShape = true ∨ (∃ name, p = .beginLink name) ∨ p = .endLink) →
      Closed path origins o s → (step s p).Settles (Closed path origins o) := by
    rintro o s p hp ⟨hpath, rfl⟩
    obtain ⟨hfault, hpath', horigins⟩ := h.still s p hp
    exact ⟨hfault, hpath'.trans hpath, horigins⟩
  constructor
  · exact fun hs hp => hstill (.inl hp) hs
  · rintro o s _ ⟨hpath, rfl⟩ ⟨x, y, style, hsegments⟩
    rename_i segments
    refine sendAll_cons (h.begins s x y style hpath) ?_
    generalize hs' : origins s = o
    clear hs' hpath s
    induction segments with
    | nil =>
        rintro s ⟨hpath, rfl⟩
        exact sendAll_cons (h.ends s hpath) fun s hs => sendAll_nil hs
    | cons p ps ih =>
        rw [List.forall_mem_cons] at hsegments
        rintro s ⟨hpath, rfl⟩
        exact sendAll_cons (h.adds s p hpath hsegments.1) (ih hsegments.2)
  · rintro o s origin ⟨hpath, rfl⟩
    obtain ⟨hfault, hpath', horigins⟩ := h.pushes s origin
    exact ⟨hfault, hpath'.trans hpath, horigins⟩
  · rintro o s origin ⟨hpath, horigins⟩
    obtain ⟨hfault, hpath', horigins'⟩ := h.pops s o (by rw [horigins]; rfl)
    exact ⟨hfault, hpath'.trans hpath, horigins'⟩
  · exact fun name hs => hstill (.inr (.inl ⟨name, rfl⟩)) hs
  · exact fun hs => hstill (.inr (.inr rfl)) hs

variable [Scalar α]

omit [Scalar α] in
theorem Svg.segment_settles {s : Svg α} (h : s.path.isSome = true) (added : SvgSegment α) :
    (s.segment added).Settles fun s' => s'.path.isSome = true ∧ s'.origins = s.origins := by
  obtain ⟨path, hpath⟩ := Option.isSome_iff_exists.mp h
  rw [segment, hpath]
  exact ⟨rfl, rfl, rfl⟩

theorem Svg.drawsPaths : DrawsPaths (Svg.primitive (α := α)) Svg.path Svg.origins where
  still := by
    rintro s p (hp | ⟨name, rfl⟩ | rfl)
    · cases p with
      | rectangle | roundedRectangle | circle | text | centeredText => exact ⟨rfl, rfl, rfl⟩
      | _ => cases hp
    · exact ⟨rfl, rfl, rfl⟩
    · exact ⟨rfl, rfl, rfl⟩
  begins := by
    intro s x y style hpath
    rw [primitive, hpath]
    exact ⟨rfl, rfl, rfl⟩
  adds := by
    intro s p hpath hp
    cases p with
    | pathHTo | pathVTo | pathArc | pathArrowLeft | pathArrowRight | pathArrowDown =>
        exact segment_settles hpath _
    | _ => cases hp
  ends := by
    intro s hpath
    obtain ⟨path, hpath⟩ := Option.isSome_iff_exists.mp hpath
    rw [primitive, hpath]
    exact ⟨rfl, rfl, rfl⟩
  pushes := fun _ _ => ⟨rfl, rfl, rfl⟩
  pops := by
    intro s o hpop
    rw [primitive, hpop]
    exact ⟨rfl, rfl, rfl⟩

omit [Scalar α] in
theorem Tikz.segment_settles {s : Tikz α} (h : s.path.isSome = true) (added : TikzSegment α) :
    (s.segment added).Settles fun s' => s'.path.isSome = true ∧ s'.origins = s.origins := by
  obtain ⟨path, hpath⟩ := Option.isSome_iff_exists.mp h
  rw [segment, hpath]
  exact ⟨rfl, rfl, rfl⟩

omit [Scalar α] in
theorem Tikz.lineTo_settles {s : Tikz α} (h : s.path.isSome = true) (pen : Point α) :
    (s.lineTo pen).Settles fun s' => s'.path.isSome = true ∧ s'.origins = s.origins :=
  segment_settles (s := { s with pen }) h _

theorem Tikz.drawsPaths : DrawsPaths (Tikz.primitive (α := α)) Tikz.path Tikz.origins where
  still := by
    rintro s p (hp | ⟨name, rfl⟩ | rfl)
    · cases p with
      | rectangle | roundedRectangle | circle | text | centeredText => exact ⟨rfl, rfl, rfl⟩
      | _ => cases hp
    · exact ⟨rfl, rfl, rfl⟩
    · exact ⟨rfl, rfl, rfl⟩
  begins := by
    intro s x y style hpath
    rw [primitive, hpath]
    exact ⟨rfl, rfl, rfl⟩
  adds := by
    intro s p hpath hp
    cases p with
    | pathHTo | pathVTo => exact lineTo_settles hpath _
    | pathArc =>
        rw [primitive]
        refine Reply.Settles.andThen (segment_settles hpath _) ?_
        intro s' hs
        exact ⟨rfl, hs⟩
    | pathArrowLeft | pathArrowRight | pathArrowDown => exact segment_settles hpath _
    | _ => cases hp
  ends := by
    intro s hpath
    obtain ⟨path, hpath⟩ := Option.isSome_iff_exists.mp hpath
    rw [primitive, hpath]
    exact ⟨rfl, rfl, rfl⟩
  pushes := fun _ _ => ⟨rfl, rfl, rfl⟩
  pops := by
    intro s o hpop
    rw [primitive, hpop]
    exact ⟨rfl, rfl, rfl⟩

/-- An output that records or writes SVG, HTML or TikZ, without an open path and with some origins in
force. -/
def Surface.IsIdle (o : Origins α) : Surface α → Prop
  | recording r => Traced.IsIdle (fun _ _ => True) (o, ()) r
  | svg s => Closed Svg.path Svg.origins o s
  | tikz s => Closed Tikz.path Tikz.origins o s
  | blank _ | png _ => False

theorem Surface.obeys : Obeys (Surface.primitive (α := α)) Origins.push Surface.IsIdle := by
  have hrecording := Traced.obeys (obeys_ignore (α := α))
  constructor
  · rintro o (_ | r | s | s | _) p hs hp
    · cases hs
    · exact hrecording.shape hs hp
    · exact Svg.drawsPaths.obeys.shape hs hp
    · exact Tikz.drawsPaths.obeys.shape hs hp
    · cases hs
  · rintro o (_ | r | s | s | _) ps hs hps
    · cases hs
    · rw [sendAll_map (fun _ _ => rfl)]
      exact hrecording.path hs hps
    · rw [sendAll_map (fun _ _ => rfl)]
      exact Svg.drawsPaths.obeys.path hs hps
    · rw [sendAll_map (fun _ _ => rfl)]
      exact Tikz.drawsPaths.obeys.path hs hps
    · cases hs
  · rintro o (_ | r | s | s | _) origin hs
    · cases hs
    · exact hrecording.pushed origin hs
    · exact Svg.drawsPaths.obeys.pushed origin hs
    · exact Tikz.drawsPaths.obeys.pushed origin hs
    · cases hs
  · rintro o (_ | r | s | s | _) origin hs
    · cases hs
    · exact hrecording.popped (i := (o, ())) origin hs
    · exact Svg.drawsPaths.obeys.popped origin hs
    · exact Tikz.drawsPaths.obeys.popped origin hs
    · cases hs
  · rintro o (_ | r | s | s | _) name hs
    · cases hs
    · exact hrecording.beginLink name hs
    · exact Svg.drawsPaths.obeys.beginLink name hs
    · exact Tikz.drawsPaths.obeys.beginLink name hs
    · cases hs
  · rintro o (_ | r | s | s | _) hs
    · cases hs
    · exact hrecording.endLink hs
    · exact Svg.drawsPaths.obeys.endLink hs
    · exact Tikz.drawsPaths.obeys.endLink hs
    · cases hs

/-- A recorder answers calls by itself, the others by their primitives. -/
theorem Surface.answers : Answers (Surface.call (α := α)) Origins.push Surface.IsIdle := by
  have hrecording := Traced.answers (obeys_ignore (α := α))
  have hdirect := Surface.obeys (α := α).sendCall
  constructor
  · rintro o (_ | r | s | s | _) c hs hc
    · cases hs
    · exact hrecording.mark hs hc
    · exact hdirect.mark hs hc
    · exact hdirect.mark hs hc
    · cases hs
  · rintro o (_ | r | s | s | _) origin hs
    · cases hs
    · exact hrecording.pushed origin hs
    · exact hdirect.pushed origin hs
    · exact hdirect.pushed origin hs
    · cases hs
  · rintro o (_ | r | s | s | _) origin hs
    · cases hs
    · exact hrecording.popped (i := (o, ())) origin hs
    · exact hdirect.popped origin hs
    · exact hdirect.popped origin hs
    · cases hs
  · rintro o (_ | r | s | s | _) name hs
    · cases hs
    · exact hrecording.beginLink name hs
    · exact hdirect.beginLink name hs
    · exact hdirect.beginLink name hs
    · cases hs
  · rintro o (_ | r | s | s | _) hs
    · cases hs
    · exact hrecording.endLink hs
    · exact hdirect.endLink hs
    · exact hdirect.endLink hs
    · cases hs

/-- The output has no open path, and is one of those that record or write SVG, HTML or TikZ. -/
def Surface.IsReady : Surface α → Prop
  | recording _ => True
  | svg s => s.path = none
  | tikz s => s.path = none
  | blank _ | png _ => False

omit [Scalar α] in
theorem Surface.isIdle_iff {o : Origins α} {s : Surface α} :
    s.IsIdle o ↔ s.IsReady ∧ s.origins = o := by
  cases s with
  | recording r => exact ⟨fun h => ⟨trivial, h.1⟩, fun h => ⟨h.2, trivial⟩⟩
  | svg s | tikz s => exact Iff.rfl
  | blank | png => exact ⟨False.elim, And.left⟩

/-- Calls that keep the protocol are answered, with or without a recorder in front of the output, and
all origins are then as before. -/
theorem Output.sendAll_settles {cs : List (Call α)} (h : Keeps cs) {output : Output α}
    (hready : output.surface.IsReady) :
    (sendAll Output.call output cs).Settles fun after => after.surface.IsReady ∧
      after.surface.origins = output.surface.origins ∧ after.origins = output.origins := by
  have hidle := Surface.isIdle_iff.mpr ⟨hready, rfl⟩
  cases output with
  | direct s =>
      rw [sendAll_map (fun _ _ => rfl)]
      obtain ⟨hfault, hidle⟩ := Surface.answers.sendAll h hidle
      obtain ⟨hready, horigins⟩ := Surface.isIdle_iff.mp hidle
      exact ⟨hfault, hready, horigins, horigins⟩
  | traced t =>
      rw [sendAll_map (fun _ _ => rfl)]
      obtain ⟨hfault, horigins, hidle⟩ := (Traced.answers Surface.obeys).sendAll
        (i := (t.recorder.origins, t.inner.origins)) h ⟨rfl, hidle⟩
      obtain ⟨hready, horigins'⟩ := Surface.isIdle_iff.mp hidle
      exact ⟨hfault, hready, horigins', horigins⟩

end Outputs

end Railroad
