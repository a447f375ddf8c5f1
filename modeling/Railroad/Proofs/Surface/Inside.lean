import Railroad.Proofs.Surface.Tracing
import Railroad.Surface.Settings
/-!
What a recorder takes for calls from inside of others.  Connectors are left however they end; lines and
arrows are not left if something goes wrong, and from the first that was not, every record is marked as
nested.
-/
namespace Railroad

variable {α σ : Type}

/-- Lines and arrows, which are left only if nothing goes wrong. -/
def Call.isStraight : Call α → Bool
  | .primitive _ | .composite (.connector ..) => false
  | .composite _ => true

/-- Among some calls, with what came of them, is a line or an arrow that something went wrong in. -/
def leftInside (cs : List (Call α)) (faults : List (Option SurfaceFault)) : Bool :=
  (cs.zip faults).any fun p => p.1.isStraight && p.2.isSome

/-- The record of a call itself, under the origin that is in force: a dropped origin is gone already, and
one that is not there leaves no record. -/
def Call.ownRecord? (o : Origins α) (nested : Bool) : Call α → Option (Record α)
  | .primitive .popTranslate =>
      match o.pop with
      | .ok o => some (Primitive.popTranslate.record o.current nested)
      | .error _ => none
  | .primitive p => some (p.record o.current nested)
  | .composite c => some (c.record o.current nested)

/-- What a recorder adds to its records when it is called: a record of the call, nested or not as told, and
then nested records only.  Behind a primitive there are none. -/
def Recorder.AddsFor (c : Call α) (nested : Bool) (r r' : Recorder α) : Prop :=
  ∃ inside, r'.records.toList = r.records.toList ++ (c.ownRecord? r.origins nested).toList ++ inside ∧
    (∀ x ∈ inside, x.nested = true) ∧ ∀ p, c = .primitive p → inside = []

/-- A recorder that has seen nothing but nested calls since. -/
def Recorder.Inside (r r' : Recorder α) : Prop :=
  ∃ inside, r'.records.toList = r.records.toList ++ inside ∧ ∀ x ∈ inside, x.nested = true

namespace Recorder.Inside

variable {r r' r'' : Recorder α}

theorem refl (r : Recorder α) : r.Inside r :=
  ⟨[], by simp, by simp⟩

theorem trans (h : r.Inside r') (h' : r'.Inside r'') : r.Inside r'' := by
  obtain ⟨xs, hxs, hnested⟩ := h
  obtain ⟨ys, hys, hnested'⟩ := h'
  refine ⟨xs ++ ys, by rw [hys, hxs, List.append_assoc], ?_⟩
  simpa only [List.forall_mem_append] using And.intro hnested hnested'

/-- Inside of a composite, what is recorded of a primitive is nested. -/
theorem of_primitive {p : Primitive α} (h : r.AddsFor (.primitive p) true r') : r.Inside r' := by
  obtain ⟨inside, hrecords, -, hnone⟩ := h
  obtain rfl := hnone p rfl
  refine ⟨_, by rw [hrecords, List.append_nil], ?_⟩
  intro x hx
  rw [Option.mem_toList] at hx
  cases p with
  | popTranslate =>
      rw [Call.ownRecord?] at hx
      split at hx
      · cases hx
        rfl
      · cases hx
  | _ =>
      cases hx
      rfl

end Recorder.Inside

namespace Traced

variable {step : σ → Primitive α → Reply σ} {t : Traced α σ}

theorem records_forward (t : Traced α σ) (p : Primitive α) :
    (t.forward step p).state.recorder.records.toList = t.recorder.records.toList ++
      [p.record t.recorder.origins.current (0 < t.recorder.depth)] :=
  Array.toList_push

variable [Scalar α]

/-- The origin that is pushed is all that sets a pushed origin apart from other primitives. -/
theorem records_push (t : Traced α σ) (origin : Point α) :
    (t.primitive step (.pushTranslate origin)).state.recorder.records =
        (t.forward step (.pushTranslate origin)).state.recorder.records ∧
      (t.primitive step (.pushTranslate origin)).state.recorder.depth = t.recorder.depth := by
  rw [primitive, Reply.andThen]
  cases (t.forward step (.pushTranslate origin)).fault <;> exact ⟨rfl, rfl⟩

theorem depth_primitive (t : Traced α σ) (p : Primitive α) :
    (t.primitive step p).state.recorder.depth = t.recorder.depth := by
  cases p with
  | pushTranslate origin => exact (records_push t origin).2
  | popTranslate =>
      rw [primitive]
      cases t.recorder.origins.pop <;> rfl
  | _ => rfl

theorem addsFor_primitive (t : Traced α σ) (p : Primitive α) :
    t.recorder.AddsFor (.primitive p) (0 < t.recorder.depth) (t.primitive step p).state.recorder := by
  refine ⟨[], ?_, by simp, fun _ _ => rfl⟩
  rw [List.append_nil]
  cases p with
  | pushTranslate origin =>
      rw [(records_push t origin).1]
      exact records_forward t _
  | popTranslate =>
      rw [primitive, Call.ownRecord?]
      cases t.recorder.origins.pop with
      | error fault => simp [Reply.wrong]
      | ok origins => exact records_forward ⟨{ t.recorder with origins }, t.inner⟩ _
  | _ => exact records_forward t _

/-- What comes of calls on a recorder that is inside of a composite: nested records alone, and unless
something is wrong, as many composites that it is inside of as before. -/
structure Deepens (t : Traced α σ) (r : Reply (Traced α σ)) : Prop where
  inside : t.recorder.Inside r.state.recorder
  le : t.recorder.depth ≤ r.state.recorder.depth
  done : r.fault = none → r.state.recorder.depth = t.recorder.depth

namespace Deepens

variable {r : Reply (Traced α σ)}

omit [Scalar α] in
theorem ok (t : Traced α σ) : t.Deepens (.ok t) :=
  ⟨.refl _, Nat.le_refl _, fun _ => rfl⟩

omit [Scalar α] in
theorem andThen {next : Traced α σ → Reply (Traced α σ)} (h : t.Deepens r)
    (hnext : ∀ u : Traced α σ, u.recorder.depth = t.recorder.depth → u.Deepens (next u)) :
    t.Deepens (r.andThen next) := by
  rw [Reply.andThen]
  cases hfault : r.fault with
  | some fault => exact h
  | none =>
      have hdepth := h.done hfault
      obtain ⟨hinside, hle, hdone⟩ := hnext _ hdepth
      exact ⟨h.inside.trans hinside, hdepth ▸ hle, fun hnone => (hdone hnone).trans hdepth⟩

theorem primitive (hinside : 0 < t.recorder.depth) (p : Primitive α) :
    t.Deepens (t.primitive step p) := by
  have hadds : t.recorder.AddsFor (.primitive p) (0 < t.recorder.depth)
      (t.primitive step p).state.recorder := addsFor_primitive t p
  rw [decide_eq_true hinside] at hadds
  exact ⟨.of_primitive hadds, Nat.le_of_eq (depth_primitive t p).symm, fun _ => depth_primitive t p⟩

theorem sendAll (hinside : 0 < t.recorder.depth) (ps : List (Primitive α)) :
    t.Deepens (Railroad.sendAll (Traced.primitive step) t ps) := by
  induction ps generalizing t with
  | nil => exact ok t
  | cons p ps ih => exact (primitive hinside p).andThen fun u hu => ih (hu ▸ hinside)

theorem stroke (hinside : 0 < t.recorder.depth) (c : Composite α) : t.Deepens (t.stroke step c) := by
  rw [Traced.stroke]
  cases c.strokes with
  | ok ps => exact sendAll hinside ps
  | error fault => exact ⟨.refl _, Nat.le_refl _, fun _ => rfl⟩

omit [Scalar α] in
/-- If nothing goes wrong in it, a composite that was entered is left. -/
theorem left {c : Composite α} (h : (t.enter c).Deepens r) :
    let reply := r.andThen fun u => .ok u.leave
    (t.enter c).recorder.Inside reply.state.recorder ∧
      t.recorder.depth ≤ reply.state.recorder.depth ∧
      (reply.state.recorder.depth = t.recorder.depth ↔ reply.fault = none) := by
  rw [Reply.andThen]
  cases hfault : r.fault with
  | none =>
      have hdepth : r.state.recorder.depth = t.recorder.depth + 1 := h.done hfault
      have hleft : r.state.leave.recorder.depth = t.recorder.depth := by
        change r.state.recorder.depth - 1 = _
        omega
      exact ⟨h.inside, Nat.le_of_eq hleft.symm, iff_of_true hleft rfl⟩
  | some fault =>
      have hlt : t.recorder.depth < r.state.recorder.depth := h.le
      exact ⟨h.inside, Nat.le_of_lt hlt, iff_of_false (Nat.ne_of_gt hlt) (by simp [hfault])⟩

omit [Scalar α] in
theorem enter (hinside : 0 < t.recorder.depth) {c : Composite α} (h : (t.enter c).Deepens r) :
    t.Deepens (r.andThen fun u => .ok u.leave) := by
  have hentered : t.recorder.Inside (t.enter c).recorder := by
    refine ⟨[c.record t.recorder.origins.current (0 < t.recorder.depth)], Array.toList_push, ?_⟩
    simp [Composite.record, hinside]
  obtain ⟨hlater, hle, hdepth⟩ := h.left
  exact ⟨hentered.trans hlater, hle, hdepth.mpr⟩

theorem line (hinside : 0 < t.recorder.depth) (c : Composite α) : t.Deepens (t.line step c) :=
  enter hinside (stroke (t := t.enter c) (Nat.succ_pos _) c)

theorem drawn (hinside : 0 < t.recorder.depth) (c : Composite α) :
    t.Deepens ((match c.shaft? with
      | some l => t.line step l
      | none => .ok t).andThen fun u => u.stroke step c) := by
  refine andThen ?_ fun u hu => stroke (hu ▸ hinside) c
  cases c.shaft? with
  | none => exact ok t
  | some l => exact line hinside l

end Deepens

theorem depth_sendAll (t : Traced α σ) (ps : List (Primitive α)) :
    (sendAll (primitive step) t ps).state.recorder.depth = t.recorder.depth := by
  induction ps generalizing t with
  | nil => rfl
  | cons p ps ih =>
      rw [sendAll, Reply.andThen]
      cases (t.primitive step p).fault with
      | some fault => exact depth_primitive t p
      | none => exact (ih _).trans (depth_primitive t p)

theorem depth_stroke (t : Traced α σ) (c : Composite α) :
    (t.stroke step c).state.recorder.depth = t.recorder.depth := by
  rw [stroke]
  cases c.strokes with
  | ok ps => exact depth_sendAll t ps
  | error fault => rfl

/-- The calls after which a recorder is inside of more composites than before are those of lines and arrows
that something goes wrong in; and a call is nested itself if it was made inside. -/
structure Settles (c : Call α) (t : Traced α σ) (r : Reply (Traced α σ)) : Prop where
  le : t.recorder.depth ≤ r.state.recorder.depth
  depth : r.state.recorder.depth = t.recorder.depth ↔ (c.isStraight && r.fault.isSome) = false
  records : t.recorder.AddsFor c (0 < t.recorder.depth) r.state.recorder

omit [Scalar α] in
/-- The records of a composite are its own and those from inside. -/
theorem addsFor_composite {c : Composite α} {r : Recorder α} (h : (t.enter c).recorder.Inside r) :
    t.recorder.AddsFor (.composite c) (0 < t.recorder.depth) r := by
  obtain ⟨inside, hrecords, hnested⟩ := h
  refine ⟨inside, ?_, hnested, fun p hp => nomatch hp⟩
  rw [hrecords]
  exact congrArg (· ++ inside) Array.toList_push

theorem settles_connector (t : Traced α σ) (leaving : Direction) (p q : Point α) (arriving : Direction)
    (r : α) (style : Style) :
    Settles (.composite (.connector leaving p q arriving r style)) t
      (t.call step (.composite (.connector leaving p q arriving r style))) := by
  have hdepth : (t.composite step (.connector leaving p q arriving r style)).state.recorder.depth =
      t.recorder.depth := by
    change ((t.enter _).stroke step _).state.recorder.depth - 1 = _
    rw [depth_stroke]
    rfl
  refine ⟨Nat.le_of_eq hdepth.symm, iff_of_true hdepth rfl, addsFor_composite ?_⟩
  exact (Deepens.stroke (Nat.succ_pos _) _).inside

omit [Scalar α] in
/-- A line or an arrow that is not left if something goes wrong. -/
theorem Deepens.settles {c : Composite α} {r : Reply (Traced α σ)} (h : (t.enter c).Deepens r)
    (hc : (Call.composite c).isStraight = true) :
    Settles (.composite c) t (r.andThen fun u => .ok u.leave) := by
  obtain ⟨hinside, hle, hdepth⟩ := h.left
  refine ⟨hle, ?_, addsFor_composite hinside⟩
  rw [hdepth, hc, Bool.true_and, Option.isSome_eq_false_iff, Option.isNone_iff_eq_none]

theorem composite_eq {c : Composite α} (hc : (Call.composite c).isStraight = true) :
    t.composite step c = ((match c.shaft? with
      | some l => (t.enter c).line step l
      | none => .ok (t.enter c)).andThen fun u => u.stroke step c).andThen fun u => .ok u.leave := by
  cases c with
  | connector => cases hc
  | hline | vline | arrowLeft | arrowRight | arrowDown => rfl

theorem settles_call (t : Traced α σ) (c : Call α) : Settles c t (t.call step c) := by
  cases c with
  | primitive p =>
      have hdepth : (t.primitive step p).state.recorder.depth = t.recorder.depth := depth_primitive t p
      exact ⟨Nat.le_of_eq hdepth.symm, iff_of_true hdepth rfl, addsFor_primitive t p⟩
  | composite c =>
      cases hc : (Call.composite c).isStraight with
      | true =>
          rw [call, composite_eq hc]
          exact (Deepens.drawn (Nat.succ_pos _) c).settles hc
      | false =>
          cases c with
          | connector leaving p q arriving r style =>
              exact settles_connector t leaving p q arriving r style
          | hline | vline | arrowLeft | arrowRight | arrowDown => cases hc

/-- After any calls a recorder is inside of more composites than before if something went wrong in a line
or an arrow. -/
theorem depth_sendEach (t : Traced α σ) (cs : List (Call α)) :
    let last := sendEach (Traced.call step) t cs
    t.recorder.depth ≤ last.state.recorder.depth ∧
      (last.state.recorder.depth = t.recorder.depth ↔ leftInside cs last.faults = false) := by
  induction cs generalizing t with
  | nil => exact ⟨Nat.le_refl _, iff_of_true rfl rfl⟩
  | cons c cs ih =>
      obtain ⟨hle, hdepth, -⟩ : Settles c t (t.call step c) := settles_call t c
      obtain ⟨hle', hdepth'⟩ := ih (t.call step c).state
      have hinside : leftInside (c :: cs) (sendEach (Traced.call step) t (c :: cs)).faults = false ↔
          (c.isStraight && (t.call step c).fault.isSome) = false ∧
            leftInside cs (sendEach (Traced.call step) (t.call step c).state cs).faults = false :=
        Bool.or_eq_false_iff
      refine ⟨Nat.le_trans hle hle', ?_⟩
      rw [hinside, ← hdepth, ← hdepth']
      change (sendEach (Traced.call step) (t.call step c).state cs).state.recorder.depth = _ ↔ _
      omega

/-- In front of nothing, no line and no arrow goes wrong. -/
theorem fault_of_isStraight (t : Traced α Unit) {c : Call α} (hc : c.isStraight = true) :
    (t.call Surface.ignore c).fault = none := by
  have hmark : c.isMark = true := by
    cases c with
    | primitive p => cases hc
    | composite c =>
        cases c with
        | connector => cases hc
        | hline | vline | arrowLeft | arrowRight | arrowDown => rfl
  exact ((answers Surface.obeys_ignore).mark (i := (t.recorder.origins, ())) ⟨rfl, trivial⟩ hmark).1

theorem leftInside_ignore (t : Traced α Unit) (cs : List (Call α)) :
    leftInside cs (sendEach (Traced.call Surface.ignore) t cs).faults = false := by
  induction cs generalizing t with
  | nil => rfl
  | cons c cs ih =>
      refine Bool.or_eq_false_iff.mpr ⟨?_, ih _⟩
      cases hc : c.isStraight with
      | false => exact Bool.and_eq_false_iff.mpr (.inl hc)
      | true => simp [fault_of_isStraight t hc]

end Traced

/-- Whatever calls were made on a recorder, and whatever came of them, it is inside of a composite exactly
if something went wrong in a line or an arrow among them; and the next call adds a record of itself, nested
if and only if that is so, and nested records of the calls that it makes.  In front of nothing, no line or
arrow goes wrong. -/
theorem records_nested_iff [Scalar α] (step : σ → Primitive α → Reply σ) (s : σ) (cs : List (Call α)) :
    let before := sendEach (Traced.call step) ⟨.start, s⟩ cs
    (before.state.recorder.depth = 0 ↔ leftInside cs before.faults = false) ∧
    (∀ c, before.state.recorder.AddsFor c (leftInside cs before.faults)
      (before.state.call step c).state.recorder) ∧
    leftInside cs (sendEach (Traced.call Surface.ignore) ⟨.start, ()⟩ cs).faults = false := by
  intro before
  have hdepth : before.state.recorder.depth = 0 ↔ leftInside cs before.faults = false :=
    (Traced.depth_sendEach ⟨.start, s⟩ cs).2
  refine ⟨hdepth, fun c => ?_, Traced.leftInside_ignore _ cs⟩
  have hinside : decide (0 < before.state.recorder.depth) = leftInside cs before.faults := by
    rw [Bool.eq_iff_iff, decide_eq_true_iff, Nat.pos_iff_ne_zero, Ne, hdepth, Bool.not_eq_false]
  rw [← hinside]
  exact (Traced.settles_call before.state c).records

/-- A line inside of a path is refused, and the rectangle after it is recorded as nested. -/
theorem line_left_inside :
    let before := sendEach (Traced.call Surface.primitive)
      ⟨.start, .svg (.start SurfaceKind.svgOptions)⟩
      [.primitive (.pathBegin (0 : Rat) 0 .line), .composite (.hline ⟨0, 0⟩ ⟨10, 0⟩ .line)]
    let after := (before.state.call Surface.primitive (.primitive (.rectangle 0 0 5 5 .box))).state
    before.faults = [none, some .pathOpen] ∧ before.state.recorder.depth = 1 ∧
      after.recorder.records.toList.map (fun x => (x.name, x.nested)) =
        [("path_begin", false), ("hline", false), ("path_begin", true), ("rectangle", true)] := by
  decide +kernel

end Railroad
