import Railroad.Proofs.Surface.Answers
/-!
A recorder in front of an output: it finds the faults that the output finds, and passes on what it records,
so that the output does not tell whether there is a recorder in front of it.

Two outputs are compared by a relation between their states that holds on from call to call while both
find the same faults.
-/
namespace Railroad

/-- The same fault, and states in a relation. -/
structure Reply.Agrees {σ τ : Type} (R : σ → τ → Prop) (r : Reply σ) (r' : Reply τ) : Prop where
  fault : r.fault = r'.fault
  state : R r.state r'.state

/-- What comes of calls that are sent one after another, also after some that went wrong. -/
structure Replies (σ : Type) where
  state : σ
  faults : List (Option SurfaceFault)

/-- Sends calls one after another, whatever comes of them. -/
def sendEach {σ β : Type} (step : σ → β → Reply σ) (state : σ) : List β → Replies σ
  | [] => ⟨state, []⟩
  | c :: cs =>
      let reply := step state c
      let rest := sendEach step reply.state cs
      ⟨rest.state, reply.fault :: rest.faults⟩

/-- The same faults, and states in a relation at the end. -/
structure Replies.Agrees {σ τ : Type} (R : σ → τ → Prop) (r : Replies σ) (r' : Replies τ) : Prop where
  faults : r.faults = r'.faults
  state : R r.state r'.state

/-- The number of origins that are pushed after a call, if it does not drop one that is not there. -/
def Call.depthAfter? {α : Type} (n : Nat) : Call α → Option Nat
  | .primitive (.pushTranslate _) => some (n + 1)
  | .primitive .popTranslate => if n = 0 then none else some (n - 1)
  | _ => some n

/-- The number of origins that are pushed after some calls, if each of those that they drop was pushed
before. -/
def callsDepth? {α : Type} (n : Nat) (cs : List (Call α)) : Option Nat :=
  cs.foldlM Call.depthAfter? n

section Agreement

variable {σ τ β : Type} {R : σ → τ → Prop} {r : Reply σ} {r' : Reply τ}

theorem Reply.Agrees.andThen {next : σ → Reply σ} {next' : τ → Reply τ} (h : r.Agrees R r')
    (hnext : ∀ s s', R s s' → (next s).Agrees R (next' s')) :
    (r.andThen next).Agrees R (r'.andThen next') := by
  rw [Reply.andThen, Reply.andThen, ← h.fault]
  cases r.fault with
  | none => exact hnext _ _ h.state
  | some fault => exact h

/-- What follows on one side only and is never wrong. -/
theorem Reply.Agrees.andThen_ok {f : σ → σ} (h : r.Agrees R r') (hf : ∀ s s', R s s' → R (f s) s') :
    (r.andThen fun s => .ok (f s)).Agrees R r' := by
  rw [Reply.andThen]
  cases hfault : r.fault with
  | none => exact ⟨hfault.symm.trans h.fault, hf _ _ h.state⟩
  | some fault => exact h

theorem Reply.andThen_ok (r : Reply σ) : r.andThen .ok = r := by
  obtain ⟨state, _ | fault⟩ := r <;> rfl

theorem Reply.andThen_assoc (r : Reply σ) (f g : σ → Reply σ) :
    (r.andThen f).andThen g = r.andThen fun s => (f s).andThen g := by
  obtain ⟨state, _ | fault⟩ := r <;> rfl

variable {step : σ → β → Reply σ} {step' : τ → β → Reply τ} {s : σ} {s' : τ}

theorem sendAll_single (s : σ) (p : β) : sendAll step s [p] = step s p :=
  Reply.andThen_ok _

theorem sendAll_append_eq (s : σ) (ps qs : List β) :
    sendAll step s (ps ++ qs) = (sendAll step s ps).andThen fun s => sendAll step s qs := by
  induction ps generalizing s with
  | nil => rfl
  | cons p ps ih =>
      rw [List.cons_append, sendAll, sendAll, Reply.andThen_assoc]
      exact congrArg _ (funext ih)

theorem sendAll_agrees {ps : List β}
    (h : ∀ p ∈ ps, ∀ s s', R s s' → (step s p).Agrees R (step' s' p)) (hs : R s s') :
    (sendAll step s ps).Agrees R (sendAll step' s' ps) := by
  induction ps generalizing s s' with
  | nil => exact ⟨rfl, hs⟩
  | cons p ps ih =>
      rw [List.forall_mem_cons] at h
      exact (h.1 s s' hs).andThen fun _ _ => ih h.2

theorem sendEach_agrees (h : ∀ s s' c, R s s' → (step s c).Agrees R (step' s' c)) (cs : List β)
    (hs : R s s') : (sendEach step s cs).Agrees R (sendEach step' s' cs) := by
  induction cs generalizing s s' with
  | nil => exact ⟨rfl, hs⟩
  | cons c cs ih =>
      obtain ⟨hfault, hstate⟩ := h s s' c hs
      obtain ⟨hfaults, hlast⟩ := ih hstate
      exact ⟨by simp only [sendEach, hfault, hfaults], hlast⟩

theorem sendEach_map {f : σ → τ} (h : ∀ s p, step' (f s) p = (step s p).map f) (s : σ) (cs : List β) :
    sendEach step' (f s) cs = ⟨f (sendEach step s cs).state, (sendEach step s cs).faults⟩ := by
  induction cs generalizing s with
  | nil => rfl
  | cons c cs ih =>
      rw [sendEach, sendEach, h]
      simp only [Reply.map, ih]

end Agreement

section Depths

variable {α σ τ : Type} {R : Nat → σ → τ → Prop} {step : σ → Call α → Reply σ}
  {step' : τ → Call α → Reply τ} {s : σ} {s' : τ}

theorem callsDepth?_cons {n m : Nat} {c : Call α} {cs : List (Call α)} :
    callsDepth? n (c :: cs) = some m ↔ ∃ k, c.depthAfter? n = some k ∧ callsDepth? k cs = some m := by
  rw [callsDepth?, List.foldlM_cons]
  exact Option.bind_eq_some_iff

theorem callsDepth?_append {n m k : Nat} {cs ds : List (Call α)} (h : callsDepth? n cs = some k)
    (h' : callsDepth? k ds = some m) : callsDepth? n (cs ++ ds) = some m := by
  rw [callsDepth?, List.foldlM_append]
  exact Option.bind_eq_some_iff.mpr ⟨k, h, h'⟩

/-- Calls that keep the protocol drop the origins that they push, and no others. -/
theorem Keeps.callsDepth? {cs : List (Call α)} (h : Keeps cs) (n : Nat) :
    callsDepth? n cs = some n := by
  induction h generalizing n with
  | nil => rfl
  | @mark c cs hc _ ih =>
      refine callsDepth?_cons.mpr ⟨n, ?_, ih n⟩
      cases c with
      | composite => rfl
      | primitive p =>
          cases p with
          | pushTranslate | popTranslate => cases hc
          | _ => rfl
  | frame origin _ _ ih ih' =>
      refine callsDepth?_cons.mpr ⟨n + 1, rfl, ?_⟩
      exact callsDepth?_append (ih (n + 1)) (callsDepth?_cons.mpr ⟨n, rfl, ih' n⟩)
  | link name _ _ ih ih' =>
      refine callsDepth?_cons.mpr ⟨n, rfl, ?_⟩
      exact callsDepth?_append (ih n) (callsDepth?_cons.mpr ⟨n, rfl, ih' n⟩)

/-- A relation for each number of origins pushed, carried along calls that drop only what they push. -/
theorem sendEach_agrees_from (h : ∀ {n m c s s'}, c.depthAfter? n = some m → R n s s' →
      (step s c).Agrees (R m) (step' s' c)) {n m : Nat} {cs : List (Call α)}
    (hcs : callsDepth? n cs = some m) (hs : R n s s') :
    (sendEach step s cs).Agrees (R m) (sendEach step' s' cs) := by
  induction cs generalizing n s s' with
  | nil =>
      cases hcs
      exact ⟨rfl, hs⟩
  | cons c cs ih =>
      obtain ⟨k, hc, hcs⟩ := callsDepth?_cons.mp hcs
      obtain ⟨hfault, hstate⟩ := h hc hs
      obtain ⟨hfaults, hlast⟩ := ih hcs hstate
      exact ⟨by simp only [sendEach, hfault, hfaults], hlast⟩

theorem sendAll_agrees_from (h : ∀ {n m c s s'}, c.depthAfter? n = some m → R n s s' →
      (step s c).Agrees (R m) (step' s' c)) {n m : Nat} {cs : List (Call α)}
    (hcs : callsDepth? n cs = some m) (hs : R n s s') :
    (sendAll step s cs).Agrees (fun s s' => ∃ k, R k s s') (sendAll step' s' cs) := by
  induction cs generalizing n s s' with
  | nil => exact ⟨rfl, n, hs⟩
  | cons c cs ih =>
      obtain ⟨k, hc, hcs⟩ := callsDepth?_cons.mp hcs
      obtain ⟨hfault, hstate⟩ := h hc hs
      rw [sendAll, sendAll, Reply.andThen, Reply.andThen, ← hfault]
      cases (step s c).fault with
      | none => exact ih hcs hstate
      | some fault => exact ⟨hfault, k, hstate⟩

end Depths

/-- An output together with the primitives that it has received. -/
structure Logged (α σ : Type) where
  inner : σ
  received : List (Primitive α)

/-- Notes a primitive and hands it on. -/
def Logged.primitive {α σ : Type} (step : σ → Primitive α → Reply σ) (l : Logged α σ) (p : Primitive α) :
    Reply (Logged α σ) :=
  (step l.inner p).map fun inner => ⟨inner, l.received ++ [p]⟩

/-- The primitive that a record of one tells of. -/
def Record.primitive? {α : Type} (r : Record α) : Option (Primitive α) :=
  match r.name, r.args with
  | "open", [] => some .openDocument
  | "close", [] => some .closeDocument
  | "push_translate", [.point origin] => some (.pushTranslate origin)
  | "pop_translate", [] => some .popTranslate
  | "rectangle", [.number x, .number y, .number w, .number h, .style style] =>
      some (.rectangle x y w h style)
  | "rounded_rectangle", [.number x, .number y, .number w, .number h, .style style] =>
      some (.roundedRectangle x y w h style)
  | "circle", [.number x, .number y, .number r, .style style] => some (.circle x y r style)
  | "text", [.number x, .number y, .number w, .number h, .text s, .style style] =>
      some (.text x y w h s style)
  | "centered_text", [.number x, .number y, .number w, .number h, .text s, .style style] =>
      some (.centeredText x y w h s style)
  | "path_begin", [.number x, .number y, .style style] => some (.pathBegin x y style)
  | "path_h_to", [.number x] => some (.pathHTo x)
  | "path_v_to", [.number y] => some (.pathVTo y)
  | "path_arc", [.number radius, .arc arc] => some (.pathArc radius arc)
  | "path_arrow_left", [.number size] => some (.pathArrowLeft size)
  | "path_arrow_right", [.number size] => some (.pathArrowRight size)
  | "path_arrow_down", [.number size] => some (.pathArrowDown size)
  | "path_end", [] => some .pathEnd
  | "begin_diagram", [.number x, .number y, .number w, .number h, .text name] =>
      some (.beginDiagram x y w h name)
  | "end_diagram", [] => some .endDiagram
  | "begin_link", [.text name] => some (.beginLink name)
  | "end_link", [] => some .endLink
  | _, _ => none

theorem Record.primitive?_record {α : Type} (p : Primitive α) (origin : Point α) (nested : Bool) :
    (p.record origin nested).primitive? = some p := by
  cases p <;> rfl

/-- The primitives that records tell of, those of composites left out. -/
def toldBy? {α : Type} (records : List (Record α)) : Option (List (Primitive α)) :=
  (records.filter (!·.composite)).mapM Record.primitive?

section Records

variable {α : Type} {r : Recorder α}

theorem toldBy?_note {ps : List (Primitive α)} (h : toldBy? r.records.toList = some ps) (p : Primitive α) :
    toldBy? (r.note p).records.toList = some (ps ++ [p]) := by
  have hone : toldBy? [p.record r.origins.current (0 < r.depth)] = some [p] := by
    change List.mapM _ [p.record r.origins.current (0 < r.depth)] = _
    rw [List.mapM_cons, Record.primitive?_record]
    rfl
  rw [toldBy?] at h hone
  rw [toldBy?, Recorder.note, Array.toList_push, List.filter_append, List.mapM_append, h, hone]
  rfl

theorem toldBy?_enter (c : Composite α) :
    toldBy? (r.enter c).records.toList = toldBy? r.records.toList := by
  rw [toldBy?, toldBy?, Recorder.enter, Array.toList_push, List.filter_append]
  simp [Composite.record]

end Records

section Composites

variable {α σ τ : Type} [Scalar α] {step : σ → Primitive α → Reply σ} {step' : τ → Primitive α → Reply τ}
  {R : Traced α σ → τ → Prop} {t : Traced α σ} {s : τ} {c : Composite α}

/-- A relation between a recorder with an output behind it and another output, which paths keep and which
does not mind the composites that are entered and left. -/
structure Follows (step : σ → Primitive α → Reply σ) (step' : τ → Primitive α → Reply τ)
    (R : Traced α σ → τ → Prop) : Prop where
  path : ∀ {ps}, IsPath ps → ∀ p ∈ ps, ∀ t s, R t s → (t.primitive step p).Agrees R (step' s p)
  enter : ∀ {t s} (c : Composite α), R t s → R (t.enter c) s
  leave : ∀ {t s}, R t s → R t.leave s

theorem Follows.stroke (h : Follows step step' R) (hts : R t s) {ps : List (Primitive α)}
    (hps : c.strokes = .ok ps) (hpath : IsPath ps) :
    (t.stroke step c).Agrees R (sendAll step' s ps) := by
  rw [Traced.stroke, hps]
  exact sendAll_agrees (h.path hpath) hts

/-- The shaft of an arrow, if there is one, is drawn first. -/
theorem Follows.shaft (h : Follows step step' R) (hts : R t s) (c : Composite α) :
    ∃ qs, c.primitives = (c.strokes.map (qs ++ ·)) ∧
      (match c.shaft? with
        | some l => t.line step l
        | none => .ok t).Agrees R (sendAll step' s qs) := by
  rw [Composite.primitives]
  cases hshaft : c.shaft? with
  | none =>
      refine ⟨[], ?_, rfl, hts⟩
      cases c.strokes <;> rfl
  | some l =>
      obtain ⟨qs, hqs, hpath⟩ := Composite.exists_strokes (Composite.isSupported_shaft hshaft)
      refine ⟨qs, ?_, (h.stroke (h.enter l hts) hqs hpath).andThen_ok fun _ _ => h.leave⟩
      simp only [hqs]
      cases c.strokes <;> rfl

/-- A composite is drawn behind a recorder as it is in front of it. -/
theorem Follows.composite (h : Follows step step' R) (hts : R t s) (c : Composite α) :
    (t.composite step c).Agrees R (sendCall step' s (.composite c)) := by
  obtain ⟨qs, hqs, hshaft⟩ := h.shaft (h.enter c hts) c
  rw [sendCall, Call.primitives, hqs]
  cases hsupported : c.isSupported with
  | false =>
      cases c with
      | connector leaving p q arriving r style =>
          have hnone : connectorSegments? leaving arriving p q r = none := by
            rwa [← Option.isNone_iff_eq_none, ← Option.isSome_eq_false_iff, isSome_connectorSegments?]
          have hstrokes : (Composite.connector leaving p q arriving r style).strokes =
              .error (.unsupportedConnector leaving arriving) := by
            rw [Composite.strokes, hnone]
          rw [Traced.composite, Traced.stroke, hstrokes]
          exact ⟨rfl, h.leave (h.enter _ hts)⟩
      | hline | vline | arrowLeft | arrowRight | arrowDown => cases hsupported
  | true =>
      obtain ⟨ps, hps, hpath⟩ := Composite.exists_strokes hsupported
      have hdrawn : ((match c.shaft? with
          | some l => (t.enter c).line step l
          | none => .ok (t.enter c)).andThen fun t => t.stroke step c).Agrees R
            (sendAll step' s (qs ++ ps)) := by
        rw [sendAll_append_eq]
        exact hshaft.andThen fun _ _ hts => h.stroke hts hps hpath
      rw [hps]
      cases c with
      | connector => exact ⟨hdrawn.fault, h.leave hdrawn.state⟩
      | hline | vline | arrowLeft | arrowRight | arrowDown =>
          exact hdrawn.andThen_ok fun _ _ => h.leave

end Composites

section Mirrors

variable {α σ : Type} {n m : Nat} {t : Traced α σ} {l : Logged α σ}

/-- A recorder in which so many origins are pushed, in front of an output that has received what the records
tell of. -/
structure Traced.Mirrors (n : Nat) (t : Traced α σ) (l : Logged α σ) : Prop where
  depth : t.recorder.origins.depth = n
  inner : t.inner = l.inner
  told : toldBy? t.recorder.records.toList = some l.received

theorem exists_of_depthAfter? {o : Origins α}
    (h : (Call.primitive (α := α) .popTranslate).depthAfter? o.depth = some m) :
    ∃ o', o.pop = .ok o' ∧ o'.depth = m := by
  obtain ⟨current, _ | ⟨p, ps⟩⟩ := o
  · cases h
  · exact ⟨⟨p, ps⟩, rfl, Option.some.inj h⟩

variable [Scalar α] {step : σ → Primitive α → Reply σ}

theorem sendCall_primitive (s : σ) (p : Primitive α) : sendCall step s (.primitive p) = step s p :=
  sendAll_single s p

namespace Traced.Mirrors

omit [Scalar α] in
theorem forward (h : t.Mirrors n l) (p : Primitive α) :
    (t.forward step p).Agrees (Mirrors n) (l.primitive step p) := by
  rw [Traced.forward, Logged.primitive, ← h.inner]
  exact ⟨rfl, h.depth, rfl, toldBy?_note h.told p⟩

theorem follows (n : Nat) : Follows step (Logged.primitive step) (Mirrors n) where
  path hps p hp t l h := by
    rw [Traced.primitive_of_mem_path hps hp]
    exact h.forward p
  enter c h := ⟨h.depth, h.inner, (toldBy?_enter c).trans h.told⟩
  leave h := ⟨h.depth, h.inner, h.told⟩

/-- An output that takes every origin is told from behind a recorder what it is told without one, as long as
no origin is dropped that has not been pushed. -/
theorem call (hpush : ∀ s origin, (step s (.pushTranslate origin)).fault = none) {c : Call α}
    (hc : c.depthAfter? n = some m) (h : t.Mirrors n l) :
    (t.call step c).Agrees (Mirrors m) (sendCall (Logged.primitive step) l c) := by
  cases c with
  | composite c =>
      cases hc
      exact (follows n).composite h c
  | primitive p =>
      rw [sendCall_primitive, Traced.call]
      cases p with
      | pushTranslate origin =>
          obtain rfl : n + 1 = m := Option.some.inj hc
          have hnone : (t.forward step (.pushTranslate origin)).fault = none := hpush t.inner origin
          have hforward : (t.forward step (.pushTranslate origin)).Agrees (Mirrors n) _ := h.forward _
          obtain ⟨hfault, hdepth, hinner, htold⟩ := hforward
          rw [Traced.primitive, Reply.andThen, hnone]
          exact ⟨hnone.symm.trans hfault, congrArg (· + 1) hdepth, hinner, htold⟩
      | popTranslate =>
          obtain ⟨origins, hpop, hdepth⟩ := exists_of_depthAfter? (h.depth ▸ hc)
          rw [Traced.primitive, hpop]
          exact forward (t := ⟨{ t.recorder with origins }, t.inner⟩) ⟨hdepth, h.inner, h.told⟩ _
      | _ =>
          cases hc
          exact h.forward _

theorem sendEach (hpush : ∀ s origin, (step s (.pushTranslate origin)).fault = none)
    {cs : List (Call α)} (hcs : callsDepth? n cs = some m) (h : t.Mirrors n l) :
    (sendEach (Traced.call step) t cs).Agrees (Mirrors m)
      (sendEach (sendCall (Logged.primitive step)) l cs) :=
  sendEach_agrees_from (fun hc h => h.call hpush hc) hcs h

end Traced.Mirrors

end Mirrors

section Logs

variable {α σ : Type} [Scalar α] {step : σ → Primitive α → Reply σ} {l : Logged α σ}

/-- An output answers the same with a log. -/
theorem Logged.call_agrees (step : σ → Primitive α → Reply σ) {s : σ} (h : l.inner = s) (c : Call α) :
    (sendCall (Logged.primitive step) l c).Agrees (fun l s => l.inner = s) (sendCall step s c) := by
  rw [sendCall, sendCall]
  cases c.primitives with
  | error fault => exact ⟨rfl, h⟩
  | ok ps =>
      refine sendAll_agrees (fun p _ l s h => ?_) h
      subst h
      exact ⟨rfl, rfl⟩

theorem Logged.sendEach_agrees (step : σ → Primitive α → Reply σ) (l : Logged α σ) (cs : List (Call α)) :
    (sendEach (sendCall (Logged.primitive step)) l cs).Agrees (fun l s => l.inner = s)
      (sendEach (sendCall step) l.inner cs) :=
  Railroad.sendEach_agrees (fun _ _ c h => call_agrees step h c) cs rfl

omit [Scalar α] in
/-- As long as nothing goes wrong, an output that is sent what is in the log comes to the same state. -/
theorem Logged.replays_sendAll {s : σ} {ps : List (Primitive α)}
    (h : sendAll step s l.received = .ok l.inner)
    (hps : (sendAll (Logged.primitive step) l ps).fault = none) :
    let l' := (sendAll (Logged.primitive step) l ps).state
    sendAll step s l'.received = .ok l'.inner := by
  induction ps generalizing l with
  | nil => exact h
  | cons p ps ih =>
      rw [sendAll, Reply.andThen] at hps ⊢
      cases hfault : (l.primitive step p).fault with
      | some fault =>
          rw [hfault] at hps
          exact absurd (hfault.symm.trans hps) (by simp)
      | none =>
          rw [hfault] at hps
          refine ih ?_ hps
          have hinner : step l.inner p = .ok (step l.inner p).state := by
            rw [Reply.ok, ← show (step l.inner p).fault = none from hfault]
          change sendAll step s (l.received ++ [p]) = .ok (step l.inner p).state
          rw [sendAll_append_eq, h, ← hinner]
          exact sendAll_single l.inner p

theorem Logged.replays_sendEach {s : σ} {cs : List (Call α)}
    (h : sendAll step s l.received = .ok l.inner)
    (hcs : ∀ f ∈ (sendEach (sendCall (Logged.primitive step)) l cs).faults, f = none) :
    let l' := (sendEach (sendCall (Logged.primitive step)) l cs).state
    sendAll step s l'.received = .ok l'.inner := by
  induction cs generalizing l with
  | nil => exact h
  | cons c cs ih =>
      rw [sendEach, List.forall_mem_cons] at hcs
      refine ih ?_ hcs.2
      have hc := hcs.1
      rw [sendCall] at hc ⊢
      cases hps : c.primitives with
      | error fault =>
          rw [hps] at hc
          cases hc
      | ok ps =>
          rw [hps] at hc
          exact replays_sendAll h hc

end Logs

/-- A recorder without its records of composites and without the marks of nesting. -/
def Recorder.plain {α : Type} (r : Recorder α) : Recorder α :=
  ⟨r.origins, (r.records.filter (!·.composite)).map ({ · with nested := false }), 0⟩

def Traced.plain {α σ : Type} (t : Traced α σ) : Traced α σ :=
  ⟨t.recorder.plain, t.inner⟩

/-- An output as it is, except that a recorder loses its records of composites and the marks of nesting. -/
def Surface.plain {α : Type} : Surface α → Surface α
  | recording r => recording r.plain
  | s => s

section Plain

variable {α σ : Type} [Scalar α] {step : σ → Primitive α → Reply σ} {t t' : Traced α σ}

omit [Scalar α] in
theorem Recorder.origins_of_plain {r r' : Recorder α} (h : r.plain = r'.plain) : r.origins = r'.origins :=
  (Recorder.mk.inj h).1

omit [Scalar α] in
theorem Recorder.plain_note (r : Recorder α) (p : Primitive α) : (r.note p).plain =
    ⟨r.origins, r.plain.records.push (p.record r.origins.current false), 0⟩ := by
  simp [plain, note, Primitive.record]

omit [Scalar α] in
theorem Recorder.plain_enter (r : Recorder α) (c : Composite α) : (r.enter c).plain = r.plain := by
  simp [plain, enter, Composite.record]

namespace Traced

/-- Recorders that have seen the same, composites apart, in front of one and the same state. -/
structure SameCalls (t t' : Traced α σ) : Prop where
  recorder : t.recorder.plain = t'.recorder.plain
  inner : t.inner = t'.inner

omit [Scalar α] in
theorem SameCalls.plain_eq (h : SameCalls t t') : t.plain = t'.plain := by
  rw [plain, plain, h.recorder, h.inner]

omit [Scalar α] in
theorem SameCalls.forward (h : SameCalls t t') (p : Primitive α) :
    (t.forward step p).Agrees SameCalls (t'.forward step p) := by
  rw [Traced.forward, Traced.forward, h.inner]
  refine ⟨rfl, ?_, rfl⟩
  change (t.recorder.note p).plain = (t'.recorder.note p).plain
  rw [Recorder.plain_note, Recorder.plain_note, Recorder.origins_of_plain h.recorder, h.recorder]

omit [Scalar α] in
theorem SameCalls.withOrigins (h : SameCalls t t') (origins : Origins α) :
    SameCalls ⟨{ t.recorder with origins }, t.inner⟩ ⟨{ t'.recorder with origins }, t'.inner⟩ :=
  ⟨congrArg (fun r : Recorder α => { r with origins }) h.recorder, h.inner⟩

theorem SameCalls.primitive (h : SameCalls t t') (p : Primitive α) :
    (t.primitive step p).Agrees SameCalls (t'.primitive step p) := by
  have horigins : t.recorder.origins = t'.recorder.origins := Recorder.origins_of_plain h.recorder
  cases p with
  | pushTranslate origin =>
      rw [Traced.primitive, Traced.primitive]
      refine (h.forward _).andThen fun u u' hu => ⟨rfl, ?_⟩
      dsimp only [Reply.ok]
      rw [Recorder.origins_of_plain hu.recorder]
      exact hu.withOrigins _
  | popTranslate =>
      rw [Traced.primitive, Traced.primitive, horigins]
      cases t'.recorder.origins.pop with
      | error fault => exact ⟨rfl, h⟩
      | ok origins => exact (h.withOrigins origins).forward _
  | _ => exact h.forward _

theorem follows_sameCalls : Follows step (Traced.primitive step) (SameCalls (σ := σ)) where
  path hps p hp t t' h := by
    rw [primitive_of_mem_path hps hp, primitive_of_mem_path hps hp]
    exact h.forward p
  enter c h := ⟨(Recorder.plain_enter _ c).trans h.recorder, h.inner⟩
  leave h := ⟨h.recorder, h.inner⟩

/-- A recorder that is called sees the same as one that is sent the primitives of the calls. -/
theorem SameCalls.call (h : SameCalls t t') (c : Call α) :
    (t.call step c).Agrees SameCalls (sendCall (Traced.primitive step) t' c) := by
  cases c with
  | composite c => exact follows_sameCalls.composite h c
  | primitive p =>
      rw [sendCall_primitive]
      exact h.primitive p

end Traced

theorem sendCall_map {τ : Type} {step' : τ → Primitive α → Reply τ} {f : σ → τ}
    (h : ∀ s p, step' (f s) p = (step s p).map f) (s : σ) (c : Call α) :
    sendCall step' (f s) c = (sendCall step s c).map f := by
  rw [sendCall, sendCall]
  cases c.primitives with
  | error fault => rfl
  | ok ps => exact sendAll_map h s ps

namespace Surface

variable {s s' : Surface α}

omit [Scalar α] in
def isRecording : Surface α → Bool
  | recording _ => true
  | _ => false

omit [Scalar α] in
theorem eq_of_plain (h : s.plain = s'.plain) (hs : s'.isRecording = false) : s = s' := by
  cases s with
  | recording => cases s' with
    | recording => cases hs
    | _ => cases h
  | _ => cases s' with
    | recording => cases hs
    | _ => exact h

theorem call_eq (hs : s.isRecording = false) (c : Call α) : s.call c = sendCall primitive s c := by
  cases s with
  | recording => cases hs
  | _ => rfl

/-- An output that answers composites by itself comes to the same as by their primitives. -/
theorem call_plain (h : s.plain = s'.plain) (c : Call α) :
    (s.call c).Agrees (fun s s' => s.plain = s'.plain) (sendCall primitive s' c) := by
  cases hs : s'.isRecording with
  | false =>
      obtain rfl := eq_of_plain h hs
      rw [call_eq hs]
      exact ⟨rfl, rfl⟩
  | true =>
      cases s' with
      | recording r' =>
          cases s with
          | recording r =>
              obtain ⟨hrecorder, hinner⟩ := Traced.mk.inj (recording.inj h)
              have hcalls : (r.call ignore c).Agrees Traced.SameCalls
                  (sendCall (Traced.primitive ignore) r' c) := Traced.SameCalls.call ⟨hrecorder, hinner⟩ c
              rw [show sendCall primitive (recording r') c = (sendCall (Traced.primitive ignore) r' c).map
                recording from sendCall_map (fun _ _ => rfl) r' c]
              exact ⟨hcalls.fault, congrArg recording hcalls.state.plain_eq⟩
          | _ => cases h
      | _ => cases hs

theorem isRecording_call (s : Surface α) (c : Call α) :
    (s.call c).state.isRecording = s.isRecording := by
  cases s with
  | recording => rfl
  | _ =>
      rw [call_eq rfl, sendCall_map fun _ _ => rfl]
      rfl

theorem isRecording_sendEach (s : Surface α) (cs : List (Call α)) :
    (sendEach Surface.call s cs).state.isRecording = s.isRecording := by
  induction cs generalizing s with
  | nil => rfl
  | cons c cs ih => exact (ih _).trans (isRecording_call s c)

theorem fault_push (s : Surface α) (origin : Point α) :
    (s.primitive (.pushTranslate origin)).fault = none := by
  cases s <;> rfl

end Surface

end Plain

/-- The primitives that an output receives when calls are issued on a recorder in front of it. -/
def Surface.received {α : Type} [Scalar α] (s : Surface α) (cs : List (Call α)) : List (Primitive α) :=
  (sendEach (Traced.call (Logged.primitive Surface.primitive)) ⟨.start, ⟨s, []⟩⟩
    cs).state.inner.received

section Outputs

variable {α : Type} [Scalar α] {n : Nat} {cs : List (Call α)}

theorem Traced.Mirrors.start {σ : Type} (s : σ) : Mirrors (α := α) 0 ⟨.start, s⟩ ⟨s, []⟩ :=
  ⟨rfl, rfl, rfl⟩

/-- What an output receives from behind a recorder is what it receives without. -/
theorem Surface.received_eq (s : Surface α) (hcs : callsDepth? 0 cs = some n) : s.received cs =
    (sendEach (sendCall (Logged.primitive Surface.primitive)) ⟨s, []⟩ cs).state.received := by
  have hpush : ∀ (l : Logged α (Surface α)) origin,
      (l.primitive Surface.primitive (.pushTranslate origin)).fault = none :=
    fun l => l.inner.fault_push
  have hmirrors := (Traced.Mirrors.start (⟨s, []⟩ : Logged α (Surface α))).sendEach hpush hcs
  rw [received, hmirrors.state.inner, (Logged.sendEach_agrees _ _ cs).state]

end Outputs

end Railroad
