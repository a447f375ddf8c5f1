import Railroad.Proofs.Drawing.Safety
import Railroad.Proofs.Export.Alike
import Railroad.Proofs.Surface.Tracing
/-!
Tracing does not change what is drawn: neither on an output that calls are issued on one by one, nor in the
run of a generator.
-/
namespace Railroad

section Outputs

variable {α : Type} [Scalar α] {n m : Nat} {o o' : Output α}

/-- An output behind a recorder in which so many origins are pushed, and the same output without. -/
def Output.Shadows (n : Nat) (o o' : Output α) : Prop :=
  ∃ t l s, o = .traced t ∧ o' = .direct s ∧ t.Mirrors n l ∧ l.inner.plain = s.plain

omit [Scalar α] in
theorem Output.Shadows.plain (h : Shadows n o o') : o.surface.plain = o'.surface.plain := by
  obtain ⟨t, l, s, rfl, rfl, hmirrors, hplain⟩ := h
  exact (congrArg Surface.plain hmirrors.inner).trans hplain

theorem Output.Shadows.start (s : Surface α) : Shadows 0 (.traced ⟨.start, s⟩) (.direct s) :=
  ⟨_, _, s, rfl, rfl, .start s, rfl⟩

theorem Output.Shadows.call {c : Call α} (hc : c.depthAfter? n = some m) (h : Shadows n o o') :
    (o.call c).Agrees (Shadows m) (o'.call c) := by
  obtain ⟨t, l, s, rfl, rfl, hmirrors, hplain⟩ := h
  have htraced := hmirrors.call Surface.fault_push hc
  have hlog := Logged.call_agrees Surface.primitive (rfl : l.inner = l.inner) c
  have hdirect := Surface.call_plain hplain.symm c
  refine ⟨htraced.fault.trans (hlog.fault.trans hdirect.fault.symm), _, _, _, rfl, rfl,
    htraced.state, ?_⟩
  exact (congrArg Surface.plain hlog.state).trans hdirect.state.symm

theorem Output.Shadows.sendAll {cs : List (Call α)} (hcs : callsDepth? n cs = some m)
    (h : Shadows n o o') :
    (sendAll Output.call o cs).Agrees (fun o o' => ∃ k, Shadows k o o') (sendAll Output.call o' cs) :=
  sendAll_agrees_from (fun hc h => h.call hc) hcs h

variable {root : Node} {table : BoxTable α}

/-- A grammar that has been laid out is drawn behind a recorder as it is without. -/
theorem Output.Shadows.drawLaidOut (h : Shadows 0 o o') (hlayout : layoutGrammar root = .ok table)
    (links : List String) :
    (drawLaidOut o root table links).1 = (drawLaidOut o' root table links).1 ∧
      ∃ k, Shadows k (drawLaidOut o root table links).2 (drawLaidOut o' root table links).2 := by
  obtain ⟨-, session, -, hkeeps, hcalls⟩ := exists_diagramCalls hlayout links
  have hdepth : callsDepth? 0 (diagramCalls root (.start table links .none)).1 = some 0 := by
    rw [hcalls]
    refine callsDepth?_cons.mpr ⟨0, rfl, ?_⟩
    exact callsDepth?_append (hkeeps.callsDepth? 0) rfl
  obtain ⟨hfault, hstate⟩ := h.sendAll hdepth
  rw [Railroad.drawLaidOut, Railroad.drawLaidOut]
  generalize diagramCalls root (.start table links .none) = drawing at hfault hstate
  obtain ⟨calls, fault, session⟩ := drawing
  dsimp only at hfault hstate ⊢
  rw [← hfault]
  cases (Railroad.sendAll Output.call o calls).fault with
  | some f => exact ⟨rfl, hstate⟩
  | none => cases fault <;> exact ⟨rfl, hstate⟩

/-- A grammar that has been laid out is drawn as the same document behind a recorder and without. -/
theorem Output.Shadows.drawDocument (h : Shadows 0 o o') (hlayout : layoutGrammar root = .ok table)
    (links : List String) :
    (drawDocument o root table links).1 = (drawDocument o' root table links).1 ∧
      (drawDocument o root table links).2.surface.plain =
        (drawDocument o' root table links).2.surface.plain := by
  obtain ⟨hfault, hopened⟩ := h.call (c := .primitive .openDocument) rfl
  rw [Railroad.drawDocument, Railroad.drawDocument, ← hfault]
  cases (o.call (.primitive .openDocument)).fault with
  | some f => exact ⟨rfl, hopened.plain⟩
  | none =>
      obtain ⟨hresult, k, hdrawn⟩ := hopened.drawLaidOut hlayout links
      dsimp only
      generalize Railroad.drawLaidOut _ root table links = drawn at hresult hdrawn ⊢
      generalize Railroad.drawLaidOut _ root table links = drawn' at hresult hdrawn ⊢
      obtain ⟨result, o⟩ := drawn
      obtain ⟨_, o'⟩ := drawn'
      obtain rfl := hresult
      cases result with
      | error f => exact ⟨rfl, hdrawn.plain⟩
      | ok session =>
          obtain ⟨hfault, hclosed⟩ := hdrawn.call (c := .primitive .closeDocument) rfl
          dsimp only
          rw [← hfault]
          cases (o.call (.primitive .closeDocument)).fault with
          | some f => exact ⟨rfl, hclosed.plain⟩
          | none => exact ⟨rfl, hclosed.plain⟩

end Outputs

namespace Generator

variable {β γ : Type}

theorem outcome_bind {x : Generating β} {f f' : β → Generating γ}
    (h : ∀ b g, outcome (f b g) = outcome (f' b g)) (g : Generator) :
    outcome ((x >>= f) g) = outcome ((x >>= f') g) := by
  change outcome (EStateM.bind x f g) = outcome (EStateM.bind x f' g)
  rw [EStateM.bind, EStateM.bind]
  cases x g with
  | ok b g => exact h b g
  | error fault g => rfl

theorem artifact_of_plain {s s' : Surface Float} (h : s.plain = s'.plain) : s.artifact = s'.artifact := by
  cases hs : s'.isRecording with
  | false => rw [Surface.eq_of_plain h hs]
  | true =>
      cases s' with
      | recording =>
          cases s with
          | recording => rfl
          | _ => cases h
      | _ => cases hs

/-- A grammar is drawn as the same document behind a recorder and without. -/
theorem drawRoot_traced (root : Node) (s : Surface Float) (name name' : String) :
    Alike (fun drawn drawn' => drawn.2.surface.artifact = drawn'.2.surface.artifact)
      (drawRoot root (.traced ⟨.start, s⟩) name) (drawRoot root (.direct s) name') := by
  rw [drawRoot, drawRoot]
  refine .bind .get fun g g' hsame => ?_
  rw [hsame.links]
  cases hlayout : layoutGrammar (α := Float) root with
  | error fault => exact .stop _
  | ok table =>
      refine .bind (R := fun t t' => t = table ∧ t' = table) (.pure ⟨rfl, rfl⟩) ?_
      rintro _ _ ⟨rfl, rfl⟩
      refine .bind (Alike.note _ _) fun _ _ _ => ?_
      obtain ⟨hresult, hplain⟩ := (Output.Shadows.start s).drawDocument hlayout
        (if g'.links then root.ruleNames else [])
      generalize drawDocument (α := Float) (.traced _) root _ _ = drawing at hresult hplain ⊢
      generalize drawDocument (α := Float) (.direct _) root _ _ = drawing' at hresult hplain ⊢
      obtain ⟨result, o⟩ := drawing
      obtain ⟨_, o'⟩ := drawing'
      obtain rfl := hresult
      refine .bind (Alike.orFail _ _) fun session session' _ => ?_
      refine .bind (Alike.note _ _) fun _ _ _ => .bind (Alike.note _ _) fun _ _ _ => ?_
      exact .pure (artifact_of_plain hplain)

/-- A text is drawn alike whether the run is traced or not. -/
theorem draw_traced (format : Format) (settings : List Setting) (text : String) (g : Generator) :
    outcome (draw format settings text true g) = outcome (draw format settings text false g) := by
  rw [draw, draw]
  refine outcome_bind (fun surface g => outcome_bind (fun root g => ?_) g) g
  change _ = outcome ((drawRoot root (.direct surface) format.outputName >>= fun drawn =>
    pure drawn.2.surface.artifact) { g with trace := none })
  refine Alike.outcome_eq ?_ ⟨rfl, rfl, rfl⟩
  refine .bind (drawRoot_traced root surface _ _) fun drawn drawn' h => ?_
  exact fun g g' hsame => .ok h ⟨hsame.format, hsame.links, hsame.settings⟩

theorem generate_traced (text : String) (g : Generator) :
    outcome (generate text true g) = outcome (generate text false g) := by
  rw [generate, generate]
  refine outcome_bind (fun g' g => ?_) g
  split
  · rfl
  · exact draw_traced g'.format g'.settings text g

end Generator

/-- A recorder in front of an output changes nothing about it.

Calls may go wrong as long as no origin is dropped that has not been pushed.  They find the same faults with a
recorder in front and without, and leave the output in the same state; if that is a recorder itself, it
lacks the records of composites.  The records, those of composites left out, tell exactly what
the output has received; if nothing has gone wrong, sending it once more leads to the same state.  So a
generator makes the same of a text, or fails with the same fault, whether the run is traced or not. -/
theorem tracing_transparent {α : Type} [Scalar α] (s : Surface α) {cs : List (Call α)}
    (hcs : (callsDepth? 0 cs).isSome = true) :
    (let direct := sendEach Output.call (.direct s) cs
     let traced := sendEach Output.call (.traced ⟨.start, s⟩) cs
     traced.faults = direct.faults ∧
     traced.state.surface.plain = direct.state.surface.plain ∧
     (s.isRecording = false → traced.state.surface = direct.state.surface) ∧
     toldBy? traced.state.records.toList = some (s.received cs) ∧
     ((∀ f ∈ traced.faults, f = none) →
       sendAll Surface.primitive s (s.received cs) = .ok traced.state.surface)) ∧
    ∀ (text : String) (g : Generator),
      Generator.outcome (Generator.generate text true g) =
        Generator.outcome (Generator.generate text false g) := by
  refine ⟨?_, Generator.generate_traced⟩
  obtain ⟨n, hcs⟩ := Option.isSome_iff_exists.mp hcs
  intro direct traced
  have hdirect : direct = _ := sendEach_map (f := Output.direct) (fun _ _ => rfl) s cs
  have htraced : traced = _ := sendEach_map (f := Output.traced) (fun _ _ => rfl) ⟨.start, s⟩ cs
  have hmirrors := (Traced.Mirrors.start s).sendEach Surface.fault_push hcs
  have hlog := Logged.sendEach_agrees Surface.primitive ⟨s, []⟩ cs
  have hplain := sendEach_agrees (fun _ _ c h => Surface.call_plain h c) cs (rfl : s.plain = s.plain)
  have hstate := hmirrors.state.inner.trans hlog.state
  have hsame := (congrArg Surface.plain hstate).trans hplain.state.symm
  rw [hdirect, htraced]
  refine ⟨?_, hsame, fun hs => ?_, ?_, fun hnone => ?_⟩
  · exact hmirrors.faults.trans (hlog.faults.trans hplain.faults.symm)
  · exact Surface.eq_of_plain hsame ((s.isRecording_sendEach cs).trans hs)
  · rw [s.received_eq hcs]
    exact hmirrors.state.told
  · rw [s.received_eq hcs]
    refine (Logged.replays_sendEach rfl ?_).trans (congrArg _ hmirrors.state.inner.symm)
    rw [← hmirrors.faults]
    exact hnone

/-- Calls of which two go wrong, one before anything is sent and one on the way. -/
def detour : List (Call Rat) :=
  [.primitive (.pushTranslate ⟨3, 4⟩), .composite (.hline ⟨0, 0⟩ ⟨10, 0⟩ .line),
    .composite (.connector .up ⟨0, 0⟩ ⟨1, 1⟩ .up 10 .line), .primitive (.pathHTo 5),
    .primitive .popTranslate, .primitive (.circle 0 0 2 .terminator)]

theorem tracing_transparent_detour :
    let s : Surface Rat := .svg (.start SurfaceKind.svgOptions)
    let direct := sendEach Output.call (.direct s) detour
    let traced := sendEach Output.call (.traced ⟨.start, s⟩) detour
    (callsDepth? 0 detour).isSome = true ∧
    direct.faults =
      [none, none, some (.unsupportedConnector .up .up), some .segmentOutsidePath, none, none] ∧
    (traced.faults = direct.faults ∧
      traced.state.surface.plain = direct.state.surface.plain ∧
      (s.isRecording = false → traced.state.surface = direct.state.surface) ∧
      toldBy? traced.state.records.toList = some (s.received detour) ∧
      ((∀ f ∈ traced.faults, f = none) →
        sendAll Surface.primitive s (s.received detour) = .ok traced.state.surface)) ∧
    ∀ (text : String) (g : Generator),
      Generator.outcome (Generator.generate text true g) =
        Generator.outcome (Generator.generate text false g) := by
  intro s direct traced
  have hdepth : (callsDepth? 0 detour).isSome = true := rfl
  exact ⟨hdepth, by decide, tracing_transparent s hdepth⟩

/-- A recorder behind another one is not left in the same state: it never sees the composite, and takes its
primitives for calls of their own. -/
theorem recorder_lacks_composites :
    let s : Surface Rat := .recording ⟨.start, ()⟩
    let cs : List (Call Rat) := [.composite (.hline ⟨0, 0⟩ ⟨10, 0⟩ .line)]
    let direct := (sendEach Output.call (.direct s) cs).state.surface
    let traced := (sendEach Output.call (.traced ⟨.start, s⟩) cs).state.surface
    (callsDepth? 0 cs).isSome = true ∧
      (Output.direct direct).records.toList.map (fun r => (r.name, r.nested)) =
        [("hline", false), ("path_begin", true), ("path_h_to", true), ("path_end", true)] ∧
      (Output.direct traced).records.toList.map (fun r => (r.name, r.nested)) =
        [("path_begin", false), ("path_h_to", false), ("path_end", false)] ∧
      traced ≠ direct := by
  intro s cs direct traced
  have hdirect : (Output.direct direct).records.toList.map (fun r => (r.name, r.nested)) =
      [("hline", false), ("path_begin", true), ("path_h_to", true), ("path_end", true)] := by decide
  have htraced : (Output.direct traced).records.toList.map (fun r => (r.name, r.nested)) =
      [("path_begin", false), ("path_h_to", false), ("path_end", false)] := by decide
  refine ⟨rfl, hdirect, htraced, fun heq => ?_⟩
  rw [heq, hdirect] at htraced
  simp at htraced

end Railroad
