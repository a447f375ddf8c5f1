import Railroad.Drawing.Sheet
import Railroad.Proofs.Drawing.Renderer
import Railroad.Proofs.Layout.Success
import Railroad.Proofs.Surface.Answers
/-!
Drawing a tree that has been laid out is safe on every output that records or writes SVG, HTML or TikZ.
-/
namespace Railroad

variable {α : Type} [Scalar α]

/-- The boxes of a grammar are those of a layout outside the flow. -/
theorem exists_of_layoutGrammar {root : Node} {table : BoxTable α} (h : layoutGrammar root = .ok table) :
    ∃ engine, Engine.layout root .none = (.ok table, engine) := by
  rw [layoutGrammar] at h
  split at h
  · cases h
  · refine Engine.exists_of_mem_layout ?_
    split at h
    · cases h
    · rename_i table' hlayout
      cases h
      rw [hlayout]
      rfl

theorem layoutGrammar_of_layout {root : Node} (hroot : root.isGrammar = true) {table : BoxTable α}
    {engine : Engine α} (h : Engine.layout root .none = (.ok table, engine)) :
    layoutGrammar root = .ok table := by
  rw [layoutGrammar, h, hroot]
  rfl

/-- The calls that draw a grammar which has been laid out, those that announce and end its diagram apart, keep
the protocol. -/
theorem exists_diagramCalls {root : Node} {table : BoxTable α} (h : layoutGrammar root = .ok table)
    (links : List String) : ∃ (handsBack : Bool) (session : DrawingSession α),
      (DrawingSession.start table links .none).draw root false = (.ok handsBack, session) ∧
      Keeps session.calls ∧
      let box := Backdrop.box ⟨table, links⟩ root
      diagramCalls root (.start table links .none) =
        (.primitive (.beginDiagram box.tl.x box.tl.y box.width box.height "top") :: session.calls ++
          [.primitive .endDiagram], none, session) := by
  obtain ⟨engine, h⟩ := exists_of_layoutGrammar h
  obtain ⟨hcomplete, -, hheight⟩ := Engine.conditions_of_layout h
  have hcovers : (⟨table, links⟩ : Backdrop α).Covers root := Engine.box_of_layout h
  obtain ⟨hfault, hkeeps⟩ := draws_of_complete (k := 0) hcomplete hcovers (by omega) (.new .none) false
  have hdraw := (DrawingSession.start table links .none).draw_of_noFault hfault
  refine ⟨_, _, hdraw, ?_, ?_⟩
  · simpa [DrawingSession.calls, DrawingSession.start] using hkeeps
  · rw [diagramCalls, hdraw]
    rfl

/-- A tree that has been laid out is drawn without a fault, in whatever context it is entered, also by the
program that saves and restores the context as it goes; context and nesting are then as before.  Every
call has its primitives, and they keep the protocol; so an output answers all of them, and has no open
path and the same origins in force afterwards. -/
theorem draw_safe {root : Node} {direction : Direction} {table : BoxTable α} {e : Engine α}
    (h : Engine.layout root direction = (.ok table, e)) (links : List String) (c : Context α)
    (above : Bool) :
    ∃ (handsBack : Bool) (session : DrawingSession α),
      DrawingSession.draw ⟨⟨table, links⟩, c, 0, #[]⟩ root above = (.ok handsBack, session) ∧
      (Drawing.render ⟨table, links⟩ root above).run.run ⟨⟨table, links⟩, c, 0, #[]⟩ =
        (.ok handsBack, session) ∧
      session.context = c ∧ session.nesting = 0 ∧
      (∃ pss, session.calls.mapM Call.primitives = .ok pss ∧ Orderly pss.flatten) ∧
      ∀ output : Output α, output.surface.IsReady →
        (sendAll Output.call output session.calls).Settles fun after => after.surface.IsReady ∧
          after.surface.origins = output.surface.origins ∧ after.origins = output.origins := by
  obtain ⟨hcomplete, -, hheight⟩ := Engine.conditions_of_layout h
  have hcovers : (⟨table, links⟩ : Backdrop α).Covers root := Engine.box_of_layout h
  obtain ⟨hfault, hkeeps⟩ := draws_of_complete (k := 0) hcomplete hcovers (by omega) c above
  have hdraw := DrawingSession.draw_of_noFault ⟨⟨table, links⟩, c, 0, #[]⟩ hfault
  refine ⟨_, _, hdraw, (Drawing.render_eq_draw _ root above).trans hdraw, rfl, rfl, ?_, ?_⟩
  · simpa [DrawingSession.calls] using hkeeps.exists_primitives
  · intro output hready
    refine Output.sendAll_settles ?_ hready
    simpa [DrawingSession.calls] using hkeeps

/-- A choice of three short words, any number of times. -/
def words : Node :=
  .repetition 4 (some (.alternation 3 [.literal 0 "a" .quoted, .literal 1 "b" .quoted,
    .literal 2 "c" .quoted]))

theorem draw_safe_words : ∃ (table : BoxTable Rat) (e : Engine Rat),
    Engine.layout words .left = (.ok table, e) ∧
    ∃ (handsBack : Bool) (session : DrawingSession Rat),
      DrawingSession.draw ⟨⟨table, []⟩, .new .left, 0, #[]⟩ words true = (.ok handsBack, session) ∧
      (Drawing.render ⟨table, []⟩ words true).run.run ⟨⟨table, []⟩, .new .left, 0, #[]⟩ =
        (.ok handsBack, session) ∧
      session.context = .new .left ∧ session.nesting = 0 ∧
      (∃ pss, session.calls.mapM Call.primitives = .ok pss ∧ Orderly pss.flatten) ∧
      ∀ output : Output Rat, output.surface.IsReady →
        (sendAll Output.call output session.calls).Settles fun after => after.surface.IsReady ∧
          after.surface.origins = output.surface.origins ∧ after.origins = output.origins := by
  have hcomplete : words.isComplete = true := by decide
  obtain ⟨table, e, hlayout⟩ := Engine.layout_of_complete (α := Rat) hcomplete
    (by decide) (by decide) .left
  exact ⟨table, e, hlayout, draw_safe hlayout [] (.new .left) true⟩

end Railroad
