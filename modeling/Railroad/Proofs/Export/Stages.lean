import Railroad.Proofs.Export.History
/-!
The stages of a run: the surface is made, the text is read, the grammar is laid out and drawn.

A run goes on from the generator that the last stage has left and stops at the first fault.  Only the last
stage bears on the trace.
-/
namespace Railroad.Generator

/-- A grammar laid out, and drawn as a whole document. -/
def documentOf (output : Output Float) (root : Node) (links : List String) :
    Except DiagramFault (DrawingSession Float × Output Float) := do
  let table ← layoutGrammar root
  let (result, output) := drawDocument output root table links
  return (← result, output)

/-- The names that are linked to. -/
def linksOf (g : Generator) (root : Node) : List String :=
  if g.links then root.ruleNames else []

section Runs

variable {β γ : Type} {x : Generating β} {f : β → Generating γ} {g : Generator}

theorem bind_of_ok {b : β} (h : outcome (x g) = .ok b) : (x >>= f) g = f b (left (x g)) := by
  show EStateM.bind x f g = f b (left (x g))
  rw [EStateM.bind]
  generalize x g = result at h ⊢
  cases result with
  | ok b g' =>
      cases h
      rfl
  | error fault g' => cases h

theorem bind_of_error {fault : GenerateFault} (h : outcome (x g) = .error fault) :
    (x >>= f) g = .error fault (left (x g)) := by
  show EStateM.bind x f g = .error fault (left (x g))
  rw [EStateM.bind]
  generalize x g = result at h ⊢
  cases result with
  | ok b g' => cases h
  | error fault g' =>
      cases h
      rfl

end Runs

section Reading

variable {g : Generator} {root : Node}

theorem outcome_readGrammar (text : String) (g : Generator) :
    outcome (readGrammar text g) = (g.reader.read g.nextId text).result.mapError .parse := by
  show outcome ((orFail .parse (g.reader.read g.nextId text).result >>= _) _) = _
  cases (g.reader.read g.nextId text).result <;> rfl

theorem trace_readGrammar (text : String) (g : Generator) :
    (left (readGrammar text g)).trace = g.trace := by
  show (left ((orFail .parse (g.reader.read g.nextId text).result >>= _) _)).trace = _
  cases (g.reader.read g.nextId text).result <;> rfl

theorem linksOf_readGrammar (text : String) (g : Generator) :
    (left (readGrammar text g)).linksOf root = g.linksOf root := by
  rw [linksOf, (KeepsOptions.readGrammar text g).links, linksOf]

end Reading

section Drawing

variable {g : Generator} {root : Node} {output : Output Float}

theorem documentOf_of_layout {table : BoxTable Float} {output' : Output Float} {session : DrawingSession Float}
    {links : List String} (hlayout : layoutGrammar root = .ok table)
    (hdraw : drawDocument output root table links = (.ok session, output')) :
    documentOf output root links = .ok (session, output') := by
  rw [documentOf, hlayout]
  show (drawDocument output root table links).1.bind
    (fun session => .ok (session, (drawDocument output root table links).2)) = _
  rw [hdraw]
  rfl

theorem outcome_drawRoot (root : Node) (output : Output Float) (name : String) (g : Generator) :
    outcome (drawRoot root output name g) =
      (documentOf output root (g.linksOf root)).mapError .diagram := by
  show outcome ((orFail .diagram (layoutGrammar root) >>= _) g) = _
  rw [documentOf]
  cases layoutGrammar (α := Float) root with
  | error fault => rfl
  | ok table =>
      show outcome ((orFail .diagram (drawDocument output root table (g.linksOf root)).1 >>= _) _) =
        Except.mapError _ ((drawDocument output root table (g.linksOf root)).1 >>= _)
      cases (drawDocument output root table (g.linksOf root)).1 <;> rfl

theorem trace_drawRoot (root : Node) (output : Output Float) (name : String) (g : Generator) :
    (left (drawRoot root output name g)).trace = g.trace := by
  show (left ((orFail .diagram (layoutGrammar root) >>= _) g)).trace = _
  cases layoutGrammar (α := Float) root with
  | error fault => rfl
  | ok table =>
      show (left ((orFail .diagram (drawDocument output root table (g.linksOf root)).1 >>= _) _)).trace = _
      cases (drawDocument output root table (g.linksOf root)).1 <;> rfl

end Drawing

section Draws

variable {g : Generator} {root : Node} {text : String} {format : Format} {settings : List Setting}
  {surface : Surface Float}

theorem draw_of_not_created {fault : UnknownSetting}
    (hcreate : format.surface.create (α := Float) settings = .error fault) (traced : Bool) :
    draw format settings text traced g = .error (.setting fault) g := by
  rw [draw, hcreate]
  rfl

theorem draw_of_not_read {fault : Ebnf.ParseError} (hcreate : format.surface.create settings = .ok surface)
    (hread : (g.reader.read g.nextId text).result = .error fault) (traced : Bool) :
    draw format settings text traced g = .error (.parse fault) (left (readGrammar text g)) := by
  have houtcome : outcome (readGrammar text g) = .error (.parse fault) := by
    rw [outcome_readGrammar, hread]
    rfl
  rw [draw, hcreate, orFail, pure_bind, bind_of_error houtcome]

theorem draw_of_read (hcreate : format.surface.create settings = .ok surface)
    (hread : (g.reader.read g.nextId text).result = .ok root) (traced : Bool) :
    draw format settings text traced g =
      (if traced then do
        let (session, output) ← drawRoot root (.traced ⟨.start, surface⟩) "TracedSurface"
        modify fun g => { g with trace := some (traceOf text format root session output) }
        return output.surface.artifact
      else do
        modify fun g => { g with trace := none }
        let (_, output) ← drawRoot root (.direct surface) format.outputName
        return output.surface.artifact : Generating Artifact) (left (readGrammar text g)) := by
  have houtcome : outcome (readGrammar text g) = .ok root := by
    rw [outcome_readGrammar, hread]
    rfl
  rw [draw, hcreate, orFail, pure_bind, bind_of_ok houtcome]

/-- A traced run leaves its own trace if it ends well, and else the one that there was. -/
theorem draw_traced_of_read (hcreate : format.surface.create settings = .ok surface)
    (hread : (g.reader.read g.nextId text).result = .ok root) :
    let document := documentOf (.traced ⟨.start, surface⟩) root (g.linksOf root)
    outcome (draw format settings text true g) =
      (document.map fun drawn => drawn.2.surface.artifact).mapError .diagram ∧
    (left (draw format settings text true g)).trace =
      match document with
      | .ok (session, output) => some (traceOf text format root session output)
      | .error _ => g.trace := by
  intro document
  rw [draw_of_read hcreate hread, if_pos rfl]
  have hroot := outcome_drawRoot root (.traced ⟨.start, surface⟩) "TracedSurface"
    (left (readGrammar text g))
  rw [linksOf_readGrammar] at hroot
  change _ = document.mapError GenerateFault.diagram at hroot
  cases hdrawn : document with
  | ok drawn =>
      rw [hdrawn] at hroot
      rw [bind_of_ok hroot]
      exact ⟨rfl, rfl⟩
  | error fault =>
      rw [hdrawn] at hroot
      rw [bind_of_error hroot]
      refine ⟨rfl, ?_⟩
      exact (trace_drawRoot ..).trans (trace_readGrammar text g)

/-- A run that is not traced leaves no trace once the text has been read. -/
theorem draw_plain_of_read (hcreate : format.surface.create settings = .ok surface)
    (hread : (g.reader.read g.nextId text).result = .ok root) :
    outcome (draw format settings text false g) =
      ((documentOf (.direct surface) root (g.linksOf root)).map fun drawn =>
        drawn.2.surface.artifact).mapError .diagram ∧
    (left (draw format settings text false g)).trace = none := by
  rw [draw_of_read hcreate hread, if_neg (by simp), ← linksOf_readGrammar text g]
  generalize left (readGrammar text g) = g
  show outcome ((drawRoot root (.direct surface) format.outputName >>= _) { g with trace := none }) = _ ∧
    (left ((drawRoot root (.direct surface) format.outputName >>= _) { g with trace := none })).trace = none
  have hroot := outcome_drawRoot root (.direct surface) format.outputName { g with trace := none }
  have htrace := trace_drawRoot root (.direct surface) format.outputName { g with trace := none }
  change _ = (documentOf (.direct surface) root (g.linksOf root)).mapError GenerateFault.diagram
    at hroot
  cases hdrawn : documentOf (.direct surface) root (g.linksOf root) with
  | ok drawn =>
      rw [hdrawn] at hroot
      rw [bind_of_ok hroot]
      exact ⟨rfl, htrace⟩
  | error fault =>
      rw [hdrawn] at hroot
      rw [bind_of_error hroot]
      exact ⟨rfl, htrace⟩

end Draws

end Railroad.Generator
