import Railroad.Proofs.Export.Alike
/-!
A generator after any history of texts makes of the next one what a fresh generator makes of it.

A run may leave another trace, other notes, another state of the reader and another next id, also if it
fails, but never other options; and the options are all that a run depends on.
-/
namespace Railroad.Generator

section Options

variable {β γ ε : Type} {x : Generating β} {f : β → Generating γ} {g g' g'' : Generator}

theorem SameOptions.trans (h : SameOptions g g') (h' : SameOptions g' g'') : SameOptions g g'' :=
  ⟨h.format.trans h'.format, h.links.trans h'.links, h.settings.trans h'.settings⟩

/-- The generator that a run leaves, also if it fails. -/
def left : EStateM.Result GenerateFault Generator β → Generator
  | .ok _ g => g
  | .error _ g => g

/-- Runs that leave the options as they are. -/
def KeepsOptions (x : Generating β) : Prop :=
  ∀ g, SameOptions (left (x g)) g

namespace KeepsOptions

theorem pure (b : β) : KeepsOptions (pure b) :=
  .refl

theorem throw (fault : GenerateFault) : KeepsOptions (throw fault : Generating β) :=
  .refl

theorem bind (hx : KeepsOptions x) (hf : ∀ b, KeepsOptions (f b)) : KeepsOptions (x >>= f) := by
  intro g
  have hleft := hx g
  change SameOptions (left (EStateM.bind x f g)) g
  rw [EStateM.bind]
  cases hrun : x g with
  | ok b g' =>
      rw [hrun] at hleft
      exact (hf b g').trans hleft
  | error fault g' =>
      rw [hrun] at hleft
      exact hleft

/-- What follows may use the generator that is found. -/
theorem bind_get {f : Generator → Generating γ} (hf : ∀ g, KeepsOptions (f g)) :
    KeepsOptions (get >>= f) :=
  fun g => hf g g

theorem modify {change : Generator → Generator} (h : ∀ g, SameOptions (change g) g) :
    KeepsOptions (modify change) :=
  h

theorem note (n : Note) : KeepsOptions (note n) :=
  .modify fun _ => ⟨rfl, rfl, rfl⟩

theorem orFail (fault : ε → GenerateFault) (value : Except ε β) : KeepsOptions (orFail fault value) := by
  cases value with
  | ok value => exact .pure value
  | error e => exact .throw (fault e)

theorem readGrammar (text : String) : KeepsOptions (readGrammar text) := by
  intro g
  have hrest : KeepsOptions (do
      let root ← Generator.orFail .parse (g.reader.read g.nextId text).result
      Generator.note (.parsed root.productions.length (g.reader.read g.nextId text).reader.tokens.length)
      return root) :=
    .bind (.orFail _ _) fun _ => .bind (.note _) fun _ => .pure _
  exact (hrest _).trans ⟨rfl, rfl, rfl⟩

theorem drawRoot (root : Node) (output : Output Float) (outputName : String) :
    KeepsOptions (drawRoot root output outputName) := by
  refine .bind_get fun g => .bind (.orFail _ _) fun table => .bind (.note _) fun _ => ?_
  refine .bind (.orFail _ _) fun session => .bind (.note _) fun _ => .bind (.note _) fun _ => ?_
  exact .pure _

theorem draw (format : Format) (settings : List Setting) (text : String) (traced : Bool) :
    KeepsOptions (draw format settings text traced) := by
  refine .bind (.orFail _ _) fun surface => .bind (.readGrammar text) fun root => ?_
  cases traced with
  | true =>
      refine .bind (.drawRoot root _ _) fun drawn => ?_
      exact .bind (.modify fun _ => ⟨rfl, rfl, rfl⟩) fun _ => .pure _
  | false =>
      refine .bind (.modify fun _ => ⟨rfl, rfl, rfl⟩) fun _ => ?_
      exact .bind (.drawRoot root _ _) fun _ => .pure _

theorem generate (text : String) (traced : Bool) : KeepsOptions (generate text traced) := by
  refine .bind_get fun g => ?_
  split
  · exact .throw _
  · exact .draw _ _ text traced

end KeepsOptions

/-- Generators with the same options make the same of a text. -/
theorem generate_alike (text : String) (traced : Bool) :
    Alike Eq (generate text traced) (generate text traced) := by
  rw [generate]
  refine .bind .get fun g g' hsame => ?_
  rw [hsame.format, hsame.settings]
  split
  · exact .stop _
  · exact draw_alike (readGrammar_alike_of_parse rfl) g'.format g'.settings traced

end Options

/-- A text that a document is asked of. -/
structure Request where
  text : String
  traced : Bool
  /-- The id of the next node when the request comes: ids are counted for all generators together. -/
  nextId : Nat

/-- What comes of a request, and the generator afterwards. -/
def serve (g : Generator) (r : Request) : EStateM.Result GenerateFault Generator Artifact :=
  generate r.text r.traced { g with nextId := r.nextId }

/-- A generator after a history of requests, of which any may have failed. -/
def after (g : Generator) (history : List Request) : Generator :=
  history.foldl (fun g r => left (g.serve r)) g

theorem sameOptions_serve (g : Generator) (r : Request) : SameOptions (left (g.serve r)) g :=
  (KeepsOptions.generate r.text r.traced _).trans ⟨rfl, rfl, rfl⟩

theorem sameOptions_after (g : Generator) (history : List Request) : SameOptions (g.after history) g := by
  induction history generalizing g with
  | nil => exact .refl g
  | cons r history ih => exact (ih (left (g.serve r))).trans (sameOptions_serve g r)

/-- After any history of requests, whatever has come of them, a request is answered as by a fresh generator
with the same options: with the same document, or with the same fault.  Where ids are counted from does not
matter either. -/
theorem outcome_after_history (format : Format) (links : Bool) (settings : List Setting)
    (history : List Request) (r : Request) (nextId : Nat) :
    outcome (((new format links settings).after history).serve r) =
      outcome ((new format links settings).serve { r with nextId := nextId }) := by
  have hkept := sameOptions_after (new format links settings) history
  exact (generate_alike r.text r.traced).outcome_eq ⟨hkept.format, hkept.links, hkept.settings⟩

end Railroad.Generator
