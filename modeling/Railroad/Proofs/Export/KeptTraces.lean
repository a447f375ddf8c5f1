import Railroad.Proofs.Export.Links
import Railroad.Proofs.Export.Stages
/-!
The trace that a generator has after any history of requests.

A traced run that ends well leaves its own trace, and a run that is not traced drops the trace that there was,
but only once the text has been read.  So a request that fails may leave the trace of an earlier one.
-/
namespace Railroad.Generator

/-- A request for a document or for an image. -/
structure Commission extends Request where
  image : Bool

namespace Commission

/-- The format that is drawn. -/
def format (c : Commission) (g : Generator) : Format :=
  if c.image then .png else g.format

def settings (c : Commission) (g : Generator) : List Setting :=
  if c.image then if g.format = .png then g.settings else [] else g.settings

end Commission

/-- What comes of such a request, and the generator afterwards. -/
def meet (g : Generator) (c : Commission) : EStateM.Result GenerateFault Generator Artifact :=
  (if c.image then generateImage else generate) c.text c.traced { g with nextId := c.nextId }

/-- A generator after a history of such requests, of which any may have failed. -/
def afterEach (g : Generator) (history : List Commission) : Generator :=
  history.foldl (fun g c => left (g.meet c)) g

/-- The trace of the very run that a request comes to: the run is traced and ends well, and the trace tells of
its text and its format, of the tree that was read, and of all that was drawn. -/
inductive Records (g : Generator) (c : Commission) : Trace Float → Prop
  | intro {surface : Surface Float} {root : Node} {session : DrawingSession Float} {output : Output Float}
      (traced : c.traced = true) (textual : c.image = false → g.format ≠ .png)
      (created : (c.format g).surface.create (c.settings g) = .ok surface)
      (read : (g.reader.read c.nextId c.text).result = .ok root)
      (drawn : documentOf (.traced ⟨.start, surface⟩) root (g.linksOf root) = .ok (session, output)) :
      Records g c (traceOf c.text (c.format g) root session output)

theorem meet_eq (g : Generator) (c : Commission) :
    g.meet c =
      if c.image = false ∧ g.format = .png then .error .imageAsText { g with nextId := c.nextId }
      else draw (c.format g) (c.settings g) c.text c.traced { g with nextId := c.nextId } := by
  rw [meet, Commission.format, Commission.settings]
  cases c.image with
  | true =>
      rw [if_pos rfl, if_neg (by simp)]
      rfl
  | false =>
      show (if g.format = .png then _ else draw g.format g.settings c.text c.traced)
        { g with nextId := c.nextId } = _
      by_cases hpng : g.format = .png
      · rw [if_pos hpng, if_pos ⟨rfl, hpng⟩]
        rfl
      · rw [if_neg hpng, if_neg (by simp [hpng])]
        rfl

/-- A request that fails without dropping the trace that there is: a traced one at any point, and another one
before its text has been read. -/
def Spares (g : Generator) (c : Commission) : Prop :=
  ∃ fault, outcome (g.meet c) = .error fault ∧ (c.traced = true ∨ ∀ f, fault ≠ .diagram f)

section Meetings

variable {g : Generator} {c : Commission} {t : Trace Float}

theorem Records.traced (h : g.Records c t) : c.traced = true := by
  cases h
  assumption

theorem Records.meet (h : g.Records c t) :
    (∃ artifact, outcome (g.meet c) = .ok artifact) ∧ (left (g.meet c)).trace = some t := by
  rcases h with ⟨htraced, htextual, hcreate, hread, hdrawn⟩
  obtain ⟨hrun, htrace⟩ := draw_traced_of_read (g := { g with nextId := c.nextId }) hcreate hread
  have hlinks : ∀ root, linksOf { g with nextId := c.nextId } root = g.linksOf root := fun _ => rfl
  rw [hlinks, hdrawn] at hrun htrace
  rw [meet_eq, if_neg (fun h => htextual h.1 h.2), htraced]
  exact ⟨⟨_, hrun⟩, htrace⟩

theorem Records.not_spares (h : g.Records c t) : ¬ g.Spares c := by
  rintro ⟨fault, hfault, -⟩
  rcases h.meet.1 with ⟨artifact, hdone⟩
  cases hfault.symm.trans hdone

/-- What a request leaves: the trace that there was, a trace of its own, or none. -/
theorem meet_cases (g : Generator) (c : Commission) :
    (g.Spares c ∧ (left (g.meet c)).trace = g.trace) ∨ (∃ t, g.Records c t) ∨
    (¬ g.Spares c ∧ c.traced = false ∧ (left (g.meet c)).trace = none) := by
  rw [Spares, meet_eq]
  -- The cases follow the run, up to where it stops.
  by_cases htext : c.image = false ∧ g.format = .png
  · rw [if_pos htext]
    exact .inl ⟨⟨_, rfl, .inr nofun⟩, rfl⟩
  rw [if_neg htext]
  cases hcreate : (c.format g).surface.create (α := Float) (c.settings g) with
  | error fault =>
      rw [draw_of_not_created hcreate]
      exact .inl ⟨⟨_, rfl, .inr nofun⟩, rfl⟩
  | ok surface =>
      cases hread : (g.reader.read c.nextId c.text).result with
      | error fault =>
          rw [draw_of_not_read hcreate hread]
          exact .inl ⟨⟨_, rfl, .inr nofun⟩, trace_readGrammar c.text _⟩
      | ok root =>
          cases htraced : c.traced with
          | true =>
              obtain ⟨hrun, htrace⟩ := draw_traced_of_read (g := { g with nextId := c.nextId }) hcreate hread
              have hlinks : linksOf { g with nextId := c.nextId } root = g.linksOf root := rfl
              rw [hlinks] at hrun htrace
              cases hdrawn : documentOf (.traced ⟨.start, surface⟩) root (g.linksOf root) with
              | ok drawn =>
                  refine .inr (.inl ⟨_, .intro htraced ?_ hcreate hread hdrawn⟩)
                  exact fun himage hpng => htext ⟨himage, hpng⟩
              | error fault =>
                  rw [hdrawn] at hrun htrace
                  exact .inl ⟨⟨_, hrun, .inl rfl⟩, htrace⟩
          | false =>
              obtain ⟨hrun, hnone⟩ := draw_plain_of_read (g := { g with nextId := c.nextId }) hcreate hread
              refine .inr (.inr ⟨?_, rfl, hnone⟩)
              rintro ⟨fault, hfault, htraced | hbefore⟩
              · cases htraced
              · rw [hrun] at hfault
                generalize documentOf .. = document at hfault
                cases document with
                | ok drawn => cases hfault
                | error f =>
                    cases hfault
                    exact hbefore f rfl

/-- A run has a trace of its own exactly if it is traced and ends well. -/
theorem exists_records_iff (g : Generator) (c : Commission) :
    (∃ t, g.Records c t) ↔ c.traced = true ∧ ∃ artifact, outcome (g.meet c) = .ok artifact := by
  constructor
  · rintro ⟨t, h⟩
    exact ⟨h.traced, h.meet.1⟩
  · rintro ⟨htraced, artifact, hdone⟩
    rcases meet_cases g c with ⟨⟨fault, hfault, -⟩, -⟩ | hrecords | ⟨-, hplain, -⟩
    · cases hfault.symm.trans hdone
    · exact hrecords
    · cases htraced.symm.trans hplain

/-- The trace after a request is its own, or the one that it has spared. -/
theorem trace_meet_iff :
    (left (g.meet c)).trace = some t ↔ g.Records c t ∨ g.trace = some t ∧ g.Spares c := by
  constructor
  · intro ht
    rcases meet_cases g c with ⟨hspares, htrace⟩ | ⟨t', hrecords⟩ | ⟨-, -, hnone⟩
    · exact .inr ⟨htrace.symm.trans ht, hspares⟩
    · cases hrecords.meet.2.symm.trans ht
      exact .inl hrecords
    · cases hnone.symm.trans ht
  · rintro (hrecords | ⟨ht, hspares⟩)
    · exact hrecords.meet.2
    · rcases meet_cases g c with ⟨-, htrace⟩ | ⟨t', hrecords⟩ | ⟨hnot, -, -⟩
      · exact htrace.trans ht
      · exact absurd hspares hrecords.not_spares
      · exact absurd hspares hnot

end Meetings

/-- All of some requests fail without dropping the trace that there is. -/
def SparesEach (g : Generator) : List Commission → Prop
  | [] => True
  | c :: later => g.Spares c ∧ (left (g.meet c)).SparesEach later

/-- A trace is left from a history of requests: it is that of the run of one of them, and all later ones have
failed without dropping it. -/
def Leaves (g : Generator) (history : List Commission) (t : Trace Float) : Prop :=
  ∃ earlier c later, history = earlier ++ c :: later ∧ (g.afterEach earlier).Records c t ∧
    (left ((g.afterEach earlier).meet c)).SparesEach later

section Histories

variable {g : Generator} {history later : List Commission} {c : Commission} {t : Trace Float}

theorem afterEach_concat (g : Generator) (history : List Commission) (c : Commission) :
    g.afterEach (history ++ [c]) = left ((g.afterEach history).meet c) :=
  List.foldl_concat ..

theorem sparesEach_concat :
    g.SparesEach (later ++ [c]) ↔ g.SparesEach later ∧ (g.afterEach later).Spares c := by
  induction later generalizing g with
  | nil => simp [SparesEach, afterEach]
  | cons c' later ih =>
      rw [List.cons_append, SparesEach, SparesEach, ih, and_assoc]
      rfl

theorem afterEach_append (g : Generator) (earlier : List Commission) (c : Commission)
    (later : List Commission) :
    g.afterEach (earlier ++ c :: later) = (left ((g.afterEach earlier).meet c)).afterEach later :=
  List.foldl_append

/-- What is left from a history is the trace of its last request, or is spared by it. -/
theorem leaves_concat : g.Leaves (history ++ [c]) t ↔
    (g.afterEach history).Records c t ∨ g.Leaves history t ∧ (g.afterEach history).Spares c := by
  constructor
  · rintro ⟨earlier, c', later, hhistory, hrecords, hspares⟩
    rcases later.eq_nil_or_concat with rfl | ⟨later, c'', rfl⟩
    · obtain ⟨rfl, hlast⟩ := List.append_inj' hhistory rfl
      cases hlast
      exact .inl hrecords
    · rw [List.concat_eq_append, ← List.cons_append, ← List.append_assoc] at hhistory
      obtain ⟨rfl, hlast⟩ := List.append_inj' hhistory rfl
      cases hlast
      rw [List.concat_eq_append, sparesEach_concat] at hspares
      rw [afterEach_append]
      exact .inr ⟨⟨earlier, c', later, rfl, hrecords, hspares.1⟩, hspares.2⟩
  · rintro (hrecords | ⟨⟨earlier, c', later, rfl, hrecords, hspares⟩, hlast⟩)
    · exact ⟨history, c, [], rfl, hrecords, trivial⟩
    · rw [afterEach_append] at hlast
      exact ⟨earlier, c', later ++ [c], by simp, hrecords, sparesEach_concat.mpr ⟨hspares, hlast⟩⟩

/-- A generator that had no trace has the one that is left from its history. -/
theorem trace_afterEach (hnone : g.trace = none) (history : List Commission) (t : Trace Float) :
    (g.afterEach history).trace = some t ↔ g.Leaves history t := by
  -- The last request is the one that decides.
  induction history using List.reverseRecOn generalizing t with
  | nil =>
      rw [afterEach, List.foldl_nil, hnone]
      constructor
      · nofun
      · rintro ⟨earlier, c, later, hhistory, -⟩
        simp at hhistory
  | append_singleton history c ih =>
      rw [afterEach_concat, leaves_concat, trace_meet_iff, ih]

end Histories

/-- After any history of requests, whatever has come of them, the trace that a generator has is that of the run
of the last request, and there is none if that was not traced, exactly unless the last request has failed
without dropping a trace that was there.  A trace that is there is always the one that is left from the history:
it is that of an earlier run exactly if all requests since have failed without dropping it. -/
theorem trace_fresh_iff (format : Format) (links : Bool) (settings : List Setting)
    (history : List Commission) (c : Commission) :
    let start := new format links settings
    let before := start.afterEach history
    let trace := (left (before.meet c)).trace
    (((∀ t, trace = some t → before.Records c t) ∧ (c.traced = false → trace = none)) ↔
      ¬ (before.Spares c ∧ ∃ t, start.Leaves history t)) ∧
    (∀ t, trace = some t ↔ before.Records c t ∨ start.Leaves history t ∧ before.Spares c) ∧
    ((∃ t, before.Records c t) ↔ c.traced = true ∧ ∃ artifact, outcome (before.meet c) = .ok artifact) := by
  intro start before trace
  have hbefore : ∀ t, before.trace = some t ↔ start.Leaves history t := trace_afterEach rfl history
  refine ⟨?_, ?_, exists_records_iff before c⟩
  · simp only [← hbefore]
    constructor
    · rintro ⟨hown, -⟩ ⟨hspares, t, ht⟩
      have hrecords := hown t (trace_meet_iff.mpr (.inr ⟨ht, hspares⟩))
      exact hrecords.not_spares hspares
    · intro hnot
      have hown : ∀ t, trace = some t → before.Records c t := by
        intro t ht
        rcases trace_meet_iff.mp ht with hrecords | ⟨hkept, hspares⟩
        · exact hrecords
        · exact absurd ⟨hspares, t, hkept⟩ hnot
      refine ⟨hown, fun hplain => Option.eq_none_iff_forall_ne_some.mpr fun t ht => ?_⟩
      cases hplain.symm.trans (hown t ht).traced
  · intro t
    rw [← hbefore]
    exact trace_meet_iff

/-- A text that is drawn, and one that stops short. -/
def wholeText : String :=
  "a = 'x' ."

def wholeTree : Node :=
  .grammar 4 none (some (.productionList 3
    [.production 2 (some (.identifier 1 "a")) (some (.literal 0 "x" .quoted))])) none

def brokenText : String :=
  "a = "

theorem read_wholeText : (Ebnf.Reader.new.read 0 wholeText).result = .ok wholeTree := by cbv

theorem read_brokenText :
    (Ebnf.Reader.new.read 5 brokenText).result = .error ⟨.expected .expression none, ⟨1, 4⟩⟩ := by cbv

/-- The trace of the first text is still there after the second has failed, though that was not traced. -/
theorem trace_outlives_failure :
    let first : Commission := ⟨⟨wholeText, true, 0⟩, false⟩
    let second : Commission := ⟨⟨brokenText, false, 5⟩, false⟩
    let before := (new .svg true []).afterEach [first]
    outcome (before.meet second) = .error (.parse ⟨.expected .expression none, ⟨1, 4⟩⟩) ∧
    ∃ t, (left (before.meet second)).trace = some t ∧ t.input = wholeText ∧
      ∀ t', ¬ before.Records second t' := by
  intro first second before
  have hfailed : outcome (before.meet second) =
      .error (.parse ⟨.expected .expression none, ⟨1, 4⟩⟩) := by
    have hsame : SameOptions before (new .svg true []) := KeepsOptions.generate wholeText true _
    have halike : outcome (before.meet second) = outcome ((new .svg true []).meet second) :=
      (generate_alike brokenText false).outcome_eq ⟨hsame.format, hsame.links, hsame.settings⟩
    have hstopped : draw .svg [] brokenText false { new .svg true [] with nextId := 5 } = .error _ _ :=
      draw_of_not_read rfl read_brokenText false
    exact halike.trans (congrArg outcome hstopped)
  have hdrawn : ∃ t, (new .svg true []).Records first t := by
    obtain ⟨table, engine, hlayout⟩ := Engine.layout_of_complete (α := Float)
      (by decide : wholeTree.isComplete = true) (by decide) (by decide) .none
    obtain ⟨-, s, -, -, hdone, -⟩ := exists_linked_document (g := new .svg true []) (.inl rfl) rfl rfl
      read_wholeText (layoutGrammar_of_layout rfl hlayout) true
    exact (exists_records_iff _ first).mpr ⟨rfl, _, hdone⟩
  obtain ⟨t, hrecords⟩ := hdrawn
  have htrace : before.trace = some t :=
    (trace_afterEach rfl [first] t).mpr ⟨[], first, [], rfl, hrecords, trivial⟩
  have hspares : before.Spares second := ⟨_, hfailed, .inr nofun⟩
  have hinput : t.input = wholeText := by
    cases hrecords
    rfl
  have hkept : (left (before.meet second)).trace = some t := trace_meet_iff.mpr (.inr ⟨htrace, hspares⟩)
  exact ⟨hfailed, t, hkept, hinput, fun t' hown => hown.not_spares hspares⟩

end Railroad.Generator
