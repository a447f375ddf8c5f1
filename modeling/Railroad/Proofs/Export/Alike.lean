import Railroad.Export.Generator
import Railroad.Proofs.Drawing.Renumbered
import Railroad.Proofs.Ebnf.AnyStart
import Railroad.Proofs.Ebnf.Numbering
import Railroad.Proofs.Runs
/-!
Runs of generators that come to the same.

What a generator draws of a text does not depend on what it has drawn before, nor on the ids of the nodes
that are read: two generators with the same options draw texts alike that read as trees of one structure.
-/
namespace Railroad.Generator

/-- Generators of one format, with the same settings. -/
structure SameOptions (g g' : Generator) : Prop where
  format : g.format = g'.format
  links : g.links = g'.links
  settings : g.settings = g'.settings

theorem SameOptions.refl (g : Generator) : SameOptions g g :=
  ⟨rfl, rfl, rfl⟩

/-- What comes of a run, apart from the generator that is left. -/
def outcome {β : Type} : EStateM.Result GenerateFault Generator β → Except GenerateFault β
  | .ok value _ => .ok value
  | .error fault _ => .error fault

/-- Runs that end alike whenever they start from generators with the same options. -/
abbrev Alike {β γ : Type} (R : β → γ → Prop) (x : Generating β) (y : Generating γ) : Prop :=
  RunAlike SameOptions R x y

namespace Alike

variable {β : Type}

/-- Values that agree in what a function makes of them, or are the same error. -/
theorem orFail_of_map {ε ζ : Type} {f : β → ζ} {a b : Except ε β} (fault : ε → GenerateFault)
    (h : a.map f = b.map f) :
    Alike (fun x y => a = .ok x ∧ b = .ok y ∧ f x = f y) (orFail fault a) (orFail fault b) := by
  cases a with
  | error e =>
      cases b with
      | error e' =>
          cases h
          exact .throw (fault e)
      | ok y => cases h
  | ok x =>
      cases b with
      | error e' => cases h
      | ok y => exact .pure ⟨rfl, rfl, Except.ok.inj h⟩

theorem orFail {ε : Type} (fault : ε → GenerateFault) (value : Except ε β) :
    Alike Eq (orFail fault value) (orFail fault value) := by
  cases value with
  | ok value => exact .pure rfl
  | error e => exact .throw (fault e)

theorem modify {f f' : Generator → Generator} (h : ∀ g, SameOptions (f g) g)
    (h' : ∀ g, SameOptions (f' g) g) : Alike Eq (modify f) (modify f') := by
  refine RunAlike.modify fun g g' hsame => ⟨?_, ?_, ?_⟩
  · exact (h g).format.trans (hsame.format.trans (h' g').format.symm)
  · exact (h g).links.trans (hsame.links.trans (h' g').links.symm)
  · exact (h g).settings.trans (hsame.settings.trans (h' g').settings.symm)

theorem note (n n' : Note) : Alike Eq (note n) (note n') :=
  modify (fun _ => ⟨rfl, rfl, rfl⟩) (fun _ => ⟨rfl, rfl, rfl⟩)

theorem outcome_eq {x y : Generating β} (h : Alike Eq x y) {g g' : Generator}
    (hsame : SameOptions g g') : outcome (x g) = outcome (y g') := by
  have hends := h g g' hsame
  generalize x g = result at hends ⊢
  generalize y g' = result' at hends ⊢
  cases hends with
  | ok hvalue => rw [outcome, outcome, hvalue]
  | error => rfl

end Alike

section Names

variable (r : Nat → Nat)

/-- The rule of a production with other ids. -/
def renumberRule (rule : Rule) : Rule :=
  ⟨rule.name, Node.renumberOption r rule.expression⟩

theorem nameText_renumber (o : Option Node) : nameText (Node.renumberOption r o) = nameText o := by
  cases o with
  | none => rfl
  | some n => rw [Node.renumberOption, nameText, Node.text?_renumber, nameText]

theorem rule_renumber (n : Node) : (n.renumber r).rule = n.rule.map (renumberRule r) := by
  cases n with
  | production _ name expression =>
      rw [Node.renumber, Node.rule, nameText_renumber, Node.rule]
      cases nameText name <;> rfl
  | _ => rfl

theorem mapM_rule_renumber (ns : List Node) : (Node.renumberList r ns).mapM Node.rule =
    (ns.mapM Node.rule).map (List.map (renumberRule r)) := by
  induction ns with
  | nil => rfl
  | cons n ns ih =>
      rw [Node.renumberList, List.mapM_cons, List.mapM_cons, rule_renumber, ih]
      cases n.rule with
      | error => rfl
      | ok rule => cases ns.mapM Node.rule <;> rfl

theorem rules_renumber (n : Node) :
    (n.renumber r).rules = n.rules.map (List.map (renumberRule r)) := by
  cases n with
  | grammar _ _ productions _ =>
      cases productions with
      | none => rfl
      | some list =>
          cases list with
          | productionList _ productions => exact mapM_rule_renumber r productions
          | _ => rfl
  | _ => rfl

/-- The names of the rules do not depend on ids. -/
theorem ruleNames_renumber (n : Node) : (n.renumber r).ruleNames = n.ruleNames := by
  rw [Node.ruleNames, rules_renumber, Node.ruleNames]
  cases n.rules with
  | error => rfl
  | ok rules =>
      change definedNames (rules.map (renumberRule r)) = definedNames rules
      rw [definedNames, List.map_map, definedNames]
      rfl

end Names

section Drawing

variable {n m : Node}

/-- Trees of one structure, in each of which the nodes have ids of their own. -/
structure SameTree (n m : Node) : Prop where
  structure_eq : n.unnumbered = m.unnumbered
  nodup : (n.preorder.map Node.id).Nodup
  nodup' : (m.preorder.map Node.id).Nodup

/-- Texts of which the same tree is read, up to the ids, or the same error. -/
theorem readGrammar_alike_of_parse {text text' : String}
    (h : (Ebnf.parse text).map Node.unnumbered = (Ebnf.parse text').map Node.unnumbered) :
    Alike SameTree (readGrammar text) (readGrammar text') := by
  rw [readGrammar, readGrammar]
  refine .bind .get fun g g' hsame => ?_
  have hresults := (Ebnf.map_unnumbered_read g.reader g.nextId text).trans
    (h.trans (Ebnf.map_unnumbered_read g'.reader g'.nextId text').symm)
  refine .bind (.set ⟨hsame.format, hsame.links, hsame.settings⟩) fun _ _ _ => ?_
  refine .bind (Alike.orFail_of_map .parse hresults) ?_
  rintro m m' ⟨hread, hread', hm⟩
  have htree : SameTree m m' := ⟨hm, Ebnf.nodup_of_read hread, Ebnf.nodup_of_read hread'⟩
  exact .bind (Alike.note _ _) fun _ _ _ => .pure htree

/-- Texts that are read as trees of one structure, whatever the ids are. -/
theorem readGrammar_alike {text text' : String}
    (h : ∀ i, ∃ m, (Ebnf.Reader.new.read i text).result = .ok m ∧ m.unnumbered = n.unnumbered)
    (h' : ∀ i, ∃ m, (Ebnf.Reader.new.read i text').result = .ok m ∧ m.unnumbered = n.unnumbered) :
    Alike SameTree (readGrammar text) (readGrammar text') := by
  obtain ⟨m, hread, hm⟩ := h 0
  obtain ⟨m', hread', hm'⟩ := h' 0
  apply readGrammar_alike_of_parse
  rw [Ebnf.parse, Ebnf.parse, hread, hread']
  exact congrArg Except.ok (hm.trans hm'.symm)

theorem drawRoot_alike (h : SameTree n m) (output : Output Float) (name name' : String) :
    Alike (fun drawn drawn' => drawn.2 = drawn'.2) (drawRoot n output name)
      (drawRoot m output name') := by
  rw [drawRoot, drawRoot]
  refine .bind .get fun g g' hsame => ?_
  rcases layoutGrammar_of_structure (α := Float) h.structure_eq h.nodup h.nodup' with
    ⟨fault, hlayout, hlayout'⟩ | ⟨r, table, table', hlayout, hlayout', rfl, hboxes⟩
  · rw [hlayout, hlayout']
    exact .stop _
  · rw [hlayout, hlayout', hsame.links, ruleNames_renumber]
    refine .bind (R := fun t t' => t = table ∧ t' = table') (.pure ⟨rfl, rfl⟩) ?_
    rintro _ _ ⟨rfl, rfl⟩
    refine .bind (Alike.note _ _) fun _ _ _ => ?_
    have hdrawn := drawDocument_renumber output (if g'.links then n.ruleNames else []) hboxes
    generalize drawDocument output n _ _ = drawing at hdrawn ⊢
    generalize drawDocument output (n.renumber r) _ _ = drawing' at hdrawn ⊢
    cases hdrawn with
    | error fault drawn => exact .stop _
    | @ok s s' hcalls drawn =>
        refine .bind (R := fun _ _ => True) (.pure trivial) fun s s' _ => ?_
        refine .bind (Alike.note _ _) fun _ _ _ => .bind (Alike.note _ _) fun _ _ _ => ?_
        exact .pure rfl

/-- Texts that are read as trees of one structure are drawn alike. -/
theorem draw_alike {text text' : String} (h : Alike SameTree (readGrammar text) (readGrammar text'))
    (format : Format) (settings : List Setting) (traced : Bool) :
    Alike Eq (draw format settings text traced) (draw format settings text' traced) := by
  rw [draw, draw]
  refine .bind (Alike.orFail _ _) ?_
  rintro surface _ rfl
  refine .bind h fun n m hsame => ?_
  cases traced with
  | true =>
      refine .bind (drawRoot_alike hsame _ _ _) ?_
      rintro ⟨session, output⟩ ⟨session', _⟩ rfl
      exact .bind (Alike.modify (fun _ => ⟨rfl, rfl, rfl⟩) fun _ => ⟨rfl, rfl, rfl⟩) fun _ _ _ => .pure rfl
  | false =>
      refine .bind (Alike.modify (fun _ => ⟨rfl, rfl, rfl⟩) fun _ => ⟨rfl, rfl, rfl⟩) fun _ _ _ => ?_
      refine .bind (drawRoot_alike hsame _ _ _) ?_
      rintro ⟨session, output⟩ ⟨session', _⟩ rfl
      exact .pure rfl

end Drawing

end Railroad.Generator
