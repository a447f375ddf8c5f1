import Mathlib
import Railroad.Proofs.Ebnf.ReadTrees
import Railroad.Proofs.Export.Stages
import Railroad.Proofs.Export.Tracing
import Railroad.Proofs.Surface.WellFormed
/-!
Links in generated documents: what they stand around, where they lead, and what can be linked to.

The names of rules are where links lead; but outside the rules everything that is not a title is written like
the name of a rule, and so is the comment of a grammar.
-/
namespace Railroad

open Markup

section Inscriptions

/-- The name under which a text is found. -/
def Inscription.anchor? : Inscription → Option String
  | text anchor _ => anchor
  | linkStart _ | linkEnd => none

/-- The name that a link leads to. -/
def Inscription.target? : Inscription → Option String
  | linkStart name => some name
  | text .. | linkEnd => none

variable {α : Type} {number : α → String} {inlineStyle : Bool}

theorem values_id_tokens (p : SvgPiece α) : values "text" "id" (p.tokens number inlineStyle) =
    (p.inscription?.bind Inscription.anchor?).toList := by
  cases p with
  | pageStart title sheet =>
      cases sheet <;> simp [SvgPiece.tokens.eq_def, hollow, SvgPiece.encodingTokens, SvgPiece.inscription?]
  | text anchor x y centered =>
      have hlooks : ∀ style, (SvgPiece.textAttributes inlineStyle style).lookup "id" = none := by
        intro style
        cases inlineStyle <;> cases style <;> decide
      cases anchor <;> cases centered <;>
        simp [SvgPiece.tokens.eq_def, SvgPiece.inscription?, Inscription.anchor?, List.lookup_cons, hlooks]
  | _ => simp [SvgPiece.tokens.eq_def, hollow, SvgPiece.inscription?, Inscription.anchor?]

theorem values_href_tokens (p : SvgPiece α) :
    values "a" "xlink:href" (p.tokens number inlineStyle) =
      ((p.inscription?.bind Inscription.target?).map ("#" ++ ·)).toList := by
  cases p with
  | pageStart title sheet =>
      cases sheet <;> simp [SvgPiece.tokens.eq_def, hollow, SvgPiece.encodingTokens, SvgPiece.inscription?]
  | frameStart | linkStart =>
      simp [SvgPiece.tokens.eq_def, SvgPiece.inscription?, Inscription.target?, List.lookup_cons]
  | _ => simp [SvgPiece.tokens.eq_def, hollow, SvgPiece.inscription?, Inscription.target?]

end Inscriptions

namespace Node

/-- The comment of a grammar. -/
def comment? : Node → Option Node
  | grammar _ _ _ comment => comment
  | _ => none

/-- What is written for a leaf of a rule, or for a title: its text, in a link if it is a name that is linked. -/
def wording (links : List String) : Node → List Inscription
  | identifier _ name =>
      if links.contains name then [.linkStart name, .text none name, .linkEnd] else [.text none name]
  | n => n.text?.toList.map (.text none)

end Node

/-- A text that can be linked to. -/
def Inscription.heading (name : String) : Inscription :=
  .text (some name) name

/-- The leaves of the expression of a rule. -/
def Rule.leaves (r : Rule) : List Node :=
  (r.expression.toList.flatMap Node.walk).filter Node.isLeaf

/-- What is written for a rule. -/
def Rule.wording (links : List String) (r : Rule) : List Inscription :=
  .heading r.name :: r.leaves.flatMap (Node.wording links)

/-- What is written for a grammar: its title, its rules, and its comment, which is written like the name of a
rule. -/
def grammarWording (title : Option Node) (rules : List Rule) (links : List String)
    (comment : Option String) : List Inscription :=
  title.toList.flatMap (Node.wording []) ++ rules.flatMap (Rule.wording links) ++
    comment.toList.map .heading

section Grammars

namespace Node

variable {links : List String} {n root : Node}

/-- In the flow a leaf is written as its wording says. -/
theorem inscribe_of_ne_none (n : Node) {direction : Direction} (h : direction ≠ .none) :
    inscribe links (n, direction) = n.wording links := by
  cases direction with
  | none => exact absurd rfl h
  | _ =>
      cases n with
      | literal id text kind => cases kind <;> rfl
      | _ => rfl

theorem IsProduction.exists_rule (h : n.IsProduction) : ∃ r, n.rule = .ok r ∧
    ∀ links, (n.namedCourses .none).flatMap (inscribe links) = r.wording links := by
  cases h with
  | @intro id nameId name expression hexpression =>
      refine ⟨⟨name, some expression⟩, rfl, fun links => ?_⟩
      have hleaves : expression.courses.flatMap (inscribe links) =
          (expression.walk.filter isLeaf).flatMap (wording links) := by
        rw [walk_eq_preorder, ← hexpression.map_snd_leafPaths [], courses, List.flatMap_map,
          List.flatMap_map]
        exact List.flatMap_congr fun x _ => inscribe_of_ne_none x.2 (courseOf_ne_none x.1)
      simp [namedCourses, ruleCourses, inscribe, hleaves, Rule.wording, Rule.leaves, Inscription.heading]

theorem IsGrammar.exists_rules (h : root.IsGrammar) : ∃ rules, root.rules = .ok rules ∧
    ∀ links, (root.grammarCourses .none).flatMap (inscribe links) =
      grammarWording root.title? rules links (root.comment?.bind text?) := by
  cases h with
  | @intro id listId title comment productions htitle hproductions hcomment =>
      have hrules : ∀ ps : List Node, (∀ p ∈ ps, p.IsProduction) →
          ∃ rules, ps.mapM Node.rule = .ok rules ∧
            ∀ links, (ps.flatMap (namedCourses .none)).flatMap (inscribe links) =
              rules.flatMap (Rule.wording links) := by
        intro ps hps
        induction ps with
        | nil => exact ⟨[], rfl, fun _ => rfl⟩
        | cons p ps ih =>
            rw [List.forall_mem_cons] at hps
            obtain ⟨r, hr, hsaid⟩ := hps.1.exists_rule
            obtain ⟨rules, hrules, hrest⟩ := ih hps.2
            refine ⟨r :: rules, mapM_cons_eq_ok hr hrules, fun links => ?_⟩
            rw [List.flatMap_cons, List.flatMap_append, hsaid, hrest, List.flatMap_cons]
      obtain ⟨rules, hrules, hsaid⟩ := hrules productions hproductions
      refine ⟨rules, hrules, fun links => ?_⟩
      have htitle' : (title.toList.map (·, Direction.none)).flatMap (inscribe links) =
          title.toList.flatMap (wording []) := by
        cases title with
        | none => rfl
        | some t =>
            obtain ⟨i, text, rfl⟩ := htitle t rfl
            rfl
      have hcomment' : (comment.toList.map (·, Direction.none)).flatMap (inscribe links) =
          (comment.bind text?).toList.map .heading := by
        cases comment with
        | none => rfl
        | some t =>
            obtain ⟨i, text, rfl⟩ := hcomment t rfl
            rfl
      rw [grammarCourses, List.flatMap_append, List.flatMap_append, hsaid, htitle', hcomment']
      rfl

end Node

end Grammars

section Documents

variable {α : Type} {number : α → String} {inlineStyle : Bool}

theorem values_id_document (pieces : List (SvgPiece α)) :
    values "text" "id" (pieces.flatMap (SvgPiece.tokens number inlineStyle)) =
      (pieces.filterMap SvgPiece.inscription?).filterMap Inscription.anchor? := by
  rw [values, List.filterMap_flatMap, List.filterMap_filterMap, List.filterMap_eq_flatMap_toList]
  exact List.flatMap_congr fun p _ => values_id_tokens p

theorem values_href_document (pieces : List (SvgPiece α)) :
    values "a" "xlink:href" (pieces.flatMap (SvgPiece.tokens number inlineStyle)) =
      ((pieces.filterMap SvgPiece.inscription?).filterMap Inscription.target?).map ("#" ++ ·) := by
  rw [values, List.filterMap_flatMap, List.filterMap_filterMap, List.map_filterMap,
    List.filterMap_eq_flatMap_toList]
  exact List.flatMap_congr fun p _ => values_href_tokens p

theorem Node.filterMap_anchor?_wording (links : List String) (n : Node) :
    (n.wording links).filterMap Inscription.anchor? = [] := by
  cases n with
  | identifier id name => rw [wording]; split <;> rfl
  | _ => rfl

theorem Node.filterMap_target?_wording (links : List String) (n : Node) :
    (n.wording links).filterMap Inscription.target? = n.mention?.toList.filter links.contains := by
  cases n with
  | identifier id name =>
      by_cases h : name ∈ links <;> simp [wording, Inscription.target?, mention?, h]
  | _ => rfl

theorem Rule.filterMap_anchor?_wording (links : List String) (r : Rule) :
    (r.wording links).filterMap Inscription.anchor? = [r.name] := by
  rw [wording, List.filterMap_cons, List.filterMap_flatMap,
    List.flatMap_congr fun n _ => n.filterMap_anchor?_wording links]
  simp [Inscription.heading, Inscription.anchor?]

/-- The links of a rule are the names that it mentions, as far as they are linked. -/
theorem Rule.filterMap_target?_wording (links : List String) (r : Rule) :
    (r.wording links).filterMap Inscription.target? = r.mentions.filter links.contains := by
  have hleaves : r.leaves.filterMap Node.mention? = r.mentions := by
    obtain ⟨name, _ | e⟩ := r
    · rfl
    · simp only [leaves, mentions, Option.toList_some, List.flatMap_singleton, List.filterMap_filter]
      refine List.filterMap_congr fun n _ => ?_
      cases n <;> rfl
  rw [wording, List.filterMap_cons, List.filterMap_flatMap,
    List.flatMap_congr fun n _ => n.filterMap_target?_wording links, ← hleaves,
    List.filterMap_eq_flatMap_toList, List.filter_flatMap]
  rfl

variable (title : Option Node) (rules : List Rule) (links : List String) (comment : Option String)

theorem filterMap_anchor?_grammarWording :
    (grammarWording title rules links comment).filterMap Inscription.anchor? =
      rules.map Rule.name ++ comment.toList := by
  have htitle : (title.toList.flatMap (Node.wording [])).filterMap Inscription.anchor? = [] := by
    rw [List.filterMap_flatMap]
    exact List.flatMap_eq_nil_iff.mpr fun n _ => n.filterMap_anchor?_wording []
  have hrules : (rules.flatMap (Rule.wording links)).filterMap Inscription.anchor? =
      rules.map Rule.name := by
    rw [List.filterMap_flatMap, List.map_eq_flatMap]
    exact List.flatMap_congr fun r _ => r.filterMap_anchor?_wording links
  have hcomment : (comment.toList.map Inscription.heading).filterMap Inscription.anchor? =
      comment.toList := by
    cases comment <;> rfl
  rw [grammarWording, List.filterMap_append, List.filterMap_append, htitle, hrules, hcomment,
    List.nil_append]

theorem filterMap_target?_grammarWording :
    (grammarWording title rules links comment).filterMap Inscription.target? =
      (rules.flatMap Rule.mentions).filter links.contains := by
  have htitle : (title.toList.flatMap (Node.wording [])).filterMap Inscription.target? = [] := by
    rw [List.filterMap_flatMap]
    exact List.flatMap_eq_nil_iff.mpr fun n _ => (n.filterMap_target?_wording []).trans (by simp)
  have hrules : (rules.flatMap (Rule.wording links)).filterMap Inscription.target? =
      (rules.flatMap Rule.mentions).filter links.contains := by
    rw [List.filterMap_flatMap, List.filter_flatMap]
    exact List.flatMap_congr fun r _ => r.filterMap_target?_wording links
  have hcomment : (comment.toList.map Inscription.heading).filterMap Inscription.target? = [] := by
    cases comment <;> rfl
  rw [grammarWording, List.filterMap_append, List.filterMap_append, htitle, hrules, hcomment,
    List.nil_append, List.append_nil]

end Documents

namespace Generator

variable {g : Generator}

/-- What is drawn of a text that can be read and laid out, on an output that can be made. -/
theorem outcome_draw {format : Format} {settings : List Setting} {text : String} {root : Node}
    {table : BoxTable Float} {surface : Surface Float} {output : Output Float} {session : DrawingSession Float}
    (hcreate : format.surface.create settings = .ok surface)
    (hread : (g.reader.read g.nextId text).result = .ok root)
    (hlayout : layoutGrammar root = .ok table)
    (hdraw : drawDocument (.direct surface) root table (if g.links then root.ruleNames else []) =
      (.ok session, output)) :
    outcome (draw format settings text false g) = .ok output.surface.artifact := by
  rw [(draw_plain_of_read hcreate hread).1, linksOf, documentOf_of_layout hlayout hdraw]
  rfl

theorem exists_svgOptions {format : Format} (hformat : format = .svg ∨ format = .html)
    {settings : List Setting} {surface : Surface Float}
    (h : format.surface.create settings = .ok surface) : ∃ o, surface = .svg (.start o) := by
  have hset : ∀ {start : SvgOptions}, (do
      return .svg (.start (← settings.foldlM SvgOptions.set start)) :
        Except UnknownSetting (Surface Float)) = .ok surface → ∃ o, surface = .svg (.start o) := by
    intro start h
    cases ho : settings.foldlM SvgOptions.set start with
    | error fault =>
        rw [ho] at h
        cases h
    | ok o =>
        rw [ho] at h
        cases h
        exact ⟨o, rfl⟩
  rcases hformat with rfl | rfl <;> exact hset h

/-- What can be read and followed in the document of a text that can be read and laid out. -/
theorem exists_linked_document (hformat : g.format = .svg ∨ g.format = .html) (hlinks : g.links = true)
    {surface : Surface Float} (hcreate : g.format.surface.create g.settings = .ok surface)
    {text : String} {root : Node} (hread : (g.reader.read g.nextId text).result = .ok root)
    {table : BoxTable Float} (hlayout : layoutGrammar root = .ok table) (traced : Bool) :
    ∃ (rules : List Rule) (s : Svg Float) (tokens : List Token),
      root.rules = .ok rules ∧ outcome (generate text traced g) = .ok (Surface.svg s).artifact ∧
      scan (Surface.svg s).document = some tokens ∧
      s.pieces.toList.filterMap SvgPiece.inscription? =
        grammarWording root.title? rules (definedNames rules) (root.comment?.bind Node.text?) ∧
      values "text" "id" tokens =
        rules.map Rule.name ++ (root.comment?.bind Node.text?).toList ∧
      values "a" "xlink:href" tokens =
        ((rules.flatMap Rule.mentions).filter (definedNames rules).contains).map ("#" ++ ·) := by
  have hroot := Ebnf.isGrammar_of_read hread
  obtain ⟨o, rfl⟩ := exists_svgOptions hformat hcreate
  obtain ⟨rules, hrules, hwording⟩ := hroot.exists_rules
  have hnames : root.ruleNames = definedNames rules := by rw [Node.ruleNames, hrules]
  obtain ⟨session, s, width, height, body, leaves, hdraw, -, hpieces, -, hsaid, -, hleaves⟩ :=
    exists_document hlayout root.ruleNames o
  have hall : s.pieces.toList.filterMap SvgPiece.inscription? =
      grammarWording root.title? rules (definedNames rules) (root.comment?.bind Node.text?) := by
    rw [hpieces, inscriptions_document, hsaid, hleaves hroot, hwording, hnames]
  have hpng : g.format ≠ .png := by rcases hformat with h | h <;> rw [h] <;> decide
  refine ⟨rules, s, _, hrules, ?_, scan_document isVerbatim_svgNumber _, hall, ?_, ?_⟩
  · have hdirect : outcome (generate text false g) = .ok (Surface.svg s).artifact := by
      change outcome ((if g.format = .png then _ else draw g.format g.settings text false) g) = _
      rw [if_neg hpng]
      exact outcome_draw hcreate hread hlayout (by rw [if_pos hlinks, hdraw])
    cases traced with
    | false => exact hdirect
    | true => rw [generate_traced, hdirect]
  · rw [values_id_document, hall, filterMap_anchor?_grammarWording]
  · rw [values_href_document, hall, filterMap_target?_grammarWording]

/-- In a document with links the identifiers in the expressions that name a rule, and nothing else, stand in
links, and each link leads to a text that is the name of a rule.  The texts that can be linked to are the names
of the rules, and the comment; so they are the names of the rules alone exactly if there is no comment, or if it
reads like the name of a rule. -/
theorem links_resolve (hformat : g.format = .svg ∨ g.format = .html) (hlinks : g.links = true)
    {surface : Surface Float} (hcreate : g.format.surface.create g.settings = .ok surface)
    {text : String} {root : Node} (hread : (g.reader.read g.nextId text).result = .ok root)
    {table : BoxTable Float} (hlayout : layoutGrammar root = .ok table) (traced : Bool) :
    ∃ (rules : List Rule) (s : Svg Float) (tokens : List Token),
      root.rules = .ok rules ∧
      outcome (generate text traced g) = .ok (.document (Surface.svg s).document) ∧
      scan (Surface.svg s).document = some tokens ∧
      s.pieces.toList.filterMap SvgPiece.inscription? =
        grammarWording root.title? rules (definedNames rules) (root.comment?.bind Node.text?) ∧
      (∀ target ∈ values "a" "xlink:href" tokens, ∃ r ∈ rules, target = "#" ++ r.name) ∧
      values "text" "id" tokens = rules.map Rule.name ++ (root.comment?.bind Node.text?).toList ∧
      ((∀ id, id ∈ values "text" "id" tokens ↔ id ∈ definedNames rules) ↔
        ∀ comment ∈ root.comment?.bind Node.text?, comment ∈ definedNames rules) := by
  obtain ⟨rules, s, tokens, hrules, hdone, hscan, hsaid, hids, htargets⟩ :=
    exists_linked_document hformat hlinks hcreate hread hlayout traced
  refine ⟨rules, s, tokens, hrules, hdone, hscan, hsaid, ?_, hids, ?_⟩
  · intro target htarget
    rw [htargets, List.mem_map] at htarget
    obtain ⟨name, hname, rfl⟩ := htarget
    have hdefined : name ∈ definedNames rules := by simpa using (List.mem_filter.mp hname).2
    obtain ⟨r, hr, rfl⟩ := List.mem_map.mp (mem_distinct.mp hdefined)
    exact ⟨r, hr, rfl⟩
  · simp only [hids, List.mem_append, Option.mem_toList, definedNames, mem_distinct]
    constructor
    · intro hall comment hcomment
      exact (hall comment).mp (.inr hcomment)
    · intro hcomment id
      exact ⟨fun h => h.elim (fun h => h) (hcomment id), .inl⟩

/-- Two rules, one of which mentions the other, and a comment. -/
def notedText : String :=
  "\x7b a = 'x' b . b = 'y' . \x7d 'note'"

def notedTree : Node :=
  .grammar 10 none (some (.productionList 8
    [.production 4 (some (.identifier 3 "a"))
        (some (.sequence 2 [.literal 0 "x" .quoted, .identifier 1 "b"])),
      .production 7 (some (.identifier 6 "b")) (some (.literal 5 "y" .quoted))]))
    (some (.other 9 "note"))

theorem read_notedText : (Ebnf.Reader.new.read 0 notedText).result = .ok notedTree := by cbv

theorem exists_layout_notedTree : ∃ table : BoxTable Float, layoutGrammar notedTree = .ok table := by
  obtain ⟨table, engine, hlayout⟩ := Engine.layout_of_complete (α := Float)
    (by decide : notedTree.isComplete = true) (by decide) (by decide) .none
  exact ⟨table, layoutGrammar_of_layout rfl hlayout⟩

theorem links_resolve_noted : ∃ table : BoxTable Float,
    (Ebnf.Reader.new.read 0 notedText).result = .ok notedTree ∧ layoutGrammar notedTree = .ok table ∧
    ∃ (rules : List Rule) (s : Svg Float) (tokens : List Token),
      notedTree.rules = .ok rules ∧
      outcome (generate notedText false (.new .svg true [])) = .ok (.document (Surface.svg s).document) ∧
      scan (Surface.svg s).document = some tokens ∧
      s.pieces.toList.filterMap SvgPiece.inscription? =
        grammarWording none rules (definedNames rules) (some "note") ∧
      (∀ target ∈ values "a" "xlink:href" tokens, ∃ r ∈ rules, target = "#" ++ r.name) ∧
      values "text" "id" tokens = rules.map Rule.name ++ ["note"] ∧
      ((∀ id, id ∈ values "text" "id" tokens ↔ id ∈ definedNames rules) ↔
        ∀ comment ∈ some "note", comment ∈ definedNames rules) := by
  obtain ⟨table, hlayout⟩ := exists_layout_notedTree
  exact ⟨table, read_notedText, hlayout,
    links_resolve (g := .new .svg true []) (.inl rfl) rfl rfl read_notedText hlayout false⟩

/-- The comment can be linked to as if there were a rule of that name. -/
theorem comment_anchored : ∃ (rules : List Rule) (document : String) (tokens : List Token),
    (Ebnf.Reader.new.read 0 notedText).result = .ok notedTree ∧ notedTree.rules = .ok rules ∧
    outcome (generate notedText false (.new .svg true [])) = .ok (.document document) ∧
    scan document = some tokens ∧ values "text" "id" tokens = ["a", "b", "note"] ∧
    definedNames rules = ["a", "b"] := by
  obtain ⟨table, hlayout⟩ := exists_layout_notedTree
  obtain ⟨rules, s, tokens, hrules, hdone, hscan, -, hids, -⟩ :=
    exists_linked_document (g := .new .svg true []) (.inl rfl) rfl rfl read_notedText hlayout false
  have hfound : rules = [⟨"a", some (.sequence 2 [.literal 0 "x" .quoted, .identifier 1 "b"])⟩,
      ⟨"b", some (.literal 5 "y" .quoted)⟩] :=
    (Except.ok.inj hrules).symm
  subst hfound
  exact ⟨_, _, tokens, read_notedText, hrules, hdone, hscan, hids, by decide⟩

end Generator

end Railroad
