import Railroad.Proofs.Drawing.Protocol
import Railroad.Proofs.Layout.Arrangement
import Railroad.Proofs.Reference.Circles
/-!
The reference graph of a grammar, told from its productions: the names that stand in it, which of them are
defined and how often, and which production mentions what.

The graph also comes out if it is grown name by name, first over the definitions of the rules and then over
their mentions; the edges stand in another order then.
-/
namespace Railroad

/-- The name of a production; one that has no identifier has the empty name. -/
def Node.ruleName? : Node → Option String
  | .production _ none _ => some ""
  | .production _ (some n) _ => n.text?
  | _ => none

/-- The node is a production with an expression that mentions the name. -/
def Node.IsMentioning (p : Node) (name : String) : Prop :=
  ∃ id n e, p = .production id n (some e) ∧ e.Mentions name

/-- A graph has the names of some productions and those that they mention, each of them once, and one edge for
all mentions of a name by productions of one name. -/
structure ReferenceGraph.IsExact (g : ReferenceGraph) (ps : List Node) : Prop where
  nodup_names : (g.names.map (·.1)).Nodup
  mem_names : ∀ name, name ∈ g.names.map (·.1) ↔
    name ∈ ps.filterMap Node.ruleName? ∨ ∃ p ∈ ps, p.IsMentioning name
  /-- Defined names know where they are first defined, and how often they are. -/
  defined : ∀ name d, (name, some d) ∈ g.names ↔ name ∈ ps.filterMap Node.ruleName? ∧
    d = ⟨(ps.filterMap Node.ruleName?).idxOf name, (ps.filterMap Node.ruleName?).count name⟩
  undefined : ∀ name, (name, none) ∈ g.names ↔
    name ∉ ps.filterMap Node.ruleName? ∧ ∃ p ∈ ps, p.IsMentioning name
  nodup_edges : g.edges.Nodup
  mem_edges : ∀ a b, (a, b) ∈ g.edges ↔ ∃ p ∈ ps, p.ruleName? = some a ∧ p.IsMentioning b

section Productions

variable {ps : List Node} {p : Node} {r : Rule} {rules : List Rule} {name : String}

theorem Node.exists_rule (h : p.ruleName?.isSome) : ∃ r, p.rule = .ok r := by
  cases p with
  | production id n expression =>
      cases n with
      | none => exact ⟨⟨"", expression⟩, rfl⟩
      | some n =>
          obtain ⟨text, htext⟩ := Option.isSome_iff_exists.mp h
          rw [ruleName?] at htext
          exact ⟨⟨text, expression⟩, by rw [rule, nameText, htext]; rfl⟩
  | _ => simp [ruleName?] at h

theorem Node.eq_production_of_rule (h : p.rule = .ok r) :
    ∃ id n, p = .production id n r.expression ∧ nameText n = .ok r.name := by
  cases p with
  | production id n expression =>
      rw [rule] at h
      cases hname : nameText n with
      | error e =>
          rw [hname] at h
          cases h
      | ok text =>
          rw [hname] at h
          cases h
          exact ⟨id, n, rfl, hname⟩
  | _ => cases h

theorem Node.ruleName?_of_rule (h : p.rule = .ok r) : p.ruleName? = some r.name := by
  obtain ⟨id, n, rfl, hname⟩ := eq_production_of_rule h
  cases n with
  | none =>
      rw [nameText, Except.ok.injEq] at hname
      rw [ruleName?, hname]
  | some n =>
      rw [ruleName?]
      rw [nameText] at hname
      split at hname <;> cases hname
      assumption

theorem Node.isMentioning_of_rule (h : p.rule = .ok r) : p.IsMentioning name ↔ name ∈ r.mentions := by
  obtain ⟨id, n, rfl, -⟩ := eq_production_of_rule h
  rw [Rule.mem_mentions]
  constructor
  · rintro ⟨_, _, e, heq, hmentions⟩
    rw [production.injEq] at heq
    exact ⟨e, heq.2.2, hmentions⟩
  · rintro ⟨e, hexpression, hmentions⟩
    exact ⟨id, n, e, by rw [Option.mem_def.mp hexpression], hmentions⟩

theorem exists_rules (h : ∀ p ∈ ps, p.ruleName?.isSome) :
    ∃ rules, ps.mapM Node.rule = .ok rules ∧ List.Forall₂ (fun p r => p.rule = .ok r) ps rules := by
  induction ps with
  | nil => exact ⟨[], rfl, .nil⟩
  | cons p ps ih =>
      rw [List.forall_mem_cons] at h
      obtain ⟨r, hr⟩ := Node.exists_rule h.1
      obtain ⟨rules, hrules, heach⟩ := ih h.2
      exact ⟨r :: rules, mapM_cons_eq_ok hr hrules, .cons hr heach⟩

/-- The names of the rules are those of the productions, in their order. -/
theorem map_name_of_rules (h : List.Forall₂ (fun p r => p.rule = .ok r) ps rules) :
    rules.map Rule.name = ps.filterMap Node.ruleName? := by
  induction h with
  | nil => rfl
  | cons hr _ ih => rw [List.map_cons, List.filterMap_cons, Node.ruleName?_of_rule hr, ih]

theorem isMentioning_iff_of_rules (h : List.Forall₂ (fun p r => p.rule = .ok r) ps rules) :
    (∃ p ∈ ps, p.IsMentioning name) ↔ ∃ r ∈ rules, name ∈ r.mentions := by
  constructor
  · rintro ⟨p, hp, hmentions⟩
    obtain ⟨r, hr, hrule⟩ := exists_of_mem_left h hp
    exact ⟨r, hr, (Node.isMentioning_of_rule hrule).mp hmentions⟩
  · rintro ⟨r, hr, hmentions⟩
    obtain ⟨p, hp, hrule⟩ := exists_of_mem_right h hr
    exact ⟨p, hp, (Node.isMentioning_of_rule hrule).mpr hmentions⟩

theorem refers_iff_of_rules (h : List.Forall₂ (fun p r => p.rule = .ok r) ps rules) {target : String} :
    Refers rules name target ↔ ∃ p ∈ ps, p.ruleName? = some name ∧ p.IsMentioning target := by
  constructor
  · rintro ⟨r, hr, rfl, hmentions⟩
    obtain ⟨p, hp, hrule⟩ := exists_of_mem_right h hr
    exact ⟨p, hp, Node.ruleName?_of_rule hrule,
      (Node.isMentioning_of_rule hrule).mpr (Rule.mem_mentions.mpr hmentions)⟩
  · rintro ⟨p, hp, hname, hmentions⟩
    obtain ⟨r, hr, hrule⟩ := exists_of_mem_left h hp
    rw [Node.ruleName?_of_rule hrule, Option.some.injEq] at hname
    exact ⟨r, hr, hname, Rule.mem_mentions.mp ((Node.isMentioning_of_rule hrule).mp hmentions)⟩

end Productions

section Rules

variable {rules : List Rule} {name : String}

namespace ReferenceGraph

/-- The graph of the rules of some productions is exact. -/
theorem isExact_ofRules {ps : List Node} (h : List.Forall₂ (fun p r => p.rule = .ok r) ps rules) :
    (ofRules rules).IsExact ps := by
  have hnames := map_name_of_rules h
  refine ⟨nodup_names_ofRules, fun name => ?_, fun name d => ?_, fun name => ?_, nodup_edges_ofRules,
    fun a b => ?_⟩
  · rw [← hnames, isMentioning_iff_of_rules h]
    exact mem_map_fst_names_ofRules
  · rw [← hnames]
    exact some_mem_names_ofRules
  · rw [← hnames, isMentioning_iff_of_rules h]
    exact none_mem_names_ofRules
  · rw [← refers_iff_of_rules h, ← edge_ofRules, edge_iff]

/-- What is exact stays so with its edges in another order. -/
theorem IsExact.of_perm {g g' : ReferenceGraph} {ps : List Node} (h : g.IsExact ps)
    (hnames : g'.names = g.names) (hedges : g'.edges.Perm g.edges) : g'.IsExact ps := by
  refine ⟨?_, ?_, ?_, ?_, hedges.nodup_iff.mpr h.nodup_edges, fun a b => ?_⟩
  · rw [hnames]
    exact h.nodup_names
  · rw [hnames]
    exact h.mem_names
  · rw [hnames]
    exact h.defined
  · rw [hnames]
    exact h.undefined
  · rw [hedges.mem_iff]
    exact h.mem_edges a b

end ReferenceGraph

end Rules

section Reports

variable {rules : List Rule} {name : String}

/-- Of the names in the graph those without a definition are reported as undefined. -/
theorem undefinedNames_eq (rules : List Rule) : undefinedNames rules =
    sortNames ((undefinedIn (definedNames rules) (rules.flatMap Rule.mentions)).map (·.1)) := by
  rw [undefinedNames, ReferenceGraph.names_grown, ReferenceGraph.names_ofRules, List.filterMap_append]
  simp [definedIn, undefinedIn, List.filterMap_map, Function.comp_def]

theorem mem_undefinedNames : name ∈ undefinedNames rules ↔
    name ∉ rules.map Rule.name ∧ ∃ r ∈ rules, name ∈ r.mentions := by
  rw [undefinedNames_eq, mem_sortNames, mem_map_fst_undefinedIn, definedNames, mem_distinct,
    List.mem_flatMap, and_comm]

theorem mem_duplicateNames : name ∈ duplicateNames rules ↔ 2 ≤ (rules.map Rule.name).count name := by
  rw [duplicateNames, List.mem_filter, definedNames, mem_distinct]
  have htwice : 2 ≤ (rules.map Rule.name).count name → name ∈ rules.map Rule.name :=
    fun h => List.count_pos_iff.mp (Nat.zero_lt_of_lt h)
  constructor
  · rintro ⟨hname, hcount⟩
    rw [ReferenceGraph.definition?_grown hname] at hcount
    exact of_decide_eq_true hcount
  · intro h
    rw [ReferenceGraph.definition?_grown (htwice h)]
    exact ⟨htwice h, decide_eq_true h⟩

/-- The names of the graph are the defined ones and the undefined ones. -/
theorem perm_names_ofRules (rules : List Rule) :
    ((ReferenceGraph.ofRules rules).names.map (·.1)).Perm (definedNames rules ++ undefinedNames rules) := by
  rw [ReferenceGraph.names_ofRules, List.map_append, map_fst_definedIn, undefinedNames_eq]
  exact (List.mergeSort_perm _ _).symm.append_left _

theorem pairwise_undefinedNames (rules : List Rule) : (undefinedNames rules).Pairwise (· < ·) := by
  rw [undefinedNames_eq]
  refine pairwise_sortNames ?_
  rw [undefinedIn, List.map_map]
  exact (List.map_id' _).symm ▸ nodup_distinct _

end Reports

/-- If every production of a grammar has a name with a text, or none at all, then the rules of the grammar can
be told.  Their reference graph has exactly the names and the mentions of the productions, and so has the one
that is grown over them.  The names that are reported as undefined stand in strict order, and are those that
are mentioned and have no production.  The duplicates stand in the order of their first productions, and are
the names of two or more.  The names of the graph are the defined ones and the undefined ones, each once. -/
theorem references_exact (id listId : Nat) (title comment : Option Node) {ps : List Node}
    (hps : ∀ p ∈ ps, p.ruleName?.isSome) :
    ∃ rules, (Node.grammar id title (some (.productionList listId ps)) comment).rules = .ok rules ∧
      (ReferenceGraph.ofRules rules).IsExact ps ∧ (ReferenceGraph.grown rules).IsExact ps ∧
      (undefinedNames rules).Pairwise (· < ·) ∧
      (∀ name, name ∈ undefinedNames rules ↔
        name ∉ ps.filterMap Node.ruleName? ∧ ∃ p ∈ ps, p.IsMentioning name) ∧
      (duplicateNames rules).Pairwise (fun a b =>
        (ps.filterMap Node.ruleName?).idxOf a < (ps.filterMap Node.ruleName?).idxOf b) ∧
      (∀ name, name ∈ duplicateNames rules ↔ 2 ≤ (ps.filterMap Node.ruleName?).count name) ∧
      (∀ name, name ∈ definedNames rules ↔ name ∈ ps.filterMap Node.ruleName?) ∧
      ((ReferenceGraph.ofRules rules).names.map (·.1)).Perm
        (definedNames rules ++ undefinedNames rules) := by
  obtain ⟨rules, hrules, heach⟩ := exists_rules hps
  have hnames := map_name_of_rules heach
  have hexact := ReferenceGraph.isExact_ofRules heach
  refine ⟨rules, hrules, hexact,
    hexact.of_perm (ReferenceGraph.names_grown rules) (ReferenceGraph.edges_grown rules),
    pairwise_undefinedNames rules, fun name => ?_, ?_, fun name => ?_, fun name => ?_,
    perm_names_ofRules rules⟩
  · rw [mem_undefinedNames, hnames, isMentioning_iff_of_rules heach]
  · rw [← hnames]
    exact (pairwise_definedNames rules).filter _
  · rw [mem_duplicateNames, hnames]
  · rw [definedNames, mem_distinct, hnames]

/-- Productions of a name that is defined twice, and mentioned before and after that; of the empty name; and
of a name that has no expression.  One name that they mention has no production. -/
def scatteredProductions : List Node :=
  [.production 5 (some (.identifier 0 "a"))
      (some (.sequence 4 [.identifier 1 "b", .optional 3 (some (.identifier 2 "x"))])),
    .production 7 none (some (.identifier 6 "a")),
    .production 9 (some (.identifier 8 "b")) none,
    .production 14 (some (.identifier 10 "a"))
      (some (.alternation 13 [.literal 11 "t" .quoted, .identifier 12 "x"]))]

theorem references_exact_scattered : (∀ p ∈ scatteredProductions, p.ruleName?.isSome) ∧
    ∃ rules, (Node.grammar 16 none (some (.productionList 15 scatteredProductions)) none).rules = .ok rules ∧
      (ReferenceGraph.ofRules rules).IsExact scatteredProductions ∧
      (ReferenceGraph.grown rules).IsExact scatteredProductions ∧
      (undefinedNames rules).Pairwise (· < ·) ∧
      (∀ name, name ∈ undefinedNames rules ↔
        name ∉ ["a", "", "b", "a"] ∧ ∃ p ∈ scatteredProductions, p.IsMentioning name) ∧
      (duplicateNames rules).Pairwise (fun a b =>
        ["a", "", "b", "a"].idxOf a < ["a", "", "b", "a"].idxOf b) ∧
      (∀ name, name ∈ duplicateNames rules ↔ 2 ≤ ["a", "", "b", "a"].count name) ∧
      (∀ name, name ∈ definedNames rules ↔ name ∈ ["a", "", "b", "a"]) ∧
      ((ReferenceGraph.ofRules rules).names.map (·.1)).Perm
        (definedNames rules ++ undefinedNames rules) := by
  have hps : ∀ p ∈ scatteredProductions, p.ruleName?.isSome := by
    simp [scatteredProductions, Node.ruleName?, Node.text?]
  exact ⟨hps, references_exact 16 15 none none hps⟩

end Railroad
