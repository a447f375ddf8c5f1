import Mathlib.Data.List.Induction
import Mathlib.Logic.Relation
import Railroad.Proofs.Grammar.Preorder
import Railroad.Reference.Graph
/-!
The reference graph of some rules, and the same graph grown name by name, first over the definitions of the
rules and then over their mentions.  Both have the same names with the same definitions, and the same edges,
but in another order.
-/
namespace Railroad

open Relation

/-- An expression mentions a name anywhere. -/
def Node.Mentions (e : Node) (name : String) : Prop :=
  ∃ id, .identifier id name ∈ e.preorder

/-- Some rule of a name mentions another one in its expression. -/
def Refers (rules : List Rule) (name target : String) : Prop :=
  ∃ r ∈ rules, r.name = name ∧ ∃ e ∈ r.expression, e.Mentions target

/-- A chain of references leads from a name to another one; the empty chain leads to the name itself. -/
def LeadsTo (rules : List Rule) : String → String → Prop :=
  ReflTransGen (Refers rules)

section Mentions

variable {rules : List Rule} {name target : String}

theorem Rule.mem_mentions {r : Rule} :
    name ∈ r.mentions ↔ ∃ e ∈ r.expression, e.Mentions name := by
  rw [Rule.mentions]
  cases r.expression with
  | none => simp
  | some e =>
      have hmention : ∀ n : Node, n.mention? = some name ↔ ∃ id, n = .identifier id name := by
        intro n
        cases n <;> simp [Node.mention?]
      simp only [Node.walk_eq_preorder, List.mem_filterMap, hmention, Option.mem_def,
        Option.some.injEq, exists_eq_left', Node.Mentions]
      constructor
      · rintro ⟨_, hn, id, rfl⟩
        exact ⟨id, hn⟩
      · rintro ⟨id, hn⟩
        exact ⟨_, hn, id, rfl⟩

theorem mem_definedNames : name ∈ definedNames rules ↔ ∃ r ∈ rules, r.name = name := by
  rw [definedNames, mem_distinct, List.mem_map]

end Mentions

section Order

variable {seen names : List String} {name : String}

/-- Names stay in the order in which they are first met. -/
theorem pairwise_distinctFrom :
    (distinctFrom seen names).Pairwise fun a b => names.idxOf a < names.idxOf b := by
  induction names generalizing seen with
  | nil => exact .nil
  | cons first names ih =>
      have hlater : ∀ {seen : List String}, first ∈ seen → (distinctFrom seen names).Pairwise
          fun a b => (first :: names).idxOf a < (first :: names).idxOf b := by
        intro seen hfirst
        refine ih.imp_of_mem fun {a b} ha hb hab => ?_
        have hne : ∀ c ∈ distinctFrom seen names, first ≠ c := by
          rintro c hc rfl
          exact (mem_distinctFrom.mp hc).2 hfirst
        rw [List.idxOf_cons_ne _ (hne a ha), List.idxOf_cons_ne _ (hne b hb)]
        exact Nat.succ_lt_succ hab
      by_cases hfirst : first ∈ seen
      · rw [distinctFrom, if_pos hfirst]
        exact hlater hfirst
      · rw [distinctFrom, if_neg hfirst, List.pairwise_cons]
        refine ⟨fun b hb => ?_, hlater List.mem_cons_self⟩
        have hne : first ≠ b := by
          rintro rfl
          exact (mem_distinctFrom.mp hb).2 List.mem_cons_self
        rw [List.idxOf_cons_self, List.idxOf_cons_ne _ hne]
        exact Nat.succ_pos _

theorem pairwise_definedNames (rules : List Rule) : (definedNames rules).Pairwise fun a b =>
    (rules.map Rule.name).idxOf a < (rules.map Rule.name).idxOf b :=
  pairwise_distinctFrom

theorem nodup_distinct (names : List String) : (distinct names).Nodup := by
  have hpairwise : (distinct names).Pairwise fun a b => names.idxOf a < names.idxOf b :=
    pairwise_distinctFrom
  refine hpairwise.imp fun hlt heq => ?_
  rw [heq] at hlt
  exact Nat.lt_irrefl _ hlt

theorem distinctFrom_concat {seen : List String} : distinctFrom seen (names ++ [name]) =
    distinctFrom seen names ++ if name ∈ seen ∨ name ∈ names then [] else [name] := by
  induction names generalizing seen with
  | nil => simp [distinctFrom]
  | cons first names ih =>
      rw [List.cons_append, distinctFrom, distinctFrom]
      split
      · rename_i hfirst
        rw [ih]
        grind
      · rw [ih]
        grind

theorem distinct_concat : distinct (names ++ [name]) =
    distinct names ++ if name ∈ names then [] else [name] := by
  rw [distinct, distinctFrom_concat]
  simp [distinct]

end Order

section Names

variable {rules : List Rule} {name : String}

/-- Where the first of some names stands in them, and how often it does. -/
def definitionIn (names : List String) (name : String) : Definition :=
  ⟨names.idxOf name, names.count name⟩

/-- Names with their definitions, each once, in the order of the first ones. -/
def definedIn (names : List String) : List (String × Option Definition) :=
  (distinct names).map fun name => (name, some (definitionIn names name))

/-- Names that are not known yet, each once, without a definition. -/
def undefinedIn (known mentioned : List String) : List (String × Option Definition) :=
  (distinct (mentioned.filter (!known.contains ·))).map fun name => (name, none)

theorem mem_map_fst_undefinedIn {known mentioned : List String} :
    name ∈ (undefinedIn known mentioned).map (·.1) ↔ name ∈ mentioned ∧ name ∉ known := by
  simp [undefinedIn, mem_distinct]

theorem map_fst_definedIn (names : List String) : (definedIn names).map (·.1) = distinct names := by
  rw [definedIn, List.map_map]
  exact List.map_id' _

theorem lookup_definedIn {names : List String} (h : name ∈ names) :
    (definedIn names).lookup name = some (some (definitionIn names name)) := by
  obtain ⟨before, after, hsplit, hnew⟩ := List.eq_append_cons_of_mem (mem_distinct.mpr h)
  rw [List.lookup_eq_some_iff, definedIn, hsplit, List.map_append, List.map_cons]
  refine ⟨_, _, rfl, fun known hknown => ?_⟩
  obtain ⟨other, hother, rfl⟩ := List.mem_map.mp hknown
  exact bne_iff_ne.mpr fun heq => hnew (heq ▸ hother)

theorem definition_eq_definitionIn : (⟨rules.findIdx (·.name = name), rules.countP (·.name = name)⟩ :
    Definition) = definitionIn (rules.map Rule.name) name := by
  rw [definitionIn, List.idxOf, List.findIdx_map, List.count, List.countP_map]
  rfl

namespace ReferenceGraph

/-- The names of the graph are the defined ones, and then the others that are mentioned. -/
theorem names_ofRules : (ofRules rules).names = definedIn (rules.map Rule.name) ++
    undefinedIn (definedNames rules) (rules.flatMap Rule.mentions) := by
  simp only [ofRules, definition_eq_definitionIn]
  rfl

theorem mem_map_fst_names_ofRules : name ∈ (ofRules rules).names.map (·.1) ↔
    name ∈ rules.map Rule.name ∨ ∃ r ∈ rules, name ∈ r.mentions := by
  rw [names_ofRules, List.map_append, List.mem_append, map_fst_definedIn, mem_map_fst_undefinedIn,
    definedNames, mem_distinct, List.mem_flatMap]
  tauto

theorem some_mem_names_ofRules {d : Definition} : (name, some d) ∈ (ofRules rules).names ↔
    name ∈ rules.map Rule.name ∧ d = definitionIn (rules.map Rule.name) name := by
  rw [names_ofRules, definedIn, undefinedIn]
  simp only [List.mem_append, List.mem_map, mem_distinct, Prod.mk.injEq,
    Option.some.injEq, reduceCtorEq, and_false, exists_false, or_false]
  constructor
  · rintro ⟨_, hname, rfl, rfl⟩
    exact ⟨hname, rfl⟩
  · rintro ⟨hname, rfl⟩
    exact ⟨name, hname, rfl, rfl⟩

theorem none_mem_names_ofRules : (name, none) ∈ (ofRules rules).names ↔
    name ∉ rules.map Rule.name ∧ ∃ r ∈ rules, name ∈ r.mentions := by
  rw [names_ofRules]
  simp [definedIn, undefinedIn, definedNames, mem_distinct, and_comm]

theorem nodup_names_ofRules : ((ofRules rules).names.map (·.1)).Nodup := by
  simp only [ofRules, List.map_append, List.map_map, Function.comp_def, List.map_id']
  refine List.nodup_append'.mpr ⟨nodup_distinct _, nodup_distinct _, ?_⟩
  intro a hdefined hundefined
  rw [mem_distinct, List.mem_filter] at hundefined
  simp [hdefined] at hundefined

end ReferenceGraph

end Names

section Edges

variable {rules : List Rule} {name target : String}

namespace ReferenceGraph

/-- A name of a graph mentions another one. -/
def Edge (g : ReferenceGraph) (a b : String) : Prop :=
  b ∈ g.targets a

theorem edge_iff {g : ReferenceGraph} {a b : String} : g.Edge a b ↔ (a, b) ∈ g.edges := by
  simp [Edge, targets]

/-- The edges of the graph are the references of the rules. -/
theorem mem_targets_ofRules :
    target ∈ (ofRules rules).targets name ↔ Refers rules name target := by
  simp only [targets, ofRules, List.mem_filterMap, List.mem_flatMap, List.mem_map, mem_distinct,
    List.mem_filter, decide_eq_true_eq]
  constructor
  · rintro ⟨_, ⟨source, -, b, ⟨r, ⟨hr, rfl⟩, hb⟩, rfl⟩, hedge⟩
    simp only [Option.ite_none_right_eq_some, Option.some.injEq] at hedge
    obtain ⟨rfl, rfl⟩ := hedge
    exact ⟨r, hr, rfl, Rule.mem_mentions.mp hb⟩
  · rintro ⟨r, hr, rfl, hmentions⟩
    refine ⟨(r.name, target), ⟨r.name, mem_definedNames.mpr ⟨r, hr, rfl⟩, target,
      ⟨r, ⟨hr, rfl⟩, Rule.mem_mentions.mpr hmentions⟩, rfl⟩, ?_⟩
    simp

theorem edge_ofRules : (ofRules rules).Edge = Refers rules := by
  funext a b
  rw [Edge, mem_targets_ofRules]

/-- Different names have different edges, and each of them mentions nothing twice. -/
theorem nodup_edges_ofRules : (ofRules rules).edges.Nodup := by
  simp only [ofRules]
  refine List.nodup_flatMap.mpr ⟨fun name _ => ?_, ?_⟩
  · exact (nodup_distinct _).map fun _ _ h => (Prod.mk.inj h).2
  · refine (nodup_distinct _).imp fun {a b} hne edge ha hb => hne ?_
    obtain ⟨_, -, rfl⟩ := List.mem_map.mp ha
    obtain ⟨_, -, heq⟩ := List.mem_map.mp hb
    exact (Prod.mk.inj heq).1.symm

end ReferenceGraph

end Edges

section Growth

variable {names : List String} {name : String} {g : ReferenceGraph}

/-- A name that has a definition is one more time defined by a name that is the same. -/
theorem definitionIn_concat_of_mem {known : String} (h : known ∈ names) :
    definitionIn (names ++ [name]) known = if known = name then
      { definitionIn names known with count := (definitionIn names known).count + 1 }
    else definitionIn names known := by
  rw [definitionIn, List.idxOf_append_of_mem h, List.count_append, List.count_singleton]
  grind [definitionIn]

theorem definitionIn_concat_of_notMem (h : name ∉ names) :
    definitionIn (names ++ [name]) name = ⟨names.length, 1⟩ := by
  rw [definitionIn, List.idxOf_append_of_notMem h, List.count_append, List.count_eq_zero.mpr h,
    List.idxOf_cons_self, List.count_singleton_self, Nat.add_zero, Nat.zero_add]

namespace ReferenceGraph

/-- One more definition of a name changes what is known of the name, and of no other one. -/
theorem define_definedIn (names : List String) (name : String) :
    define ⟨definedIn names, []⟩ (name, names.length) = ⟨definedIn (names ++ [name]), []⟩ := by
  simp only [define, map_fst_definedIn, mem_distinct]
  by_cases hname : name ∈ names
  · rw [if_pos hname, definedIn, definedIn, distinct_concat, if_pos hname, List.append_nil, List.map_map]
    congr 1
    refine List.map_congr_left fun known hknown => ?_
    rw [definitionIn_concat_of_mem (mem_distinct.mp hknown)]
    simp only [Function.comp_apply, Option.map_some]
    split <;> rfl
  · rw [if_neg hname, definedIn, definedIn, distinct_concat, if_neg hname, List.map_append,
      List.map_singleton, definitionIn_concat_of_notMem hname]
    congr 2
    refine List.map_congr_left fun known hknown => ?_
    have hne : known ≠ name := fun h => hname (h ▸ mem_distinct.mp hknown)
    rw [definitionIn_concat_of_mem (mem_distinct.mp hknown), if_neg hne]

/-- After the definitions the names are known that are defined, each with its place and its count. -/
theorem foldl_define (names : List String) :
    names.zipIdx.foldl define ⟨[], []⟩ = ⟨definedIn names, []⟩ := by
  induction names using List.reverseRecOn with
  | nil => rfl
  | append_singleton names name ih =>
      rw [List.zipIdx_append, List.foldl_append, ih, Nat.zero_add]
      exact define_definedIn names name

variable {edges : List (String × String)}

theorem undefinedIn_concat (known mentioned : List String) (name : String) :
    undefinedIn known (mentioned ++ [name]) = undefinedIn known mentioned ++
      if name ∈ known ∨ name ∈ mentioned then [] else [(name, none)] := by
  rw [undefinedIn, List.filter_append]
  by_cases hknown : name ∈ known
  · simp [undefinedIn, hknown]
  · have hnew : [name].filter (!known.contains ·) = [name] := by simp [hknown]
    rw [hnew, distinct_concat, List.map_append, undefinedIn]
    by_cases hmentioned : name ∈ mentioned <;> simp [hknown, hmentioned]

/-- Over mentions the names that were not known come in, in the order in which they are mentioned. -/
theorem names_foldl_mention : (edges.foldl mention g).names =
    g.names ++ undefinedIn (g.names.map (·.1)) (edges.map (·.2)) := by
  induction edges using List.reverseRecOn with
  | nil => simp [undefinedIn, distinct, distinctFrom]
  | append_singleton edges edge ih =>
      have hknown : edge.2 ∈ (edges.foldl mention g).names.map (·.1) ↔
          edge.2 ∈ g.names.map (·.1) ∨ edge.2 ∈ edges.map (·.2) := by
        rw [ih, List.map_append, List.mem_append, mem_map_fst_undefinedIn]
        tauto
      simp only [List.foldl_append, List.foldl_cons, List.foldl_nil, mention, hknown]
      rw [ih, List.map_append, List.map_singleton, undefinedIn_concat, ← List.append_assoc]
      split <;> simp

/-- Over mentions every one of them becomes an edge. -/
theorem mem_edges_foldl_mention {edge : String × String} :
    edge ∈ (edges.foldl mention g).edges ↔ edge ∈ g.edges ∨ edge ∈ edges := by
  induction edges generalizing g with
  | nil => simp
  | cons first edges ih =>
      rw [List.foldl_cons, ih, mention]
      grind

theorem nodup_edges_foldl_mention (h : g.edges.Nodup) : (edges.foldl mention g).edges.Nodup := by
  induction edges generalizing g with
  | nil => exact h
  | cons first edges ih =>
      refine ih ?_
      rw [mention]
      dsimp only
      split
      · exact h
      · rename_i hnew
        exact List.nodup_append'.mpr ⟨h, List.nodup_singleton _, by simpa using hnew⟩

variable {rules : List Rule}

theorem grown_eq (rules : List Rule) : grown rules =
    (rules.flatMap fun r => r.mentions.map (r.name, ·)).foldl mention
      ⟨definedIn (rules.map Rule.name), []⟩ := by
  simp only [grown, foldl_define, List.foldl_flatMap, List.foldl_map]

/-- The grown graph has the same names in the same order, and they have the same definitions. -/
theorem names_grown (rules : List Rule) : (grown rules).names = (ofRules rules).names := by
  rw [grown_eq, names_foldl_mention, names_ofRules, map_fst_definedIn]
  simp only [List.map_flatMap, List.map_map, Function.comp_def, List.map_id']
  rfl

/-- The grown graph tells where a name is first defined and how often. -/
theorem definition?_grown {name : String} (h : name ∈ rules.map Rule.name) :
    (grown rules).definition? name = some (definitionIn (rules.map Rule.name) name) := by
  rw [definition?, names_grown, names_ofRules, List.lookup_append, lookup_definedIn h]
  rfl

theorem mem_edges_grown {a b : String} : (a, b) ∈ (grown rules).edges ↔ Refers rules a b := by
  rw [grown_eq, mem_edges_foldl_mention]
  simp only [List.not_mem_nil, false_or, List.mem_flatMap, List.mem_map, Prod.mk.injEq,
    Rule.mem_mentions]
  constructor
  · rintro ⟨r, hr, _, hmentions, rfl, rfl⟩
    exact ⟨r, hr, rfl, hmentions⟩
  · rintro ⟨r, hr, rfl, hmentions⟩
    exact ⟨r, hr, b, hmentions, rfl, rfl⟩

theorem edge_grown : (grown rules).Edge = Refers rules := by
  funext a b
  rw [edge_iff, mem_edges_grown]

/-- Growing the graph leads to the same edges, each once, but in the order of the mentions. -/
theorem edges_grown (rules : List Rule) : (grown rules).edges.Perm (ofRules rules).edges := by
  have hnodup : (grown rules).edges.Nodup := by
    rw [grown_eq]
    exact nodup_edges_foldl_mention List.nodup_nil
  refine (List.perm_ext_iff_of_nodup hnodup nodup_edges_ofRules).mpr fun edge => ?_
  rw [mem_edges_grown, ← edge_ofRules, edge_iff]

/-- A second rule of a name adds its mentions at the end, and not to those of the first rule. -/
example :
    let rules : List Rule := [⟨"a", some (.identifier 0 "b")⟩, ⟨"b", some (.identifier 1 "a")⟩,
      ⟨"a", some (.identifier 2 "c")⟩]
    (grown rules).edges = [("a", "b"), ("b", "a"), ("a", "c")] ∧
      (ofRules rules).edges = [("a", "b"), ("a", "c"), ("b", "a")] := by
  constructor <;> cbv

end ReferenceGraph

end Growth

end Railroad
