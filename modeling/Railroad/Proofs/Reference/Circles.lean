import Mathlib.Data.Finset.Sort
import Mathlib.Data.String.Basic
import Railroad.Proofs.Reference.Reachability
/-!
Which names of a grammar lead back to themselves.  They are those on a circle of references, and they can
be told from the strongly connected components of the reference graph: a name is on a circle if its
component has another name in it, or if it mentions itself.
-/
namespace Railroad

open Relation

section Sorting

variable {names : List String} {name : String}

theorem mem_sortNames : name ∈ sortNames names ↔ name ∈ names :=
  List.mem_mergeSort

/-- Names without repetitions are put into strict order. -/
theorem pairwise_sortNames (h : names.Nodup) : (sortNames names).Pairwise (· < ·) := by
  have hsorted : (sortNames names).Pairwise fun a b => (!decide (b < a)) = true := by
    refine List.pairwise_mergeSort ?_ ?_ names
    · intro a b c hab hbc
      simp only [Bool.not_eq_true', decide_eq_false_iff_not, not_lt] at hab hbc ⊢
      exact hab.trans hbc
    · intro a b
      simp only [Bool.or_eq_true, Bool.not_eq_true', decide_eq_false_iff_not, not_lt]
      exact le_total a b
  have hnodup : (sortNames names).Nodup := (List.mergeSort_perm names _).nodup_iff.mpr h
  refine hsorted.imp₂ (fun a b hab hne => ?_) hnodup
  simp only [Bool.not_eq_true', decide_eq_false_iff_not, not_lt] at hab
  exact lt_of_le_of_ne hab hne

end Sorting

namespace ReferenceGraph

/-- The strongly connected components of a graph: sets of names that lead to one another, and of all
of these; every name is in one of them. -/
structure AreComponents (g : ReferenceGraph) (components : List (Finset String)) : Prop where
  covers : ∀ name ∈ g.names.map (·.1), ∃ c ∈ components, name ∈ c
  connected : ∀ c ∈ components, ∀ a ∈ c, ∀ b,
    b ∈ c ↔ ReflTransGen g.Edge a b ∧ ReflTransGen g.Edge b a

/-- The names of all components that have more than one, and those that mention themselves. -/
def circling (g : ReferenceGraph) (components : List (Finset String)) : Finset String :=
  (components.filter (1 < ·.card)).foldr (· ∪ ·) ∅ ∪
    ((g.edges.filter fun edge => edge.1 = edge.2).map (·.1)).toFinset

variable {g : ReferenceGraph} {components : List (Finset String)} {name : String}

theorem mem_circling : name ∈ g.circling components ↔
    (∃ c ∈ components, 1 < c.card ∧ name ∈ c) ∨ g.Edge name name := by
  have hunion : ∀ cs : List (Finset String),
      name ∈ cs.foldr (· ∪ ·) ∅ ↔ ∃ c ∈ cs, name ∈ c := by
    intro cs
    induction cs with
    | nil => simp
    | cons c cs ih => simp [ih]
  rw [circling, Finset.mem_union, hunion, edge_iff]
  refine or_congr ?_ ?_
  · simp [and_assoc]
  · simp only [List.mem_toFinset, List.mem_map, List.mem_filter, decide_eq_true_eq, Prod.exists]
    constructor
    · rintro ⟨_, _, ⟨hmem, rfl⟩, rfl⟩
      exact hmem
    · intro hmem
      exact ⟨name, name, ⟨hmem, rfl⟩, rfl⟩

/-- A chain from a name back to itself runs through another name of its component, or it has a first step
that is a mention of itself. -/
theorem AreComponents.mem_circling_iff (h : g.AreComponents components)
    (hnames : ∀ a b, g.Edge a b → a ∈ g.names.map (·.1)) :
    name ∈ g.circling components ↔ TransGen g.Edge name name := by
  rw [mem_circling]
  constructor
  · rintro (⟨c, hc, hcard, hname⟩ | hself)
    · obtain ⟨b, hb, hne⟩ := Finset.exists_mem_ne hcard name
      obtain ⟨hto, hback⟩ := (h.connected c hc name hname b).mp hb
      have hsteps := (reflTransGen_iff_eq_or_transGen.mp hto).resolve_left hne
      exact hsteps.trans_left hback
    · exact .single hself
  · intro hcircle
    obtain ⟨b, hstep, hback⟩ := TransGen.head'_iff.mp hcircle
    by_cases hself : name = b
    · exact .inr (hself ▸ hstep)
    · obtain ⟨c, hc, hname⟩ := h.covers name (hnames name b hstep)
      have hb : b ∈ c := (h.connected c hc name hname b).mpr ⟨.single hstep, hback⟩
      exact .inl ⟨c, hc, Finset.one_lt_card.mpr ⟨name, hname, b, hb, hself⟩, hname⟩

end ReferenceGraph

section Rules

variable {rules : List Rule} {name : String}

theorem ReferenceGraph.mem_names_of_refers {target : String} (h : Refers rules name target) :
    name ∈ (ofRules rules).names.map (·.1) := by
  obtain ⟨r, hr, hname, -⟩ := h
  exact mem_map_fst_names_ofRules.mpr (.inl (hname ▸ List.mem_map_of_mem hr))

/-- The names that lead back to themselves by at least one reference. -/
theorem mem_recursiveNames : name ∈ recursiveNames rules ↔ TransGen (Refers rules) name name := by
  have hedges : ∀ a b, (ReferenceGraph.ofRules rules).Edge a b →
      a ∈ (ReferenceGraph.ofRules rules).names.map (·.1) := by
    intro a b hedge
    rw [ReferenceGraph.edge_ofRules] at hedge
    exact ReferenceGraph.mem_names_of_refers hedge
  rw [recursiveNames, mem_sortNames, List.mem_filter, ← ReferenceGraph.mem_nameSet, Bool.not_eq_true',
    ← Bool.not_eq_true, ← Std.HashSet.mem_iff_contains,
    ReferenceGraph.mem_strikeOff_nameSet_iff hedges, ReferenceGraph.edge_ofRules, TransGen.head'_iff]
  simp only [ReferenceGraph.targetTable_getD, ReferenceGraph.mem_targets_ofRules]
  constructor
  · rintro ⟨hname, hreached⟩
    by_contra hnone
    exact hreached ⟨hname, fun w hstep hback => hnone ⟨w, hstep, hback⟩⟩
  · rintro ⟨w, hstep, hback⟩
    exact ⟨ReferenceGraph.mem_nameSet.mpr (ReferenceGraph.mem_names_of_refers hstep),
      fun hunreached => hunreached.2 w hstep hback⟩

end Rules

/-- The names that are reported as recursive stand in strict order.  They are the names from which a chain
of one or more references leads back, and each of them is the name of a rule.  Whatever list of the strongly
connected components of the reference graph is taken, they are the names of the components with more than
one name, and the names that mention themselves. -/
theorem recursive_iff_circle (rules : List Rule) :
    (recursiveNames rules).Pairwise (· < ·) ∧
      (∀ name, name ∈ recursiveNames rules ↔ TransGen (Refers rules) name name) ∧
      (∀ name ∈ recursiveNames rules, ∃ r ∈ rules, r.name = name) ∧
      ∀ components, (ReferenceGraph.ofRules rules).AreComponents components →
        recursiveNames rules = ((ReferenceGraph.ofRules rules).circling components).sort := by
  have hsorted : (recursiveNames rules).Pairwise (· < ·) :=
    pairwise_sortNames (ReferenceGraph.nodup_names_ofRules.filter _)
  refine ⟨hsorted, fun name => mem_recursiveNames, ?_, ?_⟩
  · intro name hname
    obtain ⟨b, hstep, -⟩ := TransGen.head'_iff.mp (mem_recursiveNames.mp hname)
    obtain ⟨r, hr, hrname, -⟩ := hstep
    exact ⟨r, hr, hrname⟩
  · intro components hcomponents
    refine hsorted.eq_of_mem_iff (Finset.sortedLT_sort _).pairwise fun name => ?_
    rw [mem_recursiveNames, Finset.mem_sort, hcomponents.mem_circling_iff,
      ReferenceGraph.edge_ofRules]
    intro a b hstep
    rw [ReferenceGraph.edge_ofRules] at hstep
    exact ReferenceGraph.mem_names_of_refers hstep

/-- Rules with a name that mentions itself, two that mention each other, one of them by its second rule, and
a name that has no rule. -/
def knottedRules : List Rule :=
  [⟨"a", some (.sequence 2 [.identifier 0 "a", .optional 4 (some (.identifier 1 "b"))])⟩,
    ⟨"b", some (.identifier 3 "c")⟩, ⟨"c", some (.literal 5 "t" .quoted)⟩,
    ⟨"c", some (.alternation 8 [.identifier 6 "b", .identifier 7 "x"])⟩]

theorem edges_knottedRules : (ReferenceGraph.ofRules knottedRules).edges =
    [("a", "a"), ("a", "b"), ("b", "c"), ("c", "b"), ("c", "x")] := by
  cbv

/-- A level of each name, such that no mention leads to a lower one. -/
def knottedLevel (name : String) : Nat :=
  if name = "a" then 0 else if name = "b" ∨ name = "c" then 1 else if name = "x" then 2 else 3

theorem knottedLevel_eq_iff (name : String) : (knottedLevel name = 0 ↔ name = "a") ∧
    (knottedLevel name = 1 ↔ name = "b" ∨ name = "c") ∧ (knottedLevel name = 2 ↔ name = "x") := by
  grind [knottedLevel]

theorem areComponents_knottedRules :
    (ReferenceGraph.ofRules knottedRules).AreComponents [{"a"}, {"b", "c"}, {"x"}] := by
  have hedge : ∀ a b, (ReferenceGraph.ofRules knottedRules).Edge a b ↔ (a, b) ∈
      [("a", "a"), ("a", "b"), ("b", "c"), ("c", "b"), ("c", "x")] := by
    intro a b
    rw [ReferenceGraph.edge_iff, edges_knottedRules]
  have hlevel : ∀ a b, ReflTransGen (ReferenceGraph.ofRules knottedRules).Edge a b →
      knottedLevel a ≤ knottedLevel b := by
    intro a b hpath
    induction hpath with
    | refl => exact le_rfl
    | @tail c d _ hstep ih =>
        have hmem : (c, d) ∈ [("a", "a"), ("a", "b"), ("b", "c"), ("c", "b"), ("c", "x")] :=
          (hedge c d).mp hstep
        refine ih.trans ?_
        simp only [List.mem_cons, Prod.mk.injEq, List.not_mem_nil, or_false] at hmem
        rcases hmem with ⟨rfl, rfl⟩ | ⟨rfl, rfl⟩ | ⟨rfl, rfl⟩ | ⟨rfl, rfl⟩ | ⟨rfl, rfl⟩ <;> decide
  -- names that lead to each other are on one level, and each component is all of a level
  have hsame : ∀ {a b}, ReflTransGen (ReferenceGraph.ofRules knottedRules).Edge a b ∧
      ReflTransGen (ReferenceGraph.ofRules knottedRules).Edge b a →
        knottedLevel b = knottedLevel a :=
    fun h => le_antisymm (hlevel _ _ h.2) (hlevel _ _ h.1)
  have hbc : (ReferenceGraph.ofRules knottedRules).Edge "b" "c" := (hedge _ _).mpr (by decide)
  have hcb : (ReferenceGraph.ofRules knottedRules).Edge "c" "b" := (hedge _ _).mpr (by decide)
  constructor
  · have hnames : (ReferenceGraph.ofRules knottedRules).names.map (·.1) = ["a", "b", "c", "x"] := by
      cbv
    rw [hnames]
    decide
  · intro c hc a ha b
    simp only [List.mem_cons, List.not_mem_nil, or_false] at hc
    constructor
    · intro hb
      rcases hc with rfl | rfl | rfl <;> simp only [Finset.mem_insert, Finset.mem_singleton] at ha hb
      · subst ha hb
        exact ⟨.refl, .refl⟩
      · rcases ha with rfl | rfl <;> rcases hb with rfl | rfl
        · exact ⟨.refl, .refl⟩
        · exact ⟨.single hbc, .single hcb⟩
        · exact ⟨.single hcb, .single hbc⟩
        · exact ⟨.refl, .refl⟩
      · subst ha hb
        exact ⟨.refl, .refl⟩
    · intro hboth
      have hb := hsame hboth
      rcases hc with rfl | rfl | rfl <;> simp only [Finset.mem_insert, Finset.mem_singleton] at ha ⊢
      · subst ha
        exact (knottedLevel_eq_iff b).1.mp (hb.trans (by decide))
      · refine (knottedLevel_eq_iff b).2.1.mp (hb.trans ?_)
        rcases ha with rfl | rfl <;> decide
      · subst ha
        exact (knottedLevel_eq_iff b).2.2.mp (hb.trans (by decide))

theorem recursive_iff_circle_knotted :
    (ReferenceGraph.ofRules knottedRules).AreComponents [{"a"}, {"b", "c"}, {"x"}] ∧
      (recursiveNames knottedRules).Pairwise (· < ·) ∧
      (∀ name, name ∈ recursiveNames knottedRules ↔ TransGen (Refers knottedRules) name name) ∧
      (∀ name ∈ recursiveNames knottedRules, ∃ r ∈ knottedRules, r.name = name) ∧
      recursiveNames knottedRules =
        ((ReferenceGraph.ofRules knottedRules).circling [{"a"}, {"b", "c"}, {"x"}]).sort := by
  have hcomponents := areComponents_knottedRules
  obtain ⟨hsorted, hcircle, hdefined, hequal⟩ := recursive_iff_circle knottedRules
  exact ⟨hcomponents, hsorted, hcircle, hdefined, hequal _ hcomponents⟩

end Railroad
