import Railroad.Proofs.Reference.Growth
/-!
Which names of a grammar lead to which.  The search through the reference graph strikes off exactly those
names that some chain of references leads to, whatever cycles there are.
-/
namespace Railroad

open Relation

section Search

variable {table : Std.HashMap String (List String)} {unreached : Std.HashSet String}
  {waiting : List String} {name : String}

/-- A path out of the names that have been struck off runs through one that waits. -/
theorem not_reachable_of_notMem
    (hclosed : ∀ a ∉ unreached, ∀ b ∈ table.getD a [], b ∉ unreached ∨ b ∈ waiting)
    (hname : name ∈ unreached)
    (hwaiting : ∀ w ∈ waiting, ¬ ReflTransGen (fun a b => b ∈ table.getD a []) w name) :
    ∀ a ∉ unreached, ¬ ReflTransGen (fun a b => b ∈ table.getD a []) a name := by
  intro a ha hpath
  induction hpath using ReflTransGen.head_induction_on with
  | refl => exact ha hname
  | head hstep hpath ih =>
      rcases hclosed _ ha _ hstep with hb | hb
      · exact ih hb
      · exact hwaiting _ hb hpath

/-- If all that is mentioned by the names struck off so far is struck off too or waits, then a name stays
unreached exactly if it is unreached now and no name that waits leads to it. -/
theorem ReferenceGraph.mem_strikeOff_iff
    (hclosed : ∀ a ∉ unreached, ∀ b ∈ table.getD a [], b ∉ unreached ∨ b ∈ waiting) :
    name ∈ strikeOff table unreached waiting ↔ name ∈ unreached ∧
      ∀ w ∈ waiting, ¬ ReflTransGen (fun a b => b ∈ table.getD a []) w name := by
  induction unreached, waiting using strikeOff.induct table with
  | case1 unreached => simp [strikeOff]
  | case2 unreached next waiting hnext ih =>
      -- Once the name is struck off its targets wait, so that nothing is mentioned that got lost.
      have hclosed' : ∀ a ∉ unreached.erase next, ∀ b ∈ table.getD a [],
          b ∉ unreached.erase next ∨ b ∈ table.getD next [] ++ waiting := by
        intro a ha b hb
        rw [Std.HashSet.mem_erase, not_and_or] at ha
        rw [Std.HashSet.mem_erase, List.mem_append]
        by_cases heq : a = next
        · exact .inr (.inl (heq ▸ hb))
        · have ha : a ∉ unreached := ha.resolve_left (by simpa using Ne.symm heq)
          rcases hclosed a ha b hb with hb | hb
          · exact .inl fun h => hb h.2
          · rcases List.mem_cons.mp hb with rfl | hb
            · exact .inl fun h => by simp at h
            · exact .inr (.inr hb)
      rw [strikeOff, if_pos hnext, ih hclosed', Std.HashSet.mem_erase, List.forall_mem_append,
        List.forall_mem_cons]
      constructor
      · rintro ⟨⟨hne, hname⟩, htargets, hwaiting⟩
        refine ⟨hname, fun hpath => ?_, hwaiting⟩
        rcases hpath.cases_head with heq | ⟨b, hb, hpath⟩
        · simp [heq] at hne
        · exact htargets b hb hpath
      · rintro ⟨hname, hno, hwaiting⟩
        refine ⟨⟨?_, hname⟩, fun b hb hpath => hno (.head hb hpath), hwaiting⟩
        simpa using fun heq : next = name => hno (heq ▸ .refl)
  | case3 unreached next waiting hnext ih =>
      have hclosed' : ∀ a ∉ unreached, ∀ b ∈ table.getD a [], b ∉ unreached ∨ b ∈ waiting := by
        intro a ha b hb
        rcases hclosed a ha b hb with hb | hb
        · exact .inl hb
        · rcases List.mem_cons.mp hb with rfl | hb
          · exact .inl hnext
          · exact .inr hb
      rw [strikeOff, if_neg hnext, ih hclosed', List.forall_mem_cons]
      exact and_congr_right fun hname => ⟨fun hwaiting =>
        ⟨not_reachable_of_notMem hclosed' hname hwaiting next hnext, hwaiting⟩, And.right⟩

end Search

section Graphs

variable {g : ReferenceGraph} {rules : List Rule} {name : String}

namespace ReferenceGraph

theorem mem_nameSet : name ∈ g.nameSet ↔ name ∈ g.names.map (·.1) := by
  rw [nameSet, Std.HashSet.mem_ofList, List.contains_iff_mem]

/-- If none but names of the graph mention anything, a search from some names leaves the names that none of
them leads to. -/
theorem mem_strikeOff_nameSet_iff {waiting : List String}
    (hg : ∀ a b, g.Edge a b → a ∈ g.names.map (·.1)) :
    name ∈ strikeOff g.targetTable g.nameSet waiting ↔
      name ∈ g.nameSet ∧ ∀ w ∈ waiting, ¬ ReflTransGen g.Edge w name := by
  have hrel : (fun a b => b ∈ g.targetTable.getD a []) = g.Edge := by
    funext a b
    rw [targetTable_getD, Edge]
  rw [mem_strikeOff_iff, hrel]
  intro a ha b hb
  rw [targetTable_getD] at hb
  exact absurd (mem_nameSet.mpr (hg a b hb)) ha

/-- A search is asked for the names that a name of the graph leads to, and leaves out the name itself. -/
def FindsDescendants (g : ReferenceGraph)
    (descendants : ReferenceGraph → String → Std.HashSet String) : Prop :=
  ∀ source ∈ g.names.map (·.1), ∀ name,
    name ∈ descendants g source ↔ name ≠ source ∧ ReflTransGen g.Edge source name

theorem mem_names_of_edge {a b : String} (h : (grown rules).Edge a b) :
    a ∈ (grown rules).names.map (·.1) ∧ b ∈ (grown rules).names.map (·.1) := by
  rw [edge_grown] at h
  obtain ⟨r, hr, rfl, hmentions⟩ := h
  simp only [names_grown, mem_map_fst_names_ofRules]
  exact ⟨.inl (List.mem_map_of_mem hr), .inr ⟨r, hr, Rule.mem_mentions.mpr hmentions⟩⟩

/-- Striking names off is such a search. -/
theorem findsDescendants_grown (rules : List Rule) : (grown rules).FindsDescendants descendants := by
  intro source hsource name
  rw [descendants, Std.HashSet.mem_ofList, List.contains_iff_mem, List.mem_filter, Bool.and_eq_true,
    bne_iff_ne, Bool.not_eq_true', ← Bool.not_eq_true, ← Std.HashSet.mem_iff_contains,
    mem_strikeOff_nameSet_iff fun a b h => (mem_names_of_edge h).1, mem_nameSet,
    List.forall_mem_singleton]
  constructor
  · rintro ⟨hname, hne, hreached⟩
    by_contra hnone
    exact hreached ⟨hname, fun hleads => hnone ⟨hne, hleads⟩⟩
  · rintro ⟨hne, hleads⟩
    obtain ⟨_, -, hlast⟩ := TransGen.tail'_iff.mp
      ((reflTransGen_iff_eq_or_transGen.mp hleads).resolve_left hne)
    exact ⟨(mem_names_of_edge hlast).2, hne, fun hunreached => hunreached.2 hleads⟩

end ReferenceGraph

end Graphs

/-- Of rules that there are any of, with a start that is one of their names, the names that are reported
as unreachable are those of the rules that no chain of references leads to from the start, or from the
first name if there is no start.  Each is listed once, in the order of the first definitions.  This is so
whatever search is made, as long as it finds the names that a name of the grown graph leads to. -/
theorem unreachable_iff_no_chain (first : Rule) (rest : List Rule) {start : Option String}
    (hstart : ∀ name ∈ start, ∃ r ∈ first :: rest, r.name = name)
    {descendants : ReferenceGraph → String → Std.HashSet String}
    (hfinds : (ReferenceGraph.grown (first :: rest)).FindsDescendants descendants) :
    ∃ names, unreachableNamesBy descendants (first :: rest) start = .ok names ∧
      names.Pairwise (fun a b => ((first :: rest).map Rule.name).idxOf a <
        ((first :: rest).map Rule.name).idxOf b) ∧
      ∀ name, name ∈ names ↔ (∃ r ∈ first :: rest, r.name = name) ∧
        ¬ LeadsTo (first :: rest) (start.getD first.name) name := by
  have hdefined : definedNames (first :: rest) =
      first.name :: distinctFrom [first.name] (rest.map Rule.name) := by
    simp [definedNames, distinct, distinctFrom]
  have hstart : ∃ r ∈ first :: rest, r.name = start.getD first.name := by
    cases start with
    | none => exact ⟨first, List.mem_cons_self, rfl⟩
    | some name => exact hstart name rfl
  have hknown : (definedNames (first :: rest)).contains (start.getD first.name) = true := by
    rw [List.contains_iff_mem, mem_definedNames]
    exact hstart
  have hfound := hfinds (start.getD first.name) <| by
    rw [ReferenceGraph.names_grown, ReferenceGraph.mem_map_fst_names_ofRules, List.mem_map]
    exact .inl hstart
  refine ⟨(definedNames (first :: rest)).filter fun name =>
    !((descendants (ReferenceGraph.grown (first :: rest)) (start.getD first.name)).insert
      (start.getD first.name)).contains name, ?_, (pairwise_definedNames _).filter _, fun name => ?_⟩
  · rw [unreachableNamesBy, hdefined] at *
    simp only [hknown, if_true]
  · rw [List.mem_filter, ← mem_definedNames, Bool.not_eq_true', ← Bool.not_eq_true,
      ← Std.HashSet.mem_iff_contains, Std.HashSet.mem_insert, beq_iff_eq, hfound,
      ReferenceGraph.edge_grown]
    refine and_congr_right fun _ => not_congr ?_
    -- the search leaves out the start, which the empty chain leads to
    constructor
    · rintro (rfl | ⟨-, hleads⟩)
      · exact .refl
      · exact hleads
    · intro hleads
      by_cases heq : start.getD first.name = name
      · exact .inl heq
      · exact .inr ⟨Ne.symm heq, hleads⟩

/-- Rules that refer to one another in two circles, to a name that has no rule, and to one that has two. -/
def circlingRules : List Rule :=
  [⟨"b", some (.sequence 2 [.identifier 0 "c", .optional 4 (some (.identifier 1 "x"))])⟩,
    ⟨"c", some (.identifier 3 "b")⟩, ⟨"e", some (.identifier 5 "d")⟩,
    ⟨"d", some (.literal 6 "t" .quoted)⟩, ⟨"d", some (.identifier 7 "e")⟩]

theorem unreachable_iff_no_chain_circling :
    (∀ name ∈ some "e", ∃ r ∈ circlingRules, r.name = name) ∧
    (ReferenceGraph.grown circlingRules).FindsDescendants ReferenceGraph.descendants ∧
    ∃ names, unreachableNames circlingRules (some "e") = .ok names ∧
      names.Pairwise (fun a b => (circlingRules.map Rule.name).idxOf a <
        (circlingRules.map Rule.name).idxOf b) ∧
      ∀ name, name ∈ names ↔ (∃ r ∈ circlingRules, r.name = name) ∧
        ¬ LeadsTo circlingRules "e" name := by
  have hstart : ∀ name ∈ some "e", ∃ r ∈ circlingRules, r.name = name := by
    rintro _ ⟨rfl⟩
    exact ⟨⟨"e", some (.identifier 5 "d")⟩, by simp [circlingRules], rfl⟩
  have hfinds := ReferenceGraph.findsDescendants_grown circlingRules
  exact ⟨hstart, hfinds, unreachable_iff_no_chain _ _ hstart hfinds⟩

end Railroad
