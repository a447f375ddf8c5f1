import Mathlib.Order.MinMax
import Railroad.Ebnf.Printing
import Railroad.Proofs.Ebnf.Derivation
import Railroad.Proofs.Grammar.Spliced
/-!
How many calls are open at once while a tree is written: more, the deeper its brackets nest.

A tree that can be written at all is written exactly if there is room for so many calls.
-/
namespace Railroad.Ebnf

open Node

mutual
/-- The calls that are open at once while a node is written. -/
def calls : Node → Nat
  | .grammar _ _ productions _ => 2 + blockCalls productions
  | .productionList _ productions => 4 + rulesCalls productions
  | .production _ _ expression => 2 + max 1 (partCalls expression)
  | .alternation _ parts => 4 + partsCalls parts
  | .sequence _ parts => 2 + max (partsCalls parts) 1
  | .repetition _ body | .oneOrMore _ body none | .optional _ body => 2 + partCalls body
  | .oneOrMore _ body (some separator) => 2 + max (partCalls body) (calls separator)
  | .literal _ _ .special | .identifier .. | .foreign .. => 2
  | .literal .. | .other .. => 3

/-- The calls for a grammar. -/
def blockCalls : Option Node → Nat
  | some (.productionList _ productions) => 1 + max 1 (rulesCalls productions)
  | _ => 2

/-- The calls for a node that has to be there. -/
def partCalls : Option Node → Nat
  | none => 2
  | some n => calls n

/-- The most calls for any of some nodes. -/
def partsCalls : List Node → Nat
  | [] => 0
  | n :: ns => max (calls n) (partsCalls ns)

/-- The most calls for any of some rules. -/
def rulesCalls : List Node → Nat
  | [] => 0
  | .production _ _ expression :: ns => max (1 + max 1 (partCalls expression)) (rulesCalls ns)
  | _ :: ns => max 1 (rulesCalls ns)
end

@[simp] theorem partsCalls_nil : partsCalls [] = 0 := rfl

@[simp] theorem partsCalls_cons (n : Node) (ns : List Node) :
    partsCalls (n :: ns) = max (calls n) (partsCalls ns) := rfl

theorem partsCalls_append (ms ns : List Node) :
    partsCalls (ms ++ ns) = max (partsCalls ms) (partsCalls ns) := by
  induction ms with
  | nil => simp
  | cons m ms ih => rw [List.cons_append, partsCalls_cons, ih, partsCalls_cons, Nat.max_assoc]

/-- Room for some calls is all that is wanted. -/
def Takes (count : Nat) (fault? : Nat → Option PrintFault) : Prop :=
  ∀ room, fault? room = if count ≤ room then none else some .recursion

section Takes

variable {count count' : Nat} {fault? fault?' : Nat → Option PrintFault}

theorem Takes.none : Takes 0 fun _ => none :=
  fun _ => rfl

theorem Takes.opening (h : Takes count fault?) (k : Nat) :
    Takes (k + count) fun room => opening k room fault? := by
  intro room
  change (if k ≤ room then fault? (room - k) else some .recursion) = _
  by_cases hk : k ≤ room
  · simp only [if_pos hk, h (room - k), Nat.le_sub_iff_add_le' hk]
  · rw [if_neg hk, if_neg fun hall => hk (Nat.le_trans (Nat.le_add_right k count) hall)]

theorem Takes.or (h : Takes count fault?) (h' : Takes count' fault?') :
    Takes (max count count') fun room => (fault? room).or (fault?' room) := by
  intro room
  dsimp only
  rw [h room, h' room]
  by_cases hroom : count ≤ room
  · rw [if_pos hroom, Option.none_or]
    simp only [Nat.max_le, hroom, true_and]
  · rw [if_neg hroom, Option.some_or, if_neg fun hall => hroom (Nat.max_le.mp hall).1]

theorem takes_lastCall : Takes 1 lastCall :=
  Takes.none.opening 1

theorem takes_caption {leaf : Option Node} (h : leafFault? quoteFault? leaf = none) :
    ∃ count ≤ 1, Takes count (captionFault? · leaf) := by
  cases leaf with
  | none => exact ⟨0, Nat.zero_le 1, .none⟩
  | some n =>
      refine ⟨1, Nat.le_refl 1, fun room => ?_⟩
      obtain ⟨text, htext⟩ : ∃ text, n.text? = some text := by
        cases htext : n.text? with
        | none => simp [leafFault?, htext] at h
        | some text => exact ⟨text, rfl⟩
      have hquote : quoteFault? text = none := by simpa [leafFault?, htext] using h
      have hquoted : captionFault? room (some n) =
          Ebnf.opening 1 room fun _ => (quoteFault? text).map .text := by
        rw [captionFault?, htext]
      change captionFault? room (some n) = _
      rw [hquoted, hquote]
      exact takes_lastCall room

theorem takes_name {name : Option Node} (h : leafFault? (fun _ => Option.none) name = .none) :
    Takes 1 (nameFault? · name) := by
  intro room
  change Ebnf.opening 1 room (fun _ => (leafFault? (fun _ => Option.none) name).map .text) = _
  rw [h]
  exact takes_lastCall room

theorem takes_quote {text : String} (h : quoteFault? text = none) :
    Takes 3 fun room => Ebnf.opening 3 room fun _ => (quoteFault? text).map .text := by
  rw [h]
  exact Takes.none.opening 3

mutual
/-- A node that can be written takes room for its calls. -/
theorem takes_node : ∀ n : Node, writeFault? n = none → Takes (calls n) (nodeFault? · n)
  | .grammar number title productions comment, h =>
      (takes_block number title comment productions h).opening 2
  | .productionList _ productions, h => (takes_rules productions h).opening 4
  | .production _ name expression, h => by
      obtain ⟨hname, hexpression⟩ := Option.or_eq_none_iff.mp h
      exact ((takes_name hname).or (takes_part expression hexpression)).opening 2
  | .alternation _ parts, h => (takes_parts parts h).opening 4
  | .sequence _ parts, h => ((takes_parts parts h).or takes_lastCall).opening 2
  | .repetition _ body, h | .oneOrMore _ body none, h | .optional _ body, h =>
      (takes_part body h).opening 2
  | .oneOrMore _ body (some separator), h => by
      obtain ⟨hbody, hseparator⟩ := Option.or_eq_none_iff.mp h
      exact ((takes_part body hbody).or (takes_node separator hseparator)).opening 2
  | .literal _ text kind, h => by
      cases kind with
      | special => exact Takes.none.opening 2
      | quoted | title => exact takes_quote h
  | .other _ text, h => takes_quote h
  | .identifier .., _ => Takes.none.opening 2

theorem takes_block (number : Nat) (title comment : Option Node) : ∀ productions : Option Node,
    writeFault? (.grammar number title productions comment) = none →
      Takes (blockCalls productions) (blockFault? · title comment productions)
  | some (.productionList _ productions), h => by
      obtain ⟨htitle, hrest⟩ := Option.or_eq_none_iff.mp h
      obtain ⟨hrules, hcomment⟩ := Option.or_eq_none_iff.mp hrest
      obtain ⟨t, ht, htitle⟩ := takes_caption htitle
      obtain ⟨c, hc, hcomment⟩ := takes_caption hcomment
      have htakes := (htitle.or (takes_lastCall.or ((takes_rules productions hrules).or hcomment))).opening 1
      have hcount : max t (max 1 (max (rulesCalls productions) c)) = max 1 (rulesCalls productions) := by
        omega
      rwa [hcount] at htakes
  | none, h | some (.grammar ..), h | some (.production ..), h | some (.alternation ..), h
  | some (.sequence ..), h | some (.repetition ..), h | some (.oneOrMore ..), h
  | some (.optional ..), h | some (.literal ..), h | some (.identifier ..), h | some (.other ..), h
  | some (.foreign ..), h => by
      obtain ⟨-, hmisplaced⟩ := Option.or_eq_none_iff.mp h
      cases hmisplaced

theorem takes_part : ∀ o : Option Node, requiredFault? o = none →
    Takes (partCalls o) (partFault? · o)
  | some n, h => takes_node n h

theorem takes_parts : ∀ ns : List Node, listFault? ns = none →
    Takes (partsCalls ns) (partsFault? · ns)
  | [], _ => .none
  | n :: ns, h => by
      obtain ⟨hn, hns⟩ := Option.or_eq_none_iff.mp h
      exact (takes_node n hn).or (takes_parts ns hns)

theorem takes_rules : ∀ ns : List Node, productionsFault? ns = none →
    Takes (rulesCalls ns) (rulesFault? · ns)
  | [], _ => .none
  | .production _ name expression :: ns, h => by
      obtain ⟨hname, hrest⟩ := Option.or_eq_none_iff.mp h
      obtain ⟨hexpression, hns⟩ := Option.or_eq_none_iff.mp hrest
      exact (((takes_name hname).or (takes_part expression hexpression)).opening 1).or
        (takes_rules ns hns)
end

end Takes

section Prints

variable {n : Node} {room : Nat}

end Prints

section Numbers

mutual
/-- Numbers make no calls. -/
theorem calls_unnumbered : ∀ n : Node, calls n.unnumbered = calls n
  | .grammar _ _ productions _ => congrArg (2 + ·) (blockCalls_unnumbered productions)
  | .productionList _ productions => congrArg (4 + ·) (rulesCalls_unnumbered productions)
  | .production _ _ expression => congrArg (2 + max 1 ·) (partCalls_unnumbered expression)
  | .alternation _ parts => congrArg (4 + ·) (partsCalls_unnumbered parts)
  | .sequence _ parts => congrArg (2 + max · 1) (partsCalls_unnumbered parts)
  | .repetition _ body | .oneOrMore _ body none | .optional _ body =>
      congrArg (2 + ·) (partCalls_unnumbered body)
  | .oneOrMore _ body (some separator) =>
      congrArg₂ (2 + max · ·) (partCalls_unnumbered body) (calls_unnumbered separator)
  | .literal _ _ kind => by cases kind <;> rfl
  | .identifier .. | .other .. | .foreign .. => rfl

theorem blockCalls_unnumbered : ∀ o : Option Node, blockCalls (unnumberedOption o) = blockCalls o
  | some (.productionList _ productions) => congrArg (1 + max 1 ·) (rulesCalls_unnumbered productions)
  | none | some (.grammar ..) | some (.production ..) | some (.alternation ..) | some (.sequence ..)
  | some (.repetition ..) | some (.oneOrMore ..) | some (.optional ..) | some (.literal ..)
  | some (.identifier ..) | some (.other ..) | some (.foreign ..) => rfl

theorem partCalls_unnumbered : ∀ o : Option Node, partCalls (unnumberedOption o) = partCalls o
  | none => rfl
  | some n => calls_unnumbered n

theorem partsCalls_unnumbered : ∀ ns : List Node, partsCalls (unnumberedList ns) = partsCalls ns
  | [] => rfl
  | n :: ns => congrArg₂ max (calls_unnumbered n) (partsCalls_unnumbered ns)

theorem rulesCalls_unnumbered : ∀ ns : List Node, rulesCalls (unnumberedList ns) = rulesCalls ns
  | [] => rfl
  | .production _ _ expression :: ns =>
      congrArg₂ (fun c d => max (1 + max 1 c) d) (partCalls_unnumbered expression) (rulesCalls_unnumbered ns)
  | .grammar .. :: ns | .productionList .. :: ns | .alternation .. :: ns | .sequence .. :: ns
  | .repetition .. :: ns | .oneOrMore .. :: ns | .optional .. :: ns | .literal .. :: ns
  | .identifier .. :: ns | .other .. :: ns | .foreign .. :: ns =>
      congrArg (max 1 ·) (rulesCalls_unnumbered ns)
end

end Numbers

section Splicing

variable {ns : List Node} {spread : Node → List Node}

/-- Parts that are put in the place of their node take no more calls. -/
theorem partsCalls_flatMap_le (h : ∀ n, partsCalls (spread n) ≤ calls n) :
    partsCalls (ns.flatMap spread) ≤ partsCalls ns := by
  induction ns with
  | nil => exact Nat.le_refl 0
  | cons n ns ih =>
      rw [List.flatMap_cons, partsCalls_append, partsCalls_cons]
      exact max_le_max (h n) ih

theorem partsCalls_alternativesOf_le (n : Node) : partsCalls (alternativesOf n) ≤ calls n := by
  cases n with
  | alternation _ parts => exact Nat.le_add_left (partsCalls parts) 4
  | _ => exact Nat.max_le.mpr ⟨Nat.le_refl _, Nat.zero_le _⟩

theorem partsCalls_itemsOf_le (n : Node) : partsCalls (itemsOf n) ≤ calls n := by
  cases n with
  | sequence _ parts =>
      exact Nat.le_trans (Nat.le_max_left (partsCalls parts) 1) (Nat.le_add_left _ 2)
  | _ => exact Nat.max_le.mpr ⟨Nat.le_refl _, Nat.zero_le _⟩

mutual
/-- A spliced tree takes no more calls. -/
theorem calls_spliced_le : ∀ n : Node, calls n.spliced ≤ calls n
  | .grammar _ _ productions _ => Nat.add_le_add_left (blockCalls_spliced_le productions) 2
  | .productionList _ productions => Nat.add_le_add_left (rulesCalls_spliced_le productions) 4
  | .production _ _ expression =>
      Nat.add_le_add_left (max_le_max_left 1 (partCalls_spliced_le expression)) 2
  | .alternation _ parts =>
      Nat.add_le_add_left ((partsCalls_flatMap_le partsCalls_alternativesOf_le).trans
        (partsCalls_spliced_le parts)) 4
  | .sequence _ parts =>
      Nat.add_le_add_left (max_le_max_right 1 ((partsCalls_flatMap_le partsCalls_itemsOf_le).trans
        (partsCalls_spliced_le parts))) 2
  | .repetition _ body | .oneOrMore _ body none | .optional _ body =>
      Nat.add_le_add_left (partCalls_spliced_le body) 2
  | .oneOrMore _ body (some separator) =>
      Nat.add_le_add_left (max_le_max (partCalls_spliced_le body) (calls_spliced_le separator)) 2
  | .literal _ _ kind => by cases kind <;> exact Nat.le_refl _
  | .identifier .. | .other .. | .foreign .. => Nat.le_refl _

theorem blockCalls_spliced_le : ∀ o : Option Node, blockCalls (splicedOption o) ≤ blockCalls o
  | some (.productionList _ productions) =>
      Nat.add_le_add_left (max_le_max_left 1 (rulesCalls_spliced_le productions)) 1
  | none | some (.grammar ..) | some (.production ..) | some (.alternation ..) | some (.sequence ..)
  | some (.repetition ..) | some (.oneOrMore ..) | some (.optional ..) | some (.literal ..)
  | some (.identifier ..) | some (.other ..) | some (.foreign ..) => Nat.le_refl _

theorem partCalls_spliced_le : ∀ o : Option Node, partCalls (splicedOption o) ≤ partCalls o
  | none => Nat.le_refl _
  | some n => calls_spliced_le n

theorem partsCalls_spliced_le : ∀ ns : List Node, partsCalls (splicedList ns) ≤ partsCalls ns
  | [] => Nat.le_refl _
  | n :: ns => max_le_max (calls_spliced_le n) (partsCalls_spliced_le ns)

theorem rulesCalls_spliced_le : ∀ ns : List Node, rulesCalls (splicedList ns) ≤ rulesCalls ns
  | [] => Nat.le_refl _
  | .production _ _ expression :: ns =>
      max_le_max (Nat.add_le_add_left (max_le_max_left 1 (partCalls_spliced_le expression)) 1)
        (rulesCalls_spliced_le ns)
  | .grammar .. :: ns | .productionList .. :: ns | .alternation .. :: ns | .sequence .. :: ns
  | .repetition .. :: ns | .oneOrMore .. :: ns | .optional .. :: ns | .literal .. :: ns
  | .identifier .. :: ns | .other .. :: ns | .foreign .. :: ns =>
      max_le_max_left 1 (rulesCalls_spliced_le ns)
end

end Splicing

section Nesting

open Railroad.Ebnf.Derivation

/-- One node stands for itself, and more than one take the calls of what is made of them. -/
theorem calls_bundle_le {make : List Node → Node} {n : Node} {ns : List Node} {count : Nat}
    (hn : calls n ≤ count) (hmake : calls (make (n :: ns)) ≤ count) :
    calls (bundle make (n :: ns)) ≤ count := by
  cases ns with
  | nil => exact hn
  | cons m ms => exact hmake

mutual
/-- Each bracket takes eight calls at most, those for the alternation and the sequence in it among them. -/
theorem Derivation.Factor.calls_le {k : Nat} {ws : List Word} {n : Node} (h : Factor k ws n) :
    calls n ≤ 8 * k + 3 := by
  match h with
  | .identifier _ | .special _ => exact Nat.le_add_left 2 (8 * _ + 1)
  | .string _ => exact Nat.le_add_left 3 (8 * _)
  | .group body => exact Nat.le_trans body.calls_le (by omega)
  | .optional body | .repetition body | .loop body =>
      have hbody := body.calls_le
      change 2 + calls _ ≤ _
      omega
  | .separatedLoop body separator =>
      have hbody := body.calls_le
      have hseparator := separator.calls_le
      change 2 + max (calls _) (calls _) ≤ _
      omega

theorem Derivation.Factors.calls_le {k : Nat} {ws : List Word} {ns : List Node}
    (h : Factors k ws ns) : partsCalls ns ≤ 8 * k + 3 := by
  match h with
  | .nil => exact Nat.zero_le _
  | .next first rest | .comma first rest => exact Nat.max_le.mpr ⟨first.calls_le, rest.calls_le⟩

theorem Derivation.Term.calls_le {k : Nat} {ws : List Word} {n : Node} (h : Term k ws n) :
    calls n ≤ 8 * k + 5 := by
  match h with
  | .intro first rest =>
      have hfirst := first.calls_le
      have hrest := rest.calls_le
      refine calls_bundle_le (by omega) ?_
      change 2 + max (max (calls _) (partsCalls _)) 1 ≤ _
      omega

theorem Derivation.Terms.calls_le {k : Nat} {ws : List Word} {ns : List Node}
    (h : Terms k ws ns) : partsCalls ns ≤ 8 * k + 5 := by
  match h with
  | .nil => exact Nat.zero_le _
  | .bar first rest => exact Nat.max_le.mpr ⟨first.calls_le, rest.calls_le⟩

theorem Derivation.Expression.calls_le {k : Nat} {ws : List Word} {n : Node}
    (h : Expression k ws n) : calls n ≤ 8 * k + 9 := by
  match h with
  | .intro first rest =>
      have hfirst := first.calls_le
      have hrest := rest.calls_le
      refine calls_bundle_le (by omega) ?_
      change 4 + max (calls _) (partsCalls _) ≤ _
      omega
end

theorem Derivation.Productions.calls_le {k : Nat} {ws : List Word} {ns : List Node}
    (h : Productions k ws ns) : rulesCalls ns ≤ 8 * k + 10 := by
  induction h with
  | nil => exact Nat.zero_le _
  | next first _ ih =>
      cases first with
      | intro name sign stop body hstop =>
          have hbody := body.calls_le
          change max (1 + max 1 (calls _)) (rulesCalls _) ≤ _
          omega

end Nesting

end Railroad.Ebnf
