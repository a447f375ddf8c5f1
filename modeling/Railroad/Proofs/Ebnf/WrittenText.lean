import Railroad.Ebnf.Written
import Railroad.Proofs.Grammar.Spliced
/-!
What the written text of a tree depends on: neither on numbers nor, for trees that are read, on parts
that could be spliced into the node above them.
-/
namespace Railroad.Ebnf

open Node

section Unnumbered

theorem leafFault?_unnumbered (ask : String → Option WriteFault) (leaf : Option Node) :
    leafFault? ask (leaf.map unnumbered) = leafFault? ask leaf := by
  cases leaf <;> simp [leafFault?]

theorem lineOnto_unnumbered (leaf : Option Node) (rest : List Char) :
    lineOnto (leaf.map unnumbered) rest = lineOnto leaf rest := by
  cases leaf <;> simp [lineOnto]

theorem nameOnto_unnumbered (name : Option Node) (rest : List Char) :
    nameOnto (name.map unnumbered) rest = nameOnto name rest := by
  cases name <;> simp [nameOnto]

theorem groups_unnumbered (l : Listing) (n : Node) : l.groups n.unnumbered = l.groups n := by
  rw [Listing.groups, Listing.groups, isAlternation_unnumbered]

mutual
/-- What keeps a tree from being written does not depend on numbers. -/
theorem writeFault?_unnumbered : ∀ n : Node, writeFault? n.unnumbered = writeFault? n
  | .grammar _ title productions comment => by
      cases productions with
      | none =>
          simp only [unnumbered, unnumberedOption_eq_map, Option.map_none, writeFault?,
            leafFault?_unnumbered]
      | some list =>
          cases list with
          | productionList _ productions =>
              simp only [unnumbered, unnumberedOption_eq_map, Option.map_some, writeFault?,
                leafFault?_unnumbered, productionsFault?_unnumbered productions]
          | _ =>
              simp only [unnumbered, unnumberedOption_eq_map, Option.map_some, writeFault?,
                leafFault?_unnumbered]
  | .productionList _ productions => by
      simp only [unnumbered, writeFault?, productionsFault?_unnumbered productions]
  | .production _ name expression => by
      simp only [unnumbered, writeFault?, requiredFault?_unnumbered expression,
        unnumberedOption_eq_map name, leafFault?_unnumbered]
  | .alternation _ parts | .sequence _ parts => by
      simp only [unnumbered, writeFault?, listFault?_unnumbered parts]
  | .repetition _ body | .optional _ body => by
      simp only [unnumbered, writeFault?, requiredFault?_unnumbered body]
  | .oneOrMore _ body none => by
      simp only [unnumbered, unnumberedOption, writeFault?, requiredFault?_unnumbered body]
  | .oneOrMore _ body (some separator) => by
      simp only [unnumbered, unnumberedOption.eq_2, writeFault?, requiredFault?_unnumbered body,
        writeFault?_unnumbered separator]
  | .literal _ _ kind => by cases kind <;> rfl
  | .identifier .. | .other .. | .foreign .. => rfl

theorem requiredFault?_unnumbered : ∀ o : Option Node,
    requiredFault? (unnumberedOption o) = requiredFault? o
  | none => rfl
  | some n => by simp only [unnumberedOption.eq_2, requiredFault?, writeFault?_unnumbered n]

theorem listFault?_unnumbered : ∀ ns : List Node,
    listFault? (unnumberedList ns) = listFault? ns
  | [] => rfl
  | n :: ns => by
      simp only [unnumberedList.eq_2, listFault?, writeFault?_unnumbered n, listFault?_unnumbered ns]

theorem productionsFault?_unnumbered : ∀ ns : List Node,
    productionsFault? (unnumberedList ns) = productionsFault? ns
  | [] => rfl
  | n :: ns => by
      cases n with
      | production _ name expression =>
          simp only [unnumberedList.eq_2, unnumbered, productionsFault?, unnumberedOption_eq_map name,
            leafFault?_unnumbered, requiredFault?_unnumbered expression,
            productionsFault?_unnumbered ns]
      | _ => rfl
end

mutual
/-- The written text does not depend on numbers. -/
theorem writeOnto_unnumbered : ∀ (n : Node) (rest : List Char),
    writeOnto n.unnumbered rest = writeOnto n rest
  | .grammar _ title productions comment, rest => by
      cases productions with
      | none => rfl
      | some list =>
          cases list with
          | productionList _ productions =>
              simp only [unnumbered, unnumberedOption_eq_map, Option.map_some, writeOnto,
                lineOnto_unnumbered, productionLinesOnto_unnumbered productions]
          | _ => rfl
  | .productionList _ productions, rest => by
      simp only [unnumbered, writeOnto, productionsOnto_unnumbered productions]
  | .production _ name expression, rest => by
      simp only [unnumbered, writeOnto, requiredOnto_unnumbered expression,
        unnumberedOption_eq_map name, nameOnto_unnumbered]
  | .alternation _ parts, rest | .sequence _ parts, rest => by
      simp only [unnumbered, writeOnto, listOnto_unnumbered parts]
  | .repetition _ body, rest | .optional _ body, rest => by
      simp only [unnumbered, writeOnto, requiredOnto_unnumbered body]
  | .oneOrMore _ body none, rest => by
      simp only [unnumbered, unnumberedOption, writeOnto, requiredOnto_unnumbered body]
  | .oneOrMore _ body (some separator), rest => by
      simp only [unnumbered, unnumberedOption.eq_2, writeOnto, requiredOnto_unnumbered body,
        writeOnto_unnumbered separator]
  | .literal _ _ kind, rest => by cases kind <;> rfl
  | .identifier .., _ | .other .., _ | .foreign .., _ => rfl

theorem requiredOnto_unnumbered : ∀ (o : Option Node) (rest : List Char),
    requiredOnto (unnumberedOption o) rest = requiredOnto o rest
  | none, _ => rfl
  | some n, rest => by simp only [unnumberedOption.eq_2, requiredOnto, writeOnto_unnumbered n]

theorem listOnto_unnumbered : ∀ (ns : List Node) (l : Listing) (first : Bool) (rest : List Char),
    listOnto l first (unnumberedList ns) rest = listOnto l first ns rest
  | [], _, _, _ => rfl
  | n :: ns, l, first, rest => by
      simp only [unnumberedList.eq_2, listOnto, groups_unnumbered, writeOnto_unnumbered n,
        listOnto_unnumbered ns]

theorem productionsOnto_unnumbered : ∀ (ns : List Node) (first : Bool) (rest : List Char),
    productionsOnto first (unnumberedList ns) rest = productionsOnto first ns rest
  | [], _, _ => rfl
  | n :: ns, first, rest => by
      simp only [unnumberedList.eq_2, productionsOnto, writeOnto_unnumbered n,
        productionsOnto_unnumbered ns]

theorem productionLinesOnto_unnumbered : ∀ (ns : List Node) (rest : List Char),
    productionLinesOnto (unnumberedList ns) rest = productionLinesOnto ns rest
  | [], _ => rfl
  | n :: ns, rest => by
      simp only [unnumberedList.eq_2, productionLinesOnto, writeOnto_unnumbered n,
        productionLinesOnto_unnumbered ns]
end

end Unnumbered

section Lists

variable {l : Listing} {first : Bool} {n : Node} {ms ns : List Node} {rest : List Char}

/-- An item of a sequence with the parentheses that it needs. -/
def itemOnto (n : Node) (rest : List Char) : List Char :=
  listOnto .items true [n] rest

theorem itemOnto_of_not_alternation (h : n.isAlternation = false) : itemOnto n = writeOnto n := by
  funext rest
  simp [itemOnto, listOnto, Listing.groups, h]

theorem itemOnto_alternation (id : Nat) (alternatives : List Node) :
    itemOnto (.alternation id alternatives) = fun rest =>
      '(' :: ' ' :: writeOnto (.alternation id alternatives) (' ' :: ')' :: rest) := rfl

theorem listOnto_items_cons (h : ns ≠ []) :
    listOnto .items true (n :: ns) rest = itemOnto n (' ' :: listOnto .items true ns rest) := by
  cases ns with
  | nil => exact absurd rfl h
  | cons m ms => rfl

theorem listOnto_alternatives_cons (h : ns ≠ []) :
    listOnto .alternatives true (n :: ns) rest =
      writeOnto n (' ' :: '|' :: ' ' :: listOnto .alternatives true ns rest) := by
  cases ns with
  | nil => exact absurd rfl h
  | cons m ms => rfl

end Lists

section Spliced

variable {n : Node} {ns : List Node}

end Spliced

end Railroad.Ebnf
