import Railroad.Proofs.Ebnf.Reading
import Railroad.Proofs.Runs
/-!
What is read of a text does not depend on what a reader has read before, nor on the id that the first node
gets: a tree comes out with the same structure, or the same error.

No step of reading looks at the next id, so two readings whose cursors differ in it alone take the same
steps.
-/
namespace Railroad.Ebnf

open Reading Node

/-- Cursors at the same place; the ids of their next nodes may differ. -/
structure Cursor.SamePlace (c c' : Cursor) : Prop where
  rest : c.rest = c'.rest
  read : c.read = c'.read
  depth : c.depth = c'.depth

/-- Readings that come to the same from the same place. -/
abbrev ReadsAlike {β γ : Type} (R : β → γ → Prop) (x : Reading β) (y : Reading γ) : Prop :=
  RunAlike Cursor.SamePlace R x y

/-- Nodes of one structure. -/
abbrev SameNode (n m : Node) : Prop :=
  n.unnumbered = m.unnumbered

abbrev SameNodes (ns ms : List Node) : Prop :=
  ns.map unnumbered = ms.map unnumbered

abbrev SameOption (o o' : Option Node) : Prop :=
  o.map unnumbered = o'.map unnumbered

end Railroad.Ebnf

namespace Railroad.RunAlike

open Ebnf Reading Node

variable {β γ : Type} {R : β → γ → Prop} {make make' : Nat → Node} {x y : Reading Node}

theorem peek : ReadsAlike Eq Reading.peek Reading.peek := by
  intro c c' h
  refine .ok ?_ h
  rw [h.rest]

theorem left : ReadsAlike Eq Reading.left Reading.left := by
  intro c c' h
  refine .ok ?_ h
  rw [h.rest]

theorem advance : ReadsAlike Eq Reading.advance Reading.advance :=
  .modify fun _ _ h => ⟨congrArg List.tail h.rest, congrArg (· + 1) h.read, h.depth⟩

theorem atSymbol (text : String) : ReadsAlike Eq (Ebnf.atSymbol text) (Ebnf.atSymbol text) := by
  refine .bind peek ?_
  rintro o _ rfl
  exact .pure rfl

theorem expected (what : Expectation) : ReadsAlike R (Reading.expected what) (Reading.expected what) := by
  refine .bind peek ?_
  rintro o _ rfl
  exact .throw _

theorem symbol (text : String) : ReadsAlike Eq (Ebnf.symbol text) (Ebnf.symbol text) := by
  refine .bind (atSymbol text) ?_
  rintro found _ rfl
  cases found with
  | true => exact advance
  | false => exact expected _

theorem node (h : ∀ i j, SameNode (make i) (make' j)) :
    ReadsAlike SameNode (Reading.node make) (Reading.node make') :=
  fun _ _ hplace => .ok (h _ _) ⟨hplace.rest, hplace.read, hplace.depth⟩

theorem nested (h : ReadsAlike SameNode x y) : ReadsAlike SameNode (Ebnf.nested x) (Ebnf.nested y) := by
  intro c c' hplace
  have hends := h { c with depth := c.depth + 1 } { c' with depth := c'.depth + 1 }
    ⟨hplace.rest, hplace.read, congrArg (· + 1) hplace.depth⟩
  rw [Ebnf.nested, Ebnf.nested]
  generalize x { c with depth := c.depth + 1 } = result at hends
  generalize y { c' with depth := c'.depth + 1 } = result' at hends
  cases hends with
  | ok hvalue hsame => exact .ok hvalue ⟨hsame.rest, hsame.read, congrArg (· - 1) hsame.depth⟩
  | error stop hsame => exact .error stop ⟨hsame.rest, hsame.read, congrArg (· - 1) hsame.depth⟩

/-- A list that is read item by item. -/
theorem cons {more more' : Reading (List Node)} (hone : ReadsAlike SameNode x y)
    (hmore : ReadsAlike SameNodes more more') :
    ReadsAlike SameNodes (do let n ← x; return n :: (← more))
      (do let n ← y; return n :: (← more')) := by
  refine .bind hone fun n m hn => .bind hmore fun ns ms hns => .pure ?_
  rw [SameNodes, List.map_cons, List.map_cons]
  exact congr (congrArg List.cons hn) hns

theorem present (h : ReadsAlike SameNode x y) : ReadsAlike SameOption (some <$> x) (some <$> y) := by
  rw [map_eq_pure_bind, map_eq_pure_bind]
  exact .bind h fun n m hn => .pure (congrArg some hn)

end Railroad.RunAlike

namespace Railroad.Ebnf

open Reading Node

section Expressions

variable {one expression : Reading Node}

theorem moreFactors_alike (hone : ReadsAlike SameNode one one) (bound : Nat) :
    ReadsAlike SameNodes (moreFactors one bound) (moreFactors one bound) := by
  induction bound with
  | zero => exact .pure rfl
  | succ bound ih =>
      refine .bind .peek ?_
      rintro o _ rfl
      cases o with
      | none => exact .pure rfl
      | some t =>
          dsimp only
          split
          · exact .bind .advance fun _ _ _ => .cons hone ih
          · split
            · exact .pure rfl
            · exact .cons hone ih

theorem gather_alike {make : Nat → List Node → Node}
    (hmake : ∀ i ns, (make i ns).unnumbered = make 0 (ns.map unnumbered)) {first first' : Node}
    {rest rest' : List Node} (hfirst : SameNode first first') (hrest : SameNodes rest rest') :
    ReadsAlike SameNode (gather make first rest) (gather make first' rest') := by
  cases rest with
  | nil =>
      obtain rfl := List.map_eq_nil_iff.mp hrest.symm
      exact .pure hfirst
  | cons m ms =>
      cases rest' with
      | nil => cases hrest
      | cons m' ms' =>
          change ReadsAlike SameNode (node (make · (first :: m :: ms)))
            (node (make · (first' :: m' :: ms')))
          have hall : SameNodes (first :: m :: ms) (first' :: m' :: ms') := by
            rw [SameNodes, List.map_cons, hfirst, hrest, ← List.map_cons]
          refine .node fun i j => ?_
          rw [SameNode, hmake, hall, ← hmake]

theorem term_alike (hone : ReadsAlike SameNode one one) :
    ReadsAlike SameNode (term one) (term one) := by
  rw [term_eq]
  refine .bind hone fun first first' hfirst => .bind .left ?_
  rintro bound _ rfl
  exact .bind (moreFactors_alike hone bound) fun _ _ hrest => gather_alike unnumbered_sequence hfirst hrest

theorem moreTerms_alike (hone : ReadsAlike SameNode one one) (bound : Nat) :
    ReadsAlike SameNodes (moreTerms one bound) (moreTerms one bound) := by
  induction bound with
  | zero => exact .pure rfl
  | succ bound ih =>
      refine .bind (.atSymbol _) ?_
      rintro bar _ rfl
      cases bar with
      | true => exact .bind .advance fun _ _ _ => .cons (term_alike hone) ih
      | false => exact .pure rfl

theorem alternatives_alike (hone : ReadsAlike SameNode one one) :
    ReadsAlike SameNode (alternatives one) (alternatives one) := by
  rw [alternatives_eq]
  refine .bind (term_alike hone) fun first first' hfirst => .bind .left ?_
  rintro bound _ rfl
  exact .bind (moreTerms_alike hone bound) fun _ _ hrest =>
    gather_alike unnumbered_alternation hfirst hrest

/-- A closing symbol, and the node that is made of what it closes. -/
theorem close_alike {make make' : Nat → Node} (text : String)
    (h : ∀ i j, SameNode (make i) (make' j)) :
    ReadsAlike SameNode (do symbol text; node make) (do symbol text; node make') :=
  .bind (.symbol text) fun _ _ _ => .node h

theorem bracketed_alike (hexpression : ReadsAlike SameNode expression expression) (t : Token) :
    ReadsAlike SameNode (bracketed expression t) (bracketed expression t) := by
  refine .bind hexpression fun body body' hbody => ?_
  have hbody' : Option.map unnumbered (some body) = Option.map unnumbered (some body') :=
    congrArg some hbody
  split
  · exact .bind (.symbol _) fun _ _ _ => .pure hbody
  · split
    · exact close_alike _ fun i j => by simp [SameNode, unnumbered, hbody']
    · split
      · exact close_alike _ fun i j => by simp [SameNode, unnumbered, hbody']
      · have hclose : ∀ o o', SameOption o o' → ReadsAlike SameNode
            (do symbol ">"; node (.oneOrMore · (some body) o))
            (do symbol ">"; node (.oneOrMore · (some body') o')) := by
          intro o o' ho
          refine close_alike _ fun i j => ?_
          rw [SameNode, unnumbered, unnumbered, unnumberedOption_eq_map, unnumberedOption_eq_map,
            unnumberedOption_eq_map, unnumberedOption_eq_map, hbody', ho]
        refine .bind (.atSymbol _) ?_
        rintro slash _ rfl
        cases slash with
        | true => exact .bind .advance fun _ _ _ => .bind (.present hexpression) hclose
        | false => exact .bind (R := SameOption) (.pure rfl) hclose

theorem factor_alike {bracket : Token → Reading Node}
    (hbracket : ∀ t, ReadsAlike SameNode (bracket t) (bracket t)) :
    ReadsAlike SameNode (factor bracket) (factor bracket) := by
  refine .bind .peek ?_
  rintro o _ rfl
  cases o with
  | none => exact .expected _
  | some t =>
      dsimp only
      split
      · exact .bind .advance fun _ _ _ => .node fun _ _ => rfl
      · exact .bind .advance fun _ _ _ => .node fun _ _ => rfl
      · exact .bind .advance fun _ _ _ => .node fun _ _ => rfl
      · split
        · exact hbracket t
        · exact .expected _

theorem expressionWithin_alike (k : Nat) :
    ReadsAlike SameNode (expressionWithin k) (expressionWithin k) := by
  induction k with
  | zero => exact alternatives_alike (factor_alike fun t => .throw _)
  | succ k ih =>
      refine alternatives_alike (factor_alike fun t => ?_)
      exact .bind .advance fun _ _ _ => .nested (bracketed_alike ih t)

end Expressions

theorem production_alike : ReadsAlike SameNode production production := by
  refine .bind .peek ?_
  rintro o _ rfl
  cases o with
  | none => exact .expected _
  | some t =>
      dsimp only
      split
      · refine .bind .advance fun _ _ _ => .bind .peek ?_
        rintro next _ rfl
        split
        · refine .bind .advance fun _ _ _ => .bind (expressionWithin_alike _) fun body body' hbody => ?_
          refine .bind (.atSymbol _) ?_
          rintro dot _ rfl
          refine .bind (.atSymbol _) ?_
          rintro semicolon _ rfl
          split
          · refine .bind .advance fun _ _ _ => .bind (.node fun _ _ => rfl) fun name name' hname => ?_
            refine .node fun i j => ?_
            rw [SameNode, unnumbered, unnumbered]
            simpa using ⟨hname, hbody⟩
          · exact .expected _
        · exact .expected _
      · exact .expected _

theorem productions_alike (inBlock : Bool) (bound : Nat) :
    ReadsAlike SameNodes (productions inBlock bound) (productions inBlock bound) := by
  induction bound with
  | zero => exact .pure rfl
  | succ bound ih =>
      refine .bind .peek ?_
      rintro o _ rfl
      cases o with
      | none => exact .pure rfl
      | some t =>
          dsimp only
          split
          · exact .pure rfl
          · exact .cons production_alike ih

theorem productionList_alike (inBlock : Bool) :
    ReadsAlike SameNode (productionList inBlock) (productionList inBlock) := by
  refine .bind .left ?_
  rintro bound _ rfl
  refine .bind (productions_alike inBlock bound) fun ps ps' hps => .node fun i j => ?_
  rw [SameNode, unnumbered, unnumbered]
  simpa using hps

theorem title_alike : ReadsAlike SameOption title title := by
  refine .bind .get fun c c' hplace => ?_
  rw [hplace.rest]
  split
  · split
    · exact .bind .advance fun _ _ _ => .present (.node fun _ _ => rfl)
    · exact .pure rfl
  · exact .pure rfl

theorem closingComment_alike : ReadsAlike SameOption closingComment closingComment := by
  refine .bind .peek ?_
  rintro o _ rfl
  cases o with
  | none => exact .pure rfl
  | some t =>
      dsimp only
      split
      · refine .bind (.node fun _ _ => rfl) fun comment comment' hcomment => ?_
        exact .bind .advance fun _ _ _ => .pure (congrArg some hcomment)
      · exact .pure rfl

theorem finish_alike {make make' : Nat → Node} (h : ∀ i j, SameNode (make i) (make' j)) :
    ReadsAlike SameNode (finish make) (finish make') := by
  rw [finish, finish]
  refine .bind .peek ?_
  rintro next _ rfl
  split
  · exact .bind (.expected (R := Eq) _) fun _ _ _ => .node h
  · exact .node h

theorem block_alike {heading heading' : Option Node} (h : SameOption heading heading') :
    ReadsAlike SameNode (block heading) (block heading') := by
  refine .bind .advance fun _ _ _ => .bind (productionList_alike true) fun list list' hlist => ?_
  refine .bind (.symbol _) fun _ _ _ => .bind closingComment_alike fun comment comment' hcomment => ?_
  refine finish_alike fun i j => ?_
  rw [SameNode, unnumbered, unnumbered]
  simpa using ⟨h, hlist, hcomment⟩

theorem grammar_alike : ReadsAlike SameNode grammar grammar := by
  rw [grammar_eq]
  refine .bind title_alike fun heading heading' hheading => .bind (.atSymbol _) ?_
  rintro brace _ rfl
  split
  · exact block_alike hheading
  · refine .bind (productionList_alike false) fun list list' hlist => .node fun i j => ?_
    rw [SameNode, unnumbered, unnumbered]
    simpa using hlist

/-- Every reader reads a text as a new one does that counts ids from zero, up to the ids. -/
theorem map_unnumbered_read (reader : Reader) (nextId : Nat) (text : String) :
    (reader.read nextId text).result.map unnumbered = (parse text).map unnumbered := by
  rw [parse, Reader.read, Reader.read]
  cases tokenize text with
  | error e => rfl
  | ok tokens =>
      have hends := grammar_alike ⟨tokens, 0, 0, nextId⟩ ⟨tokens, 0, 0, 0⟩ ⟨rfl, rfl, rfl⟩
      dsimp only
      generalize grammar ⟨tokens, 0, 0, nextId⟩ = result at hends ⊢
      generalize grammar ⟨tokens, 0, 0, 0⟩ = result' at hends ⊢
      cases hends with
      | ok hvalue => exact congrArg Except.ok hvalue
      | error => rfl

end Railroad.Ebnf
