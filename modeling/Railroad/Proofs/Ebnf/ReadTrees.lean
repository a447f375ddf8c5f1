import Railroad.Proofs.Ebnf.Soundness
import Railroad.Proofs.Grammar.Shape
/-!
The shape of derived trees, and so of all trees that are read.
-/
namespace Railroad.Ebnf

open Railroad.Ebnf.Derivation Word Node

section Bundles

variable {n : Node} {ns : List Node}

theorem isExpression_bundle_sequence (h : ∀ m ∈ n :: ns, m.IsExpression) :
    (bundle (.sequence 0) (n :: ns)).IsExpression := by
  cases ns with
  | nil => exact h n List.mem_cons_self
  | cons m ms => exact .sequence 0 (by simp) h

theorem isExpression_bundle_alternation (h : ∀ m ∈ n :: ns, m.IsExpression) :
    (bundle (.alternation 0) (n :: ns)).IsExpression := by
  cases ns with
  | nil => exact h n List.mem_cons_self
  | cons m ms => exact .alternation 0 (by simp) h

theorem id_bundle {make : List Node → Node} (hmake : ∀ ms, (make ms).id = 0) (hn : n.id = 0) :
    (bundle make (n :: ns)).id = 0 := by
  cases ns with
  | nil => exact hn
  | cons m ms => exact hmake _

end Bundles

mutual
theorem Derivation.Factor.isExpression {k : Nat} {ws : List Word} {n : Node} (h : Factor k ws n) :
    n.IsExpression ∧ n.id = 0 := by
  match h with
  | .identifier text => exact ⟨.identifier 0 text, rfl⟩
  | .string text => exact ⟨.literal 0 _ (by decide), rfl⟩
  | .special text => exact ⟨.literal 0 _ (by decide), rfl⟩
  | .group body => exact body.isExpression
  | .optional body => exact ⟨.optional 0 body.isExpression.1, rfl⟩
  | .repetition body => exact ⟨.repetition 0 body.isExpression.1, rfl⟩
  | .loop body => exact ⟨.loop 0 body.isExpression.1, rfl⟩
  | .separatedLoop body separator =>
      exact ⟨.separatedLoop 0 body.isExpression.1 separator.isExpression.1, rfl⟩

theorem Derivation.Factors.areExpressions {k : Nat} {ws : List Word} {ns : List Node}
    (h : Factors k ws ns) : ∀ n ∈ ns, n.IsExpression := by
  match h with
  | .nil => simp
  | .next first rest | .comma first rest =>
      exact List.forall_mem_cons.mpr ⟨first.isExpression.1, rest.areExpressions⟩

theorem Derivation.Term.isExpression {k : Nat} {ws : List Word} {n : Node} (h : Term k ws n) :
    n.IsExpression ∧ n.id = 0 := by
  match h with
  | .intro first rest =>
      refine ⟨isExpression_bundle_sequence ?_, id_bundle (fun _ => rfl) first.isExpression.2⟩
      exact List.forall_mem_cons.mpr ⟨first.isExpression.1, rest.areExpressions⟩

theorem Derivation.Terms.areExpressions {k : Nat} {ws : List Word} {ns : List Node}
    (h : Terms k ws ns) : ∀ n ∈ ns, n.IsExpression := by
  match h with
  | .nil => simp
  | .bar first rest =>
      exact List.forall_mem_cons.mpr ⟨first.isExpression.1, rest.areExpressions⟩

theorem Derivation.Expression.isExpression {k : Nat} {ws : List Word} {n : Node}
    (h : Expression k ws n) : n.IsExpression ∧ n.id = 0 := by
  match h with
  | .intro first rest =>
      refine ⟨isExpression_bundle_alternation ?_, id_bundle (fun _ => rfl) first.isExpression.2⟩
      exact List.forall_mem_cons.mpr ⟨first.isExpression.1, rest.areExpressions⟩
end

theorem Derivation.Production.isProduction {k : Nat} {ws : List Word} {n : Node}
    (h : Production k ws n) : n.IsProduction := by
  cases h with
  | intro name _ _ body => exact .intro 0 0 name body.isExpression.1

theorem Derivation.Productions.areProductions {k : Nat} {ws : List Word} {ns : List Node}
    (h : Productions k ws ns) : ∀ n ∈ ns, n.IsProduction := by
  induction h with
  | nil => simp
  | next first _ ih => exact List.forall_mem_cons.mpr ⟨first.isProduction, ih⟩

theorem Derivation.Grammar.isGrammar {k : Nat} {ws : List Word} {n : Node} (h : Grammar k ws n) :
    n.IsGrammar := by
  cases h with
  | block heading rules closing =>
      refine .intro 0 0 ?_ rules.areProductions ?_
      · intro t ht
        cases heading with
        | missing => cases ht
        | present text => exact ⟨0, _, (Option.some.inj ht).symm⟩
      · intro t ht
        cases closing with
        | missing => cases ht
        | present text => exact ⟨0, _, (Option.some.inj ht).symm⟩
  | bare rules => exact .intro 0 0 (by simp) rules.areProductions (by simp)

/-- Every tree that is read has the shape of a grammar. -/
theorem isGrammar_of_grammar {n : Node} {c c' : Cursor} (h : grammar c = .ok n c') : n.IsGrammar :=
  (grammar_sound h).isGrammar.of_unnumbered

theorem isGrammar_of_read {reader : Reader} {nextId : Nat} {text : String} {n : Node}
    (h : (reader.read nextId text).result = .ok n) : n.IsGrammar := by
  rw [Reader.read] at h
  split at h
  · cases h
  · split at h
    · cases h
      exact isGrammar_of_grammar ‹_›
    · cases h

end Railroad.Ebnf
