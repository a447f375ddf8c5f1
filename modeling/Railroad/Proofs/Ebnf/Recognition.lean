import Railroad.Proofs.Ebnf.Soundness
import Railroad.Proofs.Ebnf.Completeness
/-!
The reader recognizes the documented grammar.
-/
namespace Railroad.Ebnf

/-- A token sequence is read as a tree exactly if the documented grammar derives it, with brackets nested
at most `Metrics.maxDepth` deep, and the tree is the one of the derivation up to numbering. -/
theorem grammar_reads_iff_derives (tokens : List Token) (nextId : Nat) (tree : Node) :
    (∃ n c, grammar ⟨tokens, 0, 0, nextId⟩ = .ok n c ∧ n.unnumbered = tree) ↔
      Derivation.Grammar Metrics.maxDepth (tokens.map Token.word) tree := by
  constructor
  · rintro ⟨n, c, hread, rfl⟩
    exact grammar_sound hread
  · intro h
    obtain ⟨n, c, hread, htree, -⟩ := Derivation.Grammar.accepted (c := ⟨tokens, 0, 0, nextId⟩) h
    exact ⟨n, c, hread, htree⟩

end Railroad.Ebnf
