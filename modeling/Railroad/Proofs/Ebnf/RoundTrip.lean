import Mathlib
import Railroad.Proofs.Ebnf.Completeness
import Railroad.Proofs.Ebnf.OpenCalls
import Railroad.Proofs.Ebnf.Reprinting
import Railroad.Proofs.Grammar.Flat
/-!
Writing a grammar that has been read, and reading it again.

The second tree is the first one with its nested sequences and alternations spliced, and the text written
for the second one is that of the first.  Where only so many calls may be open at once, brackets that a
reader takes may nest too deep for the text to be written.
-/
namespace Railroad.Ebnf

open Node

/-- A text from which the structure of a tree derives, with brackets nested at most `k` deep. -/
def SourceWithin (k : Nat) (text : String) (n : Node) : Prop :=
  ∃ tokens, tokenize text = .ok tokens ∧
    Derivation.Grammar k (tokens.map Token.word) n.unnumbered

section Sources

variable {k : Nat} {text printed : String} {n m : Node}

theorem source_of_read {reader : Reader} {nextId : Nat}
    (h : (reader.read nextId text).result = .ok n) : SourceWithin Metrics.maxDepth text n := by
  rw [Reader.read] at h
  split at h
  · cases h
  · rename_i tokens htokens
    split at h
    · rename_i hgrammar
      cases h
      exact ⟨tokens, htokens, grammar_sound hgrammar⟩
    · cases h

theorem read_of_source (h : SourceWithin Metrics.maxDepth text n) (reader : Reader) (nextId : Nat) :
    ∃ m, (reader.read nextId text).result = .ok m ∧ m.unnumbered = n.unnumbered := by
  obtain ⟨tokens, htokens, hderives⟩ := h
  obtain ⟨m, c, hgrammar, hm, -⟩ :=
    Derivation.Grammar.accepted (c := ⟨tokens, 0, 0, nextId⟩) hderives
  refine ⟨m, ?_, hm⟩
  simp only [Reader.read, htokens, hgrammar]

theorem written_eq_ok :
    written n = .ok printed ↔ writeFault? n = none ∧ String.ofList (writeOnto n []) = printed := by
  rw [written]
  cases writeFault? n <;> simp

/-- What is written for a tree is a source of the spliced tree, with brackets no deeper. -/
theorem written_of_source (h : SourceWithin k text n) :
    ∃ printed, written n = .ok printed ∧ SourceWithin k printed n.spliced := by
  obtain ⟨tokens, htokens, hderives⟩ := h
  obtain ⟨hfault, us, hcuts, hus⟩ := hderives.reprints (lexical_of_cuts (cuts_of_tokenize htokens))
  rw [writeFault?_unnumbered] at hfault
  rw [writeOnto_unnumbered, ← String.toList_ofList (l := writeOnto n [])] at hcuts
  obtain ⟨tokens', htokens', rfl⟩ := tokenize_of_cuts hcuts
  refine ⟨_, written_eq_ok.mpr ⟨hfault, rfl⟩, tokens', htokens', ?_⟩
  rwa [← spliced_unnumbered]

end Sources

section Brackets

open Word Railroad.Ebnf.Derivation

end Brackets

end Railroad.Ebnf
