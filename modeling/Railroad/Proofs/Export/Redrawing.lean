import Railroad.Proofs.Ebnf.RoundTrip
import Railroad.Proofs.Export.Alike
/-!
Drawing a grammar from the text that is written for it.
-/
namespace Railroad.Ebnf

open Node Generator

/-- A tree that has been read is written and read again as a tree of the same structure exactly if it is
flat.  Then the text that is written is drawn as the text that was read, in every format. -/
theorem read_written_eq_self_iff {reader : Reader} {nextId : Nat} {text : String} {g : Node}
    (h : (reader.read nextId text).result = .ok g) :
    ∃ printed, written g = .ok printed ∧
      (∀ (reader' : Reader) (nextId' : Nat), ∃ g', (reader'.read nextId' printed).result = .ok g' ∧
        (g'.unnumbered = g.unnumbered ↔ g.isFlat = true)) ∧
      (g.isFlat = true → ∀ (generator : Generator) (format : Format) (settings : List Setting)
        (traced : Bool), outcome (draw format settings printed traced generator) =
          outcome (draw format settings text traced generator)) := by
  have hsource := source_of_read h
  obtain ⟨printed, hprinted, hsource'⟩ := written_of_source hsource
  have hiff := (isGrammar_of_read h).spliced_eq_iff
  refine ⟨printed, hprinted, ?_, ?_⟩
  · intro reader' nextId'
    obtain ⟨g', hread, hg'⟩ := read_of_source hsource' reader' nextId'
    refine ⟨g', hread, ?_⟩
    rw [hg']
    exact hiff
  · intro hflat generator format settings traced
    have hprinted' : ∀ i, ∃ m, (Reader.new.read i printed).result = .ok m ∧
        m.unnumbered = g.unnumbered := by
      intro i
      obtain ⟨m, hread, hm⟩ := read_of_source hsource' Reader.new i
      exact ⟨m, hread, hm.trans (hiff.mpr hflat)⟩
    have halike := readGrammar_alike hprinted' (read_of_source hsource Reader.new)
    exact (draw_alike halike format settings traced).outcome_eq (.refl generator)

/-- A group as an item of a sequence. -/
def groupTree : Node :=
  .grammar 8 none (some (.productionList 7 [.production 6 (some (.identifier 5 "x"))
    (some (.sequence 4
      [.alternation 2 [.identifier 0 "b", .literal 1 "c" .quoted], .identifier 3 "d"]))])) none

theorem read_written_eq_self_iff_group :
    (Reader.new.read 0 "x = (b | 'c') d .").result = .ok groupTree ∧
      ∃ printed, written groupTree = .ok printed ∧
        (∀ (reader' : Reader) (nextId' : Nat), ∃ g', (reader'.read nextId' printed).result = .ok g' ∧
          (g'.unnumbered = groupTree.unnumbered ↔ groupTree.isFlat = true)) ∧
        (groupTree.isFlat = true → ∀ (generator : Generator) (format : Format)
          (settings : List Setting) (traced : Bool),
            outcome (draw format settings printed traced generator) =
              outcome (draw format settings "x = (b | 'c') d ." traced generator)) := by
  have hread : (Reader.new.read 0 "x = (b | 'c') d .").result = .ok groupTree := by cbv
  exact ⟨hread, read_written_eq_self_iff hread⟩

/-- An alternation as an alternative of another one. -/
def groupedText : String :=
  "a = (\"b\" | \"c\") | \"d\" ."

def groupedTree : Node :=
  .grammar 8 none (some (.productionList 7 [.production 6 (some (.identifier 5 "a"))
    (some (.alternation 4
      [.alternation 2 [.literal 0 "b" .quoted, .literal 1 "c" .quoted], .literal 3 "d" .quoted]))])) none

/-- What is written for the tree. -/
def ungroupedText : String :=
  "\x7b\n    a = \"b\" | \"c\" | \"d\" .\n\x7d\n"

def ungroupedTree : Node :=
  .grammar 7 none (some (.productionList 6 [.production 5 (some (.identifier 4 "a"))
    (some (.alternation 3
      [.literal 0 "b" .quoted, .literal 1 "c" .quoted, .literal 2 "d" .quoted]))])) none

/-- The text written for a tree does not always read as the same tree: brackets around the alternatives
of an alternation are lost. -/
theorem read_written_ne_self :
    ¬ ∀ (text : String) (g : Node), (Reader.new.read 0 text).result = .ok g →
      ∃ printed, written g = .ok printed ∧
        ∃ g', (Reader.new.read 0 printed).result = .ok g' ∧ g'.unnumbered = g.unnumbered := by
  intro hall
  have hread : (Reader.new.read 0 groupedText).result = .ok groupedTree := by cbv
  obtain ⟨printed, hprinted, g', hg', hsame⟩ := hall _ _ hread
  have hwritten : written groupedTree = .ok ungroupedText := by cbv
  rw [hwritten] at hprinted
  obtain rfl := Except.ok.inj hprinted
  have hreread : (Reader.new.read 0 ungroupedText).result = .ok ungroupedTree := by cbv
  rw [hreread] at hg'
  obtain rfl := Except.ok.inj hg'
  simp [ungroupedTree, groupedTree, unnumbered, unnumberedOption, unnumberedList] at hsame

end Railroad.Ebnf
