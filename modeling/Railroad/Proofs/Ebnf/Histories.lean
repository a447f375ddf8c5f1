import Mathlib.Data.List.Forall2
import Railroad.Proofs.Ebnf.AnyStart
import Railroad.Proofs.Ebnf.Whereabouts
/-!
A reader that is used for one text after another.

Nothing that an earlier text leaves behind shows in the outcome of a later one: a text that cannot be cut
into tokens leaves the reader alone, and any other sets it anew.  So what holds of the reader after one
text holds after each of them.
-/
namespace Railroad.Ebnf

/-- Reads texts one after another, and numbers the nodes of each text on from those before it. -/
def Reader.readAll (reader : Reader) (nextId : Nat) : List String → List Read
  | [] => []
  | text :: texts =>
      let r := reader.read nextId text
      r :: r.reader.readAll r.nextId texts

/-- On its way from one cursor a reader of a grammar comes to another, in front of a factor or where it has
just counted a bracket as open: what it reads there matters to the outcome. -/
def Passes (c d : Cursor) : Prop :=
  ∃ change : Reading Node → Reading Node, (∀ inside c', c' ≠ d → change inside c' = inside c') ∧
    grammarOf (expressionVia change Metrics.maxDepth) c ≠ grammar c

theorem depth_le_of_passes {tokens : List Token} {nextId : Nat} {d : Cursor}
    (h : Passes ⟨tokens, 0, 0, nextId⟩ d) : d.depth ≤ Metrics.maxDepth := by
  obtain ⟨change, hchange, hshows⟩ := h
  refine Decidable.byContradiction fun hdeep => ?_
  refine hshows (grammar_agree (fun inside c hc => hchange inside c ?_) tokens nextId).same.symm
  rintro rfl
  exact hdeep hc

/-- A factor behind an opening bracket is read with that bracket open. -/
example :
    let rest : List Token := [⟨.ident, "b", .start⟩, ⟨.punct, ")", .start⟩, ⟨.punct, ".", .start⟩]
    Passes ⟨⟨.ident, "a", .start⟩ :: ⟨.define, "=", .start⟩ :: ⟨.punct, "(", .start⟩ :: rest, 0, 0, 0⟩
      ⟨rest, 3, 1, 0⟩ := by
  intro rest
  refine ⟨fun inside c => if c = ⟨rest, 3, 1, 0⟩ then .error ⟨.tooDeep, none⟩ c else inside c,
    fun _ _ hc => if_neg hc, fun hsame => ?_⟩
  have hstops := congrArg (fun | .ok .. => false | .error .. => true) hsame
  revert hstops
  decide

/-- No bracket is open, and no more tokens have been read than there are. -/
structure Reader.Rests (reader : Reader) : Prop where
  depth : reader.depth = 0
  pos : reader.pos ≤ reader.tokens.length

theorem Reader.rests_new : Reader.new.Rests :=
  ⟨rfl, Nat.le_refl _⟩

/-- What the reading of a text comes to, whatever the reader was used for before. -/
structure Settled (text : String) (r : Read) : Prop where
  rests : r.reader.Rests
  /-- A tree is made from all the tokens of the text. -/
  all : ∀ n, r.result = .ok n →
    tokenize text = .ok r.reader.tokens ∧ r.reader.pos = r.reader.tokens.length
  /-- Tokens that the text is cut into are those of the reader, which has begun in front of the first of them
  with no bracket open, like a new one. -/
  run : ∀ tokens, tokenize text = .ok tokens →
    r.reader.tokens = tokens ∧ ∃ nextId, Reader.new.read nextId text = r
  /-- No more brackets have been open on the way than may be. -/
  deep : ∀ nextId d, Passes ⟨r.reader.tokens, 0, 0, nextId⟩ d → d.depth ≤ Metrics.maxDepth
  /-- A new reader comes to the same, up to the ids. -/
  new : r.result.map Node.unnumbered = (parse text).map Node.unnumbered

theorem Reader.tokens_read (reader : Reader) (nextId : Nat) {text : String} {tokens : List Token}
    (h : tokenize text = .ok tokens) : (reader.read nextId text).reader.tokens = tokens := by
  simp only [read, h]
  cases grammar ⟨tokens, 0, 0, nextId⟩ <;> rfl

/-- A text that can be cut is read as by a new reader. -/
theorem Reader.read_new (reader : Reader) (nextId : Nat) {text : String} {tokens : List Token}
    (h : tokenize text = .ok tokens) : Reader.new.read nextId text = reader.read nextId text := by
  simp only [read, h]

theorem Reader.Rests.settled {reader : Reader} (h : reader.Rests) (nextId : Nat) (text : String) :
    Settled text (reader.read nextId text) := by
  have hnew := map_unnumbered_read reader nextId text
  have hrun : ∀ tokens, tokenize text = .ok tokens →
      (reader.read nextId text).reader.tokens = tokens ∧
        ∃ nextId', Reader.new.read nextId' text = reader.read nextId text :=
    fun tokens htokens => ⟨reader.tokens_read nextId htokens, nextId, reader.read_new nextId htokens⟩
  have houtcome := reader.read_outcome nextId text
  generalize reader.read nextId text = r at hnew hrun houtcome ⊢
  cases houtcome with
  | uncut htokens => exact ⟨h, nofun, hrun, fun _ _ => depth_le_of_passes, hnew⟩
  | @tree tokens n c htokens hc hrest =>
      refine ⟨⟨hc.depth, hc.read⟩, fun _ _ => ⟨htokens, ?_⟩, hrun, fun _ _ => depth_le_of_passes, hnew⟩
      rw [hc.rest, List.drop_eq_nil_iff] at hrest
      exact Nat.le_antisymm hc.read hrest
  | stop htokens hc =>
      exact ⟨⟨hc.depth, hc.read⟩, nofun, hrun, fun _ _ => depth_le_of_passes, hnew⟩

theorem Reader.Rests.forall_settled {reader : Reader} (h : reader.Rests) (nextId : Nat)
    (texts : List String) : List.Forall₂ Settled texts (reader.readAll nextId texts) := by
  -- The reader that one text leaves is the one that the next text finds.
  induction texts generalizing reader nextId with
  | nil => exact .nil
  | cons text texts ih =>
      have hsettled := h.settled nextId text
      exact .cons hsettled (ih hsettled.rests _)

/-- A new reader that is used for any texts one after another, and may fail at any of them, is settled after
each. -/
theorem settled_of_history (nextId : Nat) (texts : List String) :
    List.Forall₂ Settled texts (Reader.new.readAll nextId texts) :=
  Reader.rests_new.forall_settled nextId texts

end Railroad.Ebnf
