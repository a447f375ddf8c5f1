import Mathlib.Data.List.Nodup
import Mathlib.Logic.Function.Basic
import Railroad.Layout.Context
/-!
The saved states of a context.

Whatever is done to a context, saving and restoring nest: a state that is restored is the one that was live
when it was saved, and nothing that was written since shows in it.  This is so too if states are not values
but cells that are written in place, because no cell is live and saved at once.
-/
namespace Railroad

/-- A value that is written to one field of the live state. -/
inductive FieldWrite (α : Type) where
  | direction (d : Direction)
  | useLeft (b : Bool)
  | useRight (b : Bool)
  | left (x : α)
  | right (x : α)
  | top (y : α)
  | bottom (y : α)

/-- What can be done to a context. -/
inductive ContextStep (α : Type) where
  | write (w : FieldWrite α)
  | reverse
  | clearRails
  | translateRails (origin : Point α)
  | push
  | pop

variable {α : Type}

def FieldWrite.apply (s : Surroundings α) : FieldWrite α → Surroundings α
  | direction d => { s with direction := d }
  | useLeft b => { s with useLeft := b }
  | useRight b => { s with useRight := b }
  | left x => { s with left := x }
  | right x => { s with right := x }
  | top y => { s with top := y }
  | bottom y => { s with bottom := y }

namespace ContextStep

/-- Saving and restoring; all else bears on the live state alone. -/
def isBracket : ContextStep α → Bool
  | push | pop => true
  | write _ | reverse | clearRails | translateRails _ => false

/-- The number of states saved and not yet restored, after a step. -/
def openAfter (n : Nat) : ContextStep α → Nat
  | push => n + 1
  | pop => n - 1
  | write _ | reverse | clearRails | translateRails _ => n

/-- The number of states that are saved in some steps and not restored in them. -/
def unmatched (steps : List (ContextStep α)) : Nat :=
  steps.foldl openAfter 0

/-- Steps in which every state that is saved is restored, and no other one is. -/
inductive Balanced : List (ContextStep α) → Prop
  | nil : Balanced []
  | change {s : ContextStep α} {steps : List (ContextStep α)} :
      s.isBracket = false → Balanced steps → Balanced (s :: steps)
  | nested {inner steps : List (ContextStep α)} :
      Balanced inner → Balanced steps → Balanced (push :: inner ++ pop :: steps)

/-- Some steps end with a state that is saved behind the first of them and not restored, and others in
which all is restored. -/
def EndsOpen (steps before inner : List (ContextStep α)) : Prop :=
  steps = before ++ push :: inner ∧ Balanced inner

end ContextStep

namespace Context

variable [Scalar α]

/-- Takes a step, if it can be taken. -/
def take (c : Context α) : ContextStep α → Except LayoutFault (Context α)
  | .write w => .ok (c.withLive (w.apply c.live))
  | .reverse => .ok c.reverse
  | .clearRails => .ok c.clearRails
  | .translateRails origin => .ok (c.translateRails origin)
  | .push => .ok c.push
  | .pop => c.pop

/-- The context after a step; one that cannot be taken leaves it. -/
def after (c : Context α) (s : ContextStep α) : Context α :=
  match c.take s with
  | .ok c' => c'
  | .error _ => c

def afterAll (c : Context α) (steps : List (ContextStep α)) : Context α :=
  steps.foldl after c

end Context

open ContextStep

section Nesting

variable [Scalar α] {s : ContextStep α} {steps inner before : List (ContextStep α)}

theorem Context.saved_after (c : Context α) (hs : s.isBracket = false) : (c.after s).saved = c.saved := by
  cases s with
  | push => cases hs
  | pop => cases hs
  | write | reverse | clearRails | translateRails => rfl

theorem Context.depth_after (c : Context α) (s : ContextStep α) :
    (c.after s).depth = openAfter c.depth s := by
  rcases c with ⟨live, saved⟩
  cases s with
  | pop => cases saved <;> rfl
  | push | write | reverse | clearRails | translateRails => rfl

theorem Context.depth_afterAll (c : Context α) (steps : List (ContextStep α)) :
    (c.afterAll steps).depth = steps.foldl openAfter c.depth := by
  induction steps generalizing c with
  | nil => rfl
  | cons s steps ih =>
      rw [List.foldl_cons, ← c.depth_after s]
      exact ih (c.after s)

theorem Context.afterAll_append (c : Context α) (steps steps' : List (ContextStep α)) :
    c.afterAll (steps ++ steps') = (c.afterAll steps).afterAll steps' :=
  List.foldl_append

/-- Balanced steps find the saved states and leave them. -/
theorem ContextStep.Balanced.saved (h : Balanced steps) (c : Context α) :
    (c.afterAll steps).saved = c.saved := by
  induction h generalizing c with
  | nil => rfl
  | change hs _ ih => exact (ih (c.after _)).trans (c.saved_after hs)
  | @nested inner steps _ _ hinner hsteps =>
      have hsaved : (c.push.afterAll inner).saved = c.live :: c.saved := hinner c.push
      have hback : (c.push.afterAll inner).after .pop = c := by
        rw [Context.after, Context.take, Context.pop, hsaved]
      show (c.push.afterAll (inner ++ pop :: steps)).saved = c.saved
      rw [Context.afterAll_append]
      show (((c.push.afterAll inner).after .pop).afterAll steps).saved = c.saved
      rw [hback]
      exact hsteps c

theorem ContextStep.EndsOpen.saved (h : EndsOpen steps before inner) (c : Context α) :
    (c.afterAll steps).saved = (c.afterAll before).live :: (c.afterAll before).saved := by
  rcases h with ⟨rfl, hinner⟩
  rw [Context.afterAll_append]
  exact hinner.saved (c.afterAll before).push

theorem ContextStep.EndsOpen.pop_eq (h : EndsOpen steps before inner) (c : Context α) :
    (c.afterAll steps).pop = .ok (c.afterAll before) := by
  rw [Context.pop, h.saved c]

/-- In balanced steps no state is saved that is not restored. -/
theorem ContextStep.not_balanced_of_endsOpen (h : EndsOpen steps before inner) : ¬ Balanced steps := by
  intro hbalanced
  have hsaved := h.saved (Context.new .none : Context α)
  rw [hbalanced.saved] at hsaved
  cases hsaved

end Nesting

namespace ContextStep

section Matching

variable {s : ContextStep α} {steps steps' inner inner' before before' : List (ContextStep α)}

theorem Balanced.append (h : Balanced steps) (h' : Balanced steps') : Balanced (steps ++ steps') := by
  induction h with
  | nil => exact h'
  | change hs _ ih => exact .change hs ih
  | nested hinner _ _ ih =>
      rw [List.append_assoc]
      exact .nested hinner ih

theorem openAfter_of_not_isBracket (hs : s.isBracket = false) (n : Nat) : openAfter n s = n := by
  cases s with
  | push => cases hs
  | pop => cases hs
  | write | reverse | clearRails | translateRails => rfl

theorem Balanced.foldl_openAfter (h : Balanced steps) (n : Nat) : steps.foldl openAfter n = n := by
  induction h generalizing n with
  | nil => rfl
  | change hs _ ih => rw [List.foldl_cons, openAfter_of_not_isBracket hs, ih]
  | nested _ _ hinner hsteps =>
      rw [List.cons_append, List.foldl_cons, List.foldl_append, hinner, List.foldl_cons]
      exact hsteps n

theorem unmatched_concat (steps : List (ContextStep α)) (s : ContextStep α) :
    unmatched (steps ++ [s]) = openAfter (unmatched steps) s :=
  List.foldl_concat ..

theorem EndsOpen.unmatched_eq (h : EndsOpen steps before inner) :
    unmatched steps = unmatched before + 1 := by
  rcases h with ⟨rfl, hinner⟩
  rw [unmatched, List.foldl_append, List.foldl_cons, hinner.foldl_openAfter]
  rfl

/-- If not all states that were saved have been restored, then one of them is the next. -/
theorem exists_endsOpen (steps : List (ContextStep α)) (h : 0 < unmatched steps) :
    ∃ before inner, EndsOpen steps before inner := by
  -- By length, because a state that is restored gives way to one that was saved before it.
  induction hlength : steps.length using Nat.strongRecOn generalizing steps with
  | _ n ih =>
      subst hlength
      rcases steps.eq_nil_or_concat with rfl | ⟨init, s, rfl⟩
      · exact absurd h (Nat.lt_irrefl 0)
      rw [List.concat_eq_append] at h ih ⊢
      rw [unmatched_concat] at h
      have hlt : init.length < (init ++ [s]).length := by simp
      by_cases hs : s.isBracket = false
      · rw [openAfter_of_not_isBracket hs] at h
        rcases ih _ hlt init h rfl with ⟨before, inner, rfl, hinner⟩
        refine ⟨before, inner ++ [s], by simp, ?_⟩
        exact hinner.append (.change hs .nil)
      cases s with
      | push => exact ⟨init, [], rfl, .nil⟩
      | pop =>
          have hinit : 1 < unmatched init := Nat.lt_of_sub_pos h
          rcases ih _ hlt init (by omega) rfl with ⟨before, inner, hopen⟩
          have hcount := hopen.unmatched_eq
          rcases hopen with ⟨rfl, hinner⟩
          have hlt' : before.length < (before ++ push :: inner ++ [pop]).length := by simp
          rcases ih _ hlt' before (by omega) rfl with ⟨before', inner', rfl, hinner'⟩
          refine ⟨before', inner' ++ (push :: inner ++ [pop]), by simp, ?_⟩
          exact hinner'.append (.nested hinner .nil)
      | write | reverse | clearRails | translateRails => exact absurd rfl hs

theorem eq_nil_of_push_eq [Scalar α] (hinner : Balanced inner) (hinner' : Balanced inner')
    (h : push :: inner = before ++ push :: inner') : before = [] := by
  cases before with
  | nil => rfl
  | cons s before =>
      rw [List.cons_append, List.cons.injEq] at h
      exact absurd hinner (not_balanced_of_endsOpen ⟨h.2, hinner'⟩)

/-- The state that is next to be restored is told by the steps. -/
theorem EndsOpen.unique [Scalar α] (h : EndsOpen steps before inner) (h' : EndsOpen steps before' inner') :
    before = before' ∧ inner = inner' := by
  rcases h with ⟨rfl, hinner⟩
  rcases h' with ⟨heq, hinner'⟩
  rcases List.append_eq_append_iff.mp heq with ⟨rest, rfl, hrest⟩ | ⟨rest, rfl, hrest⟩
  · obtain rfl := eq_nil_of_push_eq hinner hinner' hrest
    exact ⟨by simp, by simpa using hrest⟩
  · obtain rfl := eq_nil_of_push_eq hinner' hinner hrest
    exact ⟨by simp, by simpa using hrest.symm⟩

end Matching

end ContextStep

section Cells

/-- A context in which states are kept in numbered cells and written in place. -/
structure CellContext (α : Type) where
  cells : Nat → Surroundings α
  /-- From here on the cells have not been used. -/
  next : Nat
  /-- The cell of the live state. -/
  live : Nat
  /-- The cells of the saved states, the last saved first. -/
  saved : List Nat

namespace CellContext

variable [Scalar α]

def new (direction : Direction) : CellContext α :=
  ⟨fun _ => (Context.new direction).live, 1, 0, []⟩

/-- Saving copies the live state to a cell of its own, restoring makes a saved cell the live one, and all
else is written to the live cell. -/
def after (c : CellContext α) : ContextStep α → CellContext α
  | .push => ⟨Function.update c.cells c.next (c.cells c.live), c.next + 1, c.live, c.next :: c.saved⟩
  | .pop =>
      match c.saved with
      | [] => c
      | i :: saved => { c with live := i, saved }
  | s => { c with cells := Function.update c.cells c.live (((⟨c.cells c.live, []⟩ : Context α).after s).live) }

def afterAll (c : CellContext α) (steps : List (ContextStep α)) : CellContext α :=
  steps.foldl after c

omit [Scalar α] in
/-- The states as values. -/
def view (c : CellContext α) : Context α :=
  ⟨c.cells c.live, c.saved.map c.cells⟩

/-- No cell serves two states, and those from `next` on serve none. -/
structure Apart (c : CellContext α) : Prop where
  nodup : (c.live :: c.saved).Nodup
  lt : ∀ i ∈ c.live :: c.saved, i < c.next

theorem apart_new (direction : Direction) : (new direction : CellContext α).Apart :=
  ⟨List.nodup_singleton _, by simp [new]⟩

variable {c : CellContext α}

omit [Scalar α] in
theorem Apart.next_notMem (h : c.Apart) : c.next ∉ c.live :: c.saved :=
  fun hnext => Nat.lt_irrefl _ (h.lt c.next hnext)

theorem Apart.after (h : c.Apart) (s : ContextStep α) : (c.after s).Apart := by
  have hnext := h.next_notMem
  rcases c with ⟨cells, next, live, saved⟩
  rcases h with ⟨hnodup, hlt⟩
  cases s with
  -- Saving makes a new cell, which no earlier number stands for.
  | push =>
      rw [List.mem_cons, not_or] at hnext
      rw [List.nodup_cons] at hnodup
      constructor
      · show (live :: next :: saved).Nodup
        simpa using ⟨⟨Ne.symm hnext.1, hnodup.1⟩, hnext.2, hnodup.2⟩
      · show ∀ i ∈ live :: next :: saved, i < next + 1
        intro i hi
        have hcases : i = next ∨ i ∈ live :: saved := by
          rw [List.mem_cons, List.mem_cons] at hi
          rw [List.mem_cons]
          tauto
        rcases hcases with rfl | hi
        · exact Nat.lt_succ_self _
        · exact Nat.lt_succ_of_lt (hlt i hi)
  | pop =>
      cases saved with
      | nil => exact ⟨hnodup, hlt⟩
      | cons i saved => exact ⟨hnodup.of_cons, fun j hj => hlt j (List.mem_cons_of_mem _ hj)⟩
  | write | reverse | clearRails | translateRails => exact ⟨hnodup, hlt⟩

omit [Scalar α] in
/-- What is written to one cell does not show in others. -/
theorem map_update {cells : Nat → Surroundings α} {i : Nat} {saved : List Nat} (s : Surroundings α)
    (hi : i ∉ saved) : saved.map (Function.update cells i s) = saved.map cells := by
  apply List.map_congr_left
  intro j hj
  apply Function.update_of_ne
  rintro rfl
  exact hi hj

theorem Apart.view_after (h : c.Apart) (s : ContextStep α) : (c.after s).view = c.view.after s := by
  have hnext := h.next_notMem
  rcases c with ⟨cells, next, live, saved⟩
  have hlive : live ∉ saved := (List.nodup_cons.mp h.nodup).1
  have hwritten : ∀ state, view ⟨Function.update cells live state, next, live, saved⟩ =
      ⟨state, saved.map cells⟩ := by
    intro state
    show (⟨Function.update cells live state live, saved.map (Function.update cells live state)⟩ : Context α) = _
    rw [map_update state hlive, Function.update_self]
  cases s with
  | push =>
      rw [List.mem_cons, not_or] at hnext
      show (⟨Function.update cells next (cells live) live,
        (next :: saved).map (Function.update cells next (cells live))⟩ : Context α) =
          ⟨cells live, cells live :: saved.map cells⟩
      rw [List.map_cons, map_update _ hnext.2, Function.update_self,
        Function.update_of_ne (Ne.symm hnext.1)]
  | pop => cases saved <;> rfl
  | write | reverse | clearRails | translateRails => exact hwritten _

theorem Apart.afterAll (h : c.Apart) (steps : List (ContextStep α)) :
    (c.afterAll steps).Apart ∧ (c.afterAll steps).view = c.view.afterAll steps := by
  induction steps generalizing c with
  | nil => exact ⟨h, rfl⟩
  | cons s steps ih =>
      have hlater := ih (h.after s)
      rw [h.view_after s] at hlater
      exact hlater

end CellContext

end Cells

/-- Whatever is done to a context, as many states are saved as have been and are not restored yet.  Restoring
is refused exactly if there is none, and then changes nothing; if not, there is one state that is next, and
the context comes to be as it was when that state was saved, the fields of the live state and all.  A
context in cells that are written in place does the same, and no cell in it is live and saved, or saved twice. -/
theorem states_restored [Scalar α] (direction : Direction) (steps : List (ContextStep α)) :
    let start : Context α := .new direction
    let c := start.afterAll steps
    let inCells : CellContext α := (CellContext.new direction).afterAll steps
    c.depth = unmatched steps ∧
    (c.take .pop = .error .unmatchedPop ↔ unmatched steps = 0) ∧
    (unmatched steps = 0 → c.after .pop = c) ∧
    (0 < unmatched steps ↔ ∃ before inner, EndsOpen steps before inner) ∧
    (∀ before inner, EndsOpen steps before inner →
      c.take .pop = .ok (start.afterAll before) ∧ unmatched steps = unmatched before + 1 ∧
      ∀ before' inner', EndsOpen steps before' inner' → before' = before ∧ inner' = inner) ∧
    inCells.view = c ∧ (inCells.live :: inCells.saved).Nodup := by
  intro start c inCells
  have hdepth : c.depth = unmatched steps := Context.depth_afterAll start steps
  have hcells := (CellContext.apart_new direction).afterAll (α := α) steps
  have hrefused : c.take .pop = .error .unmatchedPop ↔ unmatched steps = 0 := by
    rw [← hdepth, Context.take, Context.pop, Context.depth]
    cases c.saved <;> simp
  refine ⟨hdepth, hrefused, ?_, ⟨exists_endsOpen steps, ?_⟩, ?_, hcells.2, hcells.1.nodup⟩
  · intro hnone
    rw [Context.after, hrefused.mpr hnone]
  · rintro ⟨before, inner, hopen⟩
    rw [hopen.unmatched_eq]
    exact Nat.succ_pos _
  · intro before inner hopen
    exact ⟨hopen.pop_eq start, hopen.unmatched_eq, fun before' inner' h => h.unique hopen⟩

end Railroad
