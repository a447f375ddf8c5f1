import Mathlib.Data.Set.Card
import Railroad.Trace.Difference
/-!
What a comparison of two lists of lines shows: how many lines differ, and which lines stand around them.  Dots
stand wherever the lines shown do not follow one another, and also before the first line of all, where there is
no gap.
-/
namespace Railroad.Difference

/-- The lines above every comparison. -/
def heading : List String :=
  [String.ofList (List.replicate 60 '='), "CALL DIFF", String.ofList (List.replicate 60 '=')]

/-- The lines for some indices, with dots before those that have a gap before them. -/
def showing (expected actual : List String) (gap : Nat → Prop) [DecidablePred gap] (is : List Nat) :
    List String :=
  is.flatMap fun i => (if gap i then ["..."] else []) ++
    if expected[i]? = actual[i]? then [s!"{indexText i}:   {lineAt actual i}"]
    else [s!"{indexText i}: E {lineAt expected i}", "      A " ++ lineAt actual i]

/-- A comparison of lists that differ at so many indices, with the lines for some of them. -/
def written (expected actual : List String) (count : Nat) (gap : Nat → Prop) [DecidablePred gap]
    (is : List Nat) : List String :=
  heading ++ [s!"Found {count} differing call(s)"]
    ++ (if expected.length = actual.length then []
        else [s!"Expected {expected.length} calls, got {actual.length}"])
    ++ "" :: showing expected actual gap is

variable {expected actual : List String} {context i : Nat} {is : List Nat} {before : Option Nat}

section Indices

theorem lineAt_eq_iff (hexpected : "" ∉ expected) (hactual : "" ∉ actual) :
    lineAt expected i = lineAt actual i ↔ expected[i]? = actual[i]? := by
  -- What is past the end reads as an empty line, and there are no empty lines to mistake it for.
  have hline : ∀ {lines : List String}, "" ∉ lines → lines[i]?.getD "" = "" → lines[i]? = none := by
    intro lines hlines hempty
    cases hi : lines[i]? with
    | none => rfl
    | some line =>
        rw [hi, Option.getD_some] at hempty
        exact absurd (hempty ▸ List.mem_of_getElem? hi) hlines
  refine ⟨fun h => ?_, fun h => by rw [lineAt, h, lineAt]⟩
  rw [lineAt, lineAt] at h
  cases he : expected[i]? with
  | none =>
      rw [he, Option.getD_none] at h
      rw [hline hactual h.symm]
  | some e =>
      cases ha : actual[i]? with
      | none =>
          rw [ha, Option.getD_none] at h
          rw [hline hexpected h] at he
          cases he
      | some a =>
          rw [he, ha] at h
          exact congrArg some h

/-- The indices at which lists without empty lines differ; past the end of one of them they do. -/
theorem mem_indices (hexpected : "" ∉ expected) (hactual : "" ∉ actual) :
    i ∈ indices expected actual ↔ expected[i]? ≠ actual[i]? := by
  rw [indices, List.mem_filter, List.mem_range, bne_iff_ne, Ne, lineAt_eq_iff hexpected hactual]
  refine ⟨And.right, fun h => ⟨?_, h⟩⟩
  by_contra hi
  rw [not_lt, max_le_iff] at hi
  exact h (by rw [List.getElem?_eq_none hi.1, List.getElem?_eq_none hi.2])

theorem indices_eq_nil_iff (hexpected : "" ∉ expected) (hactual : "" ∉ actual) :
    indices expected actual = [] ↔ expected = actual := by
  rw [List.eq_nil_iff_forall_not_mem, List.ext_getElem?_iff]
  simp only [mem_indices hexpected hactual, not_not]

theorem length_indices (hexpected : "" ∉ expected) (hactual : "" ∉ actual) :
    (indices expected actual).length = {i : Nat | expected[i]? ≠ actual[i]?}.ncard := by
  have hnodup : (indices expected actual).Nodup := List.nodup_range.filter _
  have hset : {i : Nat | expected[i]? ≠ actual[i]?} = ((indices expected actual).toFinset : Set Nat) := by
    ext i
    rw [Set.mem_ofPred_eq, ← mem_indices hexpected hactual, Finset.mem_coe, List.mem_toFinset]
  rw [hset, Set.ncard_coe_finset, List.toFinset_card_of_nodup hnodup]

theorem pairwise_shown (expected actual : List String) (context : Int) :
    (shown expected actual context).Pairwise (· < ·) :=
  List.pairwise_lt_range.filter _

/-- The lines shown are those that some difference is near. -/
theorem mem_shown (hexpected : "" ∉ expected) (hactual : "" ∉ actual) :
    i ∈ shown expected actual context ↔ (i < expected.length ∨ i < actual.length) ∧
      ∃ d, expected[d]? ≠ actual[d]? ∧ d ≤ i + context ∧ i ≤ d + context := by
  simp only [shown, List.mem_filter, List.mem_range, lt_max_iff, List.any_eq_true,
    mem_indices hexpected hactual, Bool.and_eq_true, decide_eq_true_eq]
  refine and_congr_right fun _ => exists_congr fun d => and_congr_right fun _ => ?_
  omega

theorem zero_mem_shown (hexpected : "" ∉ expected) (hactual : "" ∉ actual) :
    0 ∈ shown expected actual context ↔ ∃ d ≤ context, expected[d]? ≠ actual[d]? := by
  rw [mem_shown hexpected hactual]
  constructor
  · rintro ⟨-, d, hd, hnear, -⟩
    exact ⟨d, by omega, hd⟩
  · rintro ⟨d, hnear, hd⟩
    refine ⟨?_, d, hd, by omega, by omega⟩
    by_contra hnone
    simp only [not_or, not_lt, Nat.le_zero, List.length_eq_zero_iff] at hnone
    rw [hnone.1, hnone.2] at hd
    exact hd rfl

end Indices

section Gaps

variable {gap gap' : Nat → Prop} [DecidablePred gap] [DecidablePred gap']

theorem showing_congr (h : ∀ i ∈ is, gap i ↔ gap' i) :
    showing expected actual gap is = showing expected actual gap' is := by
  refine List.flatMap_congr fun i hi => ?_
  simp only [h i hi]

/-- Among indices in increasing order, there is a gap before zero, and before what does not follow on the
index before it. -/
theorem isGap_eq (his : (before.toList ++ i :: is).Pairwise (· < ·)) :
    isGap before i = decide (i = 0 ∨ i - 1 ∉ before.toList ++ i :: is) := by
  obtain ⟨-, his', hbelow⟩ := List.pairwise_append.mp his
  -- The indices behind are greater, so the one that comes right before can only be the one shown last.
  have habove : i - 1 ∈ i :: is → i = 0 := by
    intro h
    rcases List.mem_cons.mp h with h | h
    · omega
    · have := (List.pairwise_cons.mp his').1 _ h
      omega
  cases before with
  | none =>
      rw [isGap, eq_comm, decide_eq_true_eq]
      by_cases hi : i = 0
      · exact .inl hi
      · exact .inr fun h => hi (habove h)
  | some j =>
      have hj : j < i := hbelow j List.mem_cons_self i List.mem_cons_self
      rw [isGap, decide_eq_decide]
      constructor
      · intro hgap
        refine .inr fun h => ?_
        rcases List.mem_cons.mp h with h | h
        · omega
        · have := habove h
          omega
      · rintro (hi | hi)
        · omega
        · have hne : i - 1 ≠ j := fun h => hi (h ▸ List.mem_cons_self)
          omega

/-- The entries are shown with dots before every gap, and before the index zero. -/
theorem entries_eq_showing (hexpected : "" ∉ expected) (hactual : "" ∉ actual)
    (his : (before.toList ++ is).Pairwise (· < ·)) :
    entries expected actual before is =
      showing expected actual (fun i => i = 0 ∨ i - 1 ∉ before.toList ++ is) is := by
  induction is generalizing before with
  | nil => rfl
  | cons i is ih =>
      obtain ⟨-, his', hbelow⟩ := List.pairwise_append.mp his
      have hrest : showing expected actual (fun j => j = 0 ∨ j - 1 ∉ (some i).toList ++ is) is =
          showing expected actual (fun j => j = 0 ∨ j - 1 ∉ before.toList ++ i :: is) is := by
        refine showing_congr fun j hj => ?_
        -- what was shown before the index is too far from those behind it
        have hij := (List.pairwise_cons.mp his').1 j hj
        have hnot : j - 1 ∉ before.toList := by
          intro hmem
          have := hbelow _ hmem i List.mem_cons_self
          omega
        simp [hnot]
      have hentry : entry expected actual i =
          if expected[i]? = actual[i]? then [s!"{indexText i}:   {lineAt actual i}"]
          else [s!"{indexText i}: E {lineAt expected i}", "      A " ++ lineAt actual i] := by
        simp only [entry, lineAt_eq_iff hexpected hactual]
      have hbehind : ((some i).toList ++ is).Pairwise (· < ·) := his'
      rw [entries, ih hbehind, hrest, hentry, isGap_eq his]
      simp only [showing, List.flatMap_cons, decide_eq_true_eq]

/-- Dots before zero are the only ones that mark no gap. -/
theorem showing_eq_iff (expected actual : List String) (his : is.Pairwise (· < ·)) :
    showing expected actual (fun i => i = 0 ∨ i - 1 ∉ is) is =
      showing expected actual (fun i => 0 < i ∧ i - 1 ∉ is) is ↔ 0 ∉ is := by
  constructor
  · intro h hzero
    cases is with
    | nil => cases hzero
    | cons i is =>
        rw [List.pairwise_cons] at his
        obtain rfl : i = 0 := by
          rcases List.mem_cons.mp hzero with rfl | hmem
          · rfl
          · exact absurd (his.1 0 hmem) (Nat.not_lt_zero i)
        have hrest : showing expected actual (fun j => j = 0 ∨ j - 1 ∉ 0 :: is) is =
            showing expected actual (fun j => 0 < j ∧ j - 1 ∉ 0 :: is) is := by
          refine showing_congr fun j hj => ?_
          have hpos : 0 < j := his.1 j hj
          simp only [hpos.ne', false_or, hpos, true_and]
        -- All entries but the first are alike, and the first one differs by the line with dots.
        have hlength := congrArg List.length h
        simp only [showing, List.flatMap_cons] at hlength hrest
        rw [hrest] at hlength
        simp at hlength
  · intro hzero
    refine showing_congr fun i hi => ?_
    have hne : i ≠ 0 := fun h => hzero (h ▸ hi)
    simp only [hne, false_or, Nat.pos_of_ne_zero hne, true_and]

end Gaps

/-- The report on lists that differ, with the lines shown and where the dots stand. -/
theorem report_eq_written (hexpected : "" ∉ expected) (hactual : "" ∉ actual) (h : expected ≠ actual)
    (context : Nat) : report expected actual context =
      written expected actual {i : Nat | expected[i]? ≠ actual[i]?}.ncard
        (fun i => i = 0 ∨ i - 1 ∉ shown expected actual context) (shown expected actual context) := by
  have hdiffer : (indices expected actual).isEmpty = false := by
    rw [List.isEmpty_eq_false_iff, Ne, indices_eq_nil_iff hexpected hactual]
    exact h
  rw [report]
  simp only [hdiffer, Bool.false_eq_true, if_false, length_indices hexpected hactual]
  have hentries : entries expected actual none (shown expected actual context) = _ :=
    entries_eq_showing hexpected hactual (pairwise_shown _ _ _)
  rw [hentries]
  rfl

/-- Of lists without empty lines the report says that there are no differences exactly if they are equal.
Otherwise it counts the indices at which they differ, shows in increasing order those that some difference is
near, each as one line or as a pair, and puts dots before the lines that do not follow on the one above and
before the line zero.  So the dots stand exactly where a line has been left out, unless one of the first lines
differs. -/
theorem gaps_marked_iff (hexpected : "" ∉ expected) (hactual : "" ∉ actual) (context : Nat) :
    (report expected actual context = heading ++ ["No differences found."] ↔ expected = actual) ∧
    (expected ≠ actual → ∃ is : List Nat, is.Pairwise (· < ·) ∧
      (∀ i, i ∈ is ↔ (i < expected.length ∨ i < actual.length) ∧
        ∃ d, expected[d]? ≠ actual[d]? ∧ d ≤ i + context ∧ i ≤ d + context) ∧
      report expected actual context = written expected actual
        {i : Nat | expected[i]? ≠ actual[i]?}.ncard (fun i => i = 0 ∨ i - 1 ∉ is) is ∧
      (report expected actual context = written expected actual
        {i : Nat | expected[i]? ≠ actual[i]?}.ncard (fun i => 0 < i ∧ i - 1 ∉ is) is ↔
          ∀ d ≤ context, expected[d]? = actual[d]?)) := by
  constructor
  · constructor
    · intro h
      by_contra hne
      rw [report_eq_written hexpected hactual hne context, written] at h
      simp at h
    · intro h
      rw [report]
      simp only [(indices_eq_nil_iff hexpected hactual).mpr h, List.isEmpty_nil, if_true]
      rfl
  · intro hne
    have hreport := report_eq_written hexpected hactual hne context
    have hsorted := pairwise_shown expected actual context
    refine ⟨_, hsorted, fun i => mem_shown hexpected hactual, hreport, ?_⟩
    have hzero : 0 ∉ shown expected actual context ↔ ∀ d ≤ context, expected[d]? = actual[d]? := by
      rw [zero_mem_shown hexpected hactual]
      push Not
      rfl
    rw [hreport, ← hzero, ← showing_eq_iff expected actual hsorted, written, written,
      List.append_cancel_left_eq, List.cons.injEq, and_iff_right rfl]

/-- A run of five lines. -/
def longRun : List String :=
  ["a", "b", "c", "d", "e"]

/-- A run that ends one line earlier, after a line of its own. -/
def shortRun : List String :=
  ["a", "b", "c", "x"]

theorem gaps_marked_iff_runs : "" ∉ longRun ∧ "" ∉ shortRun ∧
    (report longRun shortRun (1 : Nat) = heading ++ ["No differences found."] ↔ longRun = shortRun) ∧
    (longRun ≠ shortRun → ∃ is : List Nat, is.Pairwise (· < ·) ∧
      (∀ i, i ∈ is ↔ (i < longRun.length ∨ i < shortRun.length) ∧
        ∃ d, longRun[d]? ≠ shortRun[d]? ∧ d ≤ i + 1 ∧ i ≤ d + 1) ∧
      report longRun shortRun (1 : Nat) = written longRun shortRun
        {i : Nat | longRun[i]? ≠ shortRun[i]?}.ncard (fun i => i = 0 ∨ i - 1 ∉ is) is ∧
      (report longRun shortRun (1 : Nat) = written longRun shortRun
        {i : Nat | longRun[i]? ≠ shortRun[i]?}.ncard (fun i => 0 < i ∧ i - 1 ∉ is) is ↔
          ∀ d ≤ 1, longRun[d]? = shortRun[d]?)) := by
  have hlong : "" ∉ longRun := by decide
  have hshort : "" ∉ shortRun := by decide
  exact ⟨hlong, hshort, gaps_marked_iff hlong hshort 1⟩

/-- If the first lines differ, there are dots before them, although nothing has been left out there. -/
theorem dots_before_first : report ["a"] ["b"] (2 : Nat) =
      heading ++ ["Found 1 differing call(s)", "", "...", "   0: E a", "      A b"] ∧
    report ["a"] ["b"] (2 : Nat) ≠ written ["a"] ["b"] 1 (fun i => 0 < i ∧ i - 1 ∉ [0]) [0] := by
  constructor <;> decide

end Railroad.Difference
