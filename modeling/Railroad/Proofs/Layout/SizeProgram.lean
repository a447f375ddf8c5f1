import Railroad.Layout.Engine
import Railroad.Proofs.Layout.Filling
import Railroad.Proofs.Layout.Measured
/-!
The size pass fills the table with the boxes of the measured tree, up to the first of its steps at which
something is wrong, and leaves the context and the nesting depth as they were.
-/
namespace Railroad

variable {α : Type}

namespace Sizing

variable {β γ : Type}

/-- From a context and a nesting depth the part fills in the boxes of these steps.  If nothing is wrong with
them, it comes to a result and leaves a context behind, at the same depth. -/
structure Does (m : Sizing α β) (c : Context α) (k : Nat) (steps : List (Step α)) (b : β)
    (c' : Context α) : Prop where
  done {t t' : BoxTable α} : t.fill steps = .ok t' → m.run.run ⟨c, t, k⟩ = (.ok b, ⟨c', t', k⟩)
  stopped {t : BoxTable α} {fault : LayoutFault} {stop : Context α} {depth : Nat} :
    t.fill steps = .error (fault, stop, depth) →
      ∃ t', m.run.run ⟨c, t, k⟩ = (.error fault, ⟨stop, t', depth⟩)

section Steps

variable {m : Sizing α β} {c c' c'' : Context α} {k : Nat} {steps steps' : List (Step α)} {b : β}

theorem run_bind (m : Sizing α β) (f : β → Sizing α γ) (e : Engine α) :
    (m >>= f).run.run e = match m.run.run e with
      | (.ok b, e) => (f b).run.run e
      | (.error fault, e) => (.error fault, e) := by
  rw [ExceptT.run_bind, StateT.run_bind]
  generalize m.run.run e = r
  obtain ⟨r, e⟩ := r
  cases r <;> rfl

theorem run_bind_ok {f : β → Sizing α γ} {e e' : Engine α} (h : m.run.run e = (.ok b, e')) :
    (m >>= f).run.run e = (f b).run.run e' := by
  rw [run_bind, h]

theorem run_bind_error {f : β → Sizing α γ} {e e' : Engine α} {fault : LayoutFault}
    (h : m.run.run e = (.error fault, e')) : (m >>= f).run.run e = (.error fault, e') := by
  rw [run_bind, h]

namespace Does

/-- A part that writes no box and finds nothing wrong. -/
theorem still (h : ∀ t, m.run.run ⟨c, t, k⟩ = (.ok b, ⟨c', t, k⟩)) : Does m c k [] b c' := by
  refine ⟨?_, ?_⟩
  · intro t t' hfill
    cases hfill
    exact h t
  · intro t fault stop depth hfill
    cases hfill

theorem pure (b : β) : Does (Pure.pure b : Sizing α β) c k [] b c :=
  still fun _ => rfl

theorem throw (fault : LayoutFault) (b : β) (c' : Context α) :
    Does (MonadExcept.throw fault : Sizing α β) c k [.gap fault c k] b c' := by
  refine ⟨?_, ?_⟩
  · intro t t' hfill
    cases hfill
  · intro t fault stop depth hfill
    cases hfill
    exact ⟨t, rfl⟩

theorem context : Does (Sizing.context : Sizing α _) c k [] c c :=
  still fun _ => rfl

theorem depth : Does (Sizing.depth : Sizing α _) c k [] k c :=
  still fun _ => rfl

theorem change (f : Context α → Context α) : Does (Sizing.change f) c k [] () (f c) :=
  still fun _ => rfl

theorem of_eq (h : Does m c k steps b c') (hsteps : steps = steps') : Does m c k steps' b c' :=
  hsteps ▸ h

theorem bind {f : β → Sizing α γ} {g : γ} (h : Does m c k steps b c')
    (h' : Does (f b) c' k steps' g c'') : Does (m >>= f) c k (steps ++ steps') g c'' := by
  refine ⟨?_, ?_⟩
  · intro t t' hfill
    rw [BoxTable.fill_append] at hfill
    cases ht : t.fill steps with
    | error stop =>
        rw [ht] at hfill
        cases hfill
    | ok t₁ =>
        rw [ht] at hfill
        exact (run_bind_ok (h.done ht)).trans (h'.done hfill)
  · intro t fault stop depth hfill
    rw [BoxTable.fill_append] at hfill
    cases ht : t.fill steps with
    | error first =>
        rw [ht] at hfill
        cases hfill
        obtain ⟨t', hrun⟩ := h.stopped ht
        exact ⟨t', run_bind_error hrun⟩
    | ok t₁ =>
        rw [ht] at hfill
        obtain ⟨t', hrun⟩ := h'.stopped hfill
        exact ⟨t', (run_bind_ok (h.done ht)).trans hrun⟩

theorem changed {f : Context α → Context α} {g : Unit → Sizing α β}
    (h : Does (g ()) (f c) k steps b c') : Does (Sizing.change f >>= g) c k steps b c' :=
  (change f).bind h

theorem asked {g : Context α → Sizing α β} (h : Does (g c) c k steps b c') :
    Does (Sizing.context >>= g) c k steps b c' :=
  context.bind h

/-- What comes after a part and writes no box. -/
theorem ended {f : β → Sizing α γ} {g : γ} (h : Does m c k steps b c') (h' : Does (f b) c' k [] g c'') :
    Does (m >>= f) c k steps g c'' :=
  (h.bind h').of_eq (List.append_nil steps)

theorem nested (h : Does m c (k + 1) steps b c') : Does (Sizing.nested m) c k steps b c' := by
  -- The count goes up before the part is run.  After a fault it does not come down again.
  have hup : ∀ t, (Sizing.nested m).run.run ⟨c, t, k⟩ = (do
      let b ← m
      modify fun e => { e with nesting := e.nesting - 1 }
      return b : Sizing α β).run.run ⟨c, t, k + 1⟩ := fun _ => run_bind_ok rfl
  refine ⟨?_, ?_⟩
  · intro t t' hfill
    rw [hup, run_bind_ok (h.done hfill)]
    rfl
  · intro t fault stop depth hfill
    obtain ⟨t', hrun⟩ := h.stopped hfill
    exact ⟨t', (hup t).trans (run_bind_error hrun)⟩

theorem saving (c' : Context α) (h : Does m c.push k steps b c') (hsaved : c'.saved = c.push.saved) :
    Does (Sizing.saving m) c k steps b c := by
  have hrestore : Does (Sizing.restore : Sizing α Unit) c' k [] () c := by
    obtain ⟨live, saved⟩ := c'
    obtain rfl : saved = c.push.saved := hsaved
    exact still fun _ => rfl
  rw [Sizing.saving]
  exact ((change .push).bind (h.bind (hrestore.bind (.pure b)))).of_eq (by simp)

end Does

end Steps

section Boxes

variable {n : Node} {box : Box α} {t t' : BoxTable α} {c : Context α} {k : Nat}

theorem run_get :
    (get : Sizing α (Engine α)).run.run ⟨c, t, k⟩ = (.ok ⟨c, t, k⟩, ⟨c, t, k⟩) := rfl

theorem run_lookUp (h : t.box? n = some box) :
    (lookUp n).run.run ⟨c, t, k⟩ = (.ok box, (⟨c, t, k⟩ : Engine α)) := by
  rw [lookUp, run_bind_ok run_get, BoxTable.get, h]
  rfl

theorem run_put (h : t.contains n = true) (box : Box α) :
    (put n box).run.run ⟨c, t, k⟩ = (.ok (), (⟨c, t.write n box, k⟩ : Engine α)) := by
  obtain ⟨first, hfirst⟩ := Option.isSome_iff_exists.mp h
  rw [put, run_bind_ok (run_lookUp hfirst)]
  rfl

/-- Parts that have boxes are all moved to their places. -/
theorem run_putAll {parts : List (Option Node)} {boxes : List (Box α)}
    (h : ∀ n, some n ∈ parts → t.contains n = true) :
    (putAll parts boxes).run.run ⟨c, t, k⟩ = (.ok (), (⟨c, t.writeAll parts boxes, k⟩ : Engine α)) := by
  induction parts generalizing t boxes with
  | nil => rfl
  | cons part parts ih =>
      have hrest : ∀ n, some n ∈ parts → t.contains n = true :=
        fun n hn => h n (List.mem_cons_of_mem _ hn)
      cases boxes with
      | nil => cases part <;> rfl
      | cons box boxes =>
          cases part with
          | none => exact ih hrest
          | some n =>
              have hn := h n List.mem_cons_self
              rw [putAll, run_bind_ok (run_put hn box)]
              refine ih ?_
              intro m hm
              rw [BoxTable.contains_write hn]
              exact hrest m hm

end Boxes

section Visits

variable [Scalar α] {n : Node} {ns : List Node} {c c' c'' : Context α} {k : Nat}

theorem run_enter {t t' : BoxTable α} (h : t.assign n Metrics.newBox = .ok t') :
    (enter n).run.run ⟨c, t, k⟩ = (.ok (), (⟨c, t', k⟩ : Engine α)) := by
  rw [enter, run_bind_ok run_get, h]
  rfl

theorem run_enter_error {t : BoxTable α} {fault : LayoutFault}
    (h : t.assign n Metrics.newBox = .error fault) :
    (enter n).run.run ⟨c, t, k⟩ = (.error fault, (⟨c, t, k⟩ : Engine α)) := by
  rw [enter, run_bind_ok run_get, h]
  rfl

/-- A node that is entered before its parts are sized, and has its box changed after them, comes to the same
as one that has the right box from the start. -/
theorem Does.entered {inside : Sizing α (Placement α × Bool)} {parts : List (Option Node)}
    {ss ps : List (Sized α)} {place : Placement α} {above handsBack : Bool} (outer : Context α)
    (hpush : c = outer.push) (h : Does inside c (k + 1) (Sized.stepsList (k + 1) ss) (place, handsBack) c')
    (hplaced : Placed parts place.parts ss ps) :
    Does (do
      enter n
      let (place, handsBack) ← inside
      putAll parts place.parts
      put n place.box
      return handsBack) c (k + 1)
        (.enter n outer above handsBack k place.box :: Sized.stepsList (k + 1) ps) handsBack c' := by
  subst hpush
  -- The table filled with the final boxes is the one filled with the first boxes and then changed.
  have hsame : ∀ {t t₀ : BoxTable α}, t.assign n Metrics.newBox = .ok t₀ →
      t.fill (.enter n outer above handsBack k place.box :: Sized.stepsList (k + 1) ps) =
        (t₀.fill (Sized.stepsList (k + 1) ss)).map
          fun t => (t.writeAll parts place.parts).write n place.box := by
    intro t t₀ hassign
    rw [BoxTable.fill_enter, BoxTable.assign_eq_map t n Metrics.newBox, hassign]
    change (t₀.write n place.box).fill _ = _
    rw [BoxTable.fill_write (BoxTable.contains_of_assign hassign), BoxTable.fill_placed hplaced]
    cases t₀.fill (Sized.stepsList (k + 1) ss) <;> rfl
  refine ⟨?_, ?_⟩
  · intro t t' hfill
    cases hassign : t.assign n Metrics.newBox with
    | error fault =>
        rw [BoxTable.fill_enter, BoxTable.assign_eq_map t n Metrics.newBox, hassign] at hfill
        cases hfill
    | ok t₀ =>
        rw [hsame hassign] at hfill
        cases ht : t₀.fill (Sized.stepsList (k + 1) ss) with
        | error stop =>
            rw [ht] at hfill
            cases hfill
        | ok t₁ =>
            rw [ht] at hfill
            cases hfill
            have hparts := BoxTable.contains_of_placed hplaced ht
            have hn := BoxTable.contains_of_fill ht (BoxTable.contains_of_assign hassign)
            rw [run_bind_ok (run_enter hassign), run_bind_ok (h.done ht)]
            dsimp only
            rw [run_bind_ok (run_putAll hparts),
              run_bind_ok (run_put (by rwa [BoxTable.contains_writeAll hparts]) place.box)]
            rfl
  · intro t fault stop depth hfill
    cases hassign : t.assign n Metrics.newBox with
    | error first =>
        rw [BoxTable.fill_enter, BoxTable.assign_eq_map t n Metrics.newBox, hassign] at hfill
        cases hfill
        exact ⟨t, run_bind_error (run_enter_error hassign)⟩
    | ok t₀ =>
        rw [hsame hassign] at hfill
        cases ht : t₀.fill (Sized.stepsList (k + 1) ss) with
        | error first =>
            rw [ht] at hfill
            cases hfill
            obtain ⟨t', hrun⟩ := h.stopped ht
            exact ⟨t', (run_bind_ok (run_enter hassign)).trans (run_bind_error hrun)⟩
        | ok t₁ =>
            rw [ht] at hfill
            cases hfill

/-- What is true of a visit follows from what is done inside. -/
theorem visiting_does {above : Bool} {inside : Sizing α (Placement α × Bool)}
    {parts : List (Option Node)} {ss ps : List (Sized α)} {handsBack : Bool} (place : Placement α)
    (c' : Context α)
    (h : Does inside c.push (k + 1) (Sized.stepsList (k + 1) ss) (place, handsBack) c')
    (hsaved : c'.saved = c.push.saved) (hplaced : Placed parts place.parts ss ps)
    (hmeasure : measure n c k above =
      if !n.isKnown then .gap (.unknownNode .layout n.typeName) c
      else if Metrics.maxDepth ≤ k then .gap .tooDeep c
      else .part n c above handsBack place.box ps) :
    Does (visiting n parts inside) c k ((measure n c k above).steps k)
      (measure n c k above).handsBack c := by
  rw [hmeasure, visiting]
  split
  · exact .throw _ _ _
  · refine (Does.depth.bind ?_).of_eq (List.nil_append _)
    split
    · exact .throw _ _ _
    · rw [Sized.steps]
      exact (Does.saving c' (.entered c rfl h hplaced) hsaved).nested

/-- The program fills in the boxes of a tree, and leaves the context as it was. -/
def Sizes (α : Type) [Scalar α] (n : Node) : Prop :=
  ∀ (c : Context α) (k : Nat) (above : Bool),
    Does (size n above) c k ((measure n c k above).steps k) (measure n c k above).handsBack c

/-- A part that has been sized has its box looked up. -/
theorem Does.looked {s : Sized α} {m : Sizing α Bool} (h : Does m c k (s.steps k) s.handsBack c')
    (hs : Stands (some n) s) : Does (do
      let above ← m
      let box ← lookUp n
      return (box, above)) c k (s.steps k) (s.box, s.handsBack) c' := by
  refine ⟨?_, ?_⟩
  · intro t t' hfill
    rw [run_bind_ok (h.done hfill), run_bind_ok (run_lookUp (BoxTable.box?_of_fill_steps hs hfill))]
    rfl
  · intro t fault stop depth hfill
    obtain ⟨t', hrun⟩ := h.stopped hfill
    exact ⟨t', run_bind_error hrun⟩

theorem Does.sized {β : Type} {g : Bool → Box α → Sizing α β} {s : Sized α} {steps : List (Step α)}
    {b : β} {m : Sizing α Bool} (h : Does m c k (s.steps k) s.handsBack c') (hs : Stands (some n) s)
    (hg : Does (g s.handsBack s.box) c' k steps b c'') :
    Does (do
      let above ← m
      let box ← lookUp n
      g above box) c k (s.steps k ++ steps) b c'' := by
  have hpair := (h.looked hs).bind (f := fun r => g r.2 r.1) hg
  simpa only [bind_assoc, pure_bind] using hpair

theorem Sizes.child (h : Sizes α n) (c : Context α) (k : Nat) (above : Bool) :
    Does (do
      let above ← size n above
      return (← lookUp n, above)) c k ((measure n c k above).steps k)
        ((measure n c k above).box, (measure n c k above).handsBack) c :=
  (h c k above).looked (stands_measure n c k above)

section Parts

variable {o : Option Node} (h : ∀ n ∈ o.toList, Sizes α n) (c : Context α) (k : Nat) (above : Bool)

include h

theorem sizeRequired_does : Does (sizeRequired o above) c k ((measureRequired o c k above).steps k)
    ((measureRequired o c k above).box, (measureRequired o c k above).handsBack) c := by
  cases o with
  | none => exact .throw _ _ _
  | some n => exact (h n List.mem_cons_self).child c k above

theorem sizeBody_does : Does (sizeRequired o above) c k (Sized.stepsList k [measureRequired o c k above])
    ((measureRequired o c k above).box, (measureRequired o c k above).handsBack) c :=
  (sizeRequired_does h c k above).of_eq (List.append_nil _).symm

theorem sizeOption_does : Does (sizeOption o above) c k
    (Sized.stepsList k (measureOption o c k above))
    (((measureOption o c k above).head?.map Sized.box).getD Metrics.newBox,
      Sized.after above (measureOption o c k above)) c := by
  cases o with
  | none => exact .pure _
  | some n => exact ((h n List.mem_cons_self).child c k above).of_eq (List.append_nil _).symm

end Parts

omit [Scalar α] in
theorem after_cons (above : Bool) (s : Sized α) (ss : List (Sized α)) :
    Sized.after above (s :: ss) = Sized.after s.handsBack ss := by
  cases ss with
  | nil => rfl
  | cons t ss =>
      obtain ⟨last, hlast⟩ : ∃ last, (t :: ss).getLast? = some last :=
        ⟨_, List.getLast?_eq_some_getLast (List.cons_ne_nil t ss)⟩
      rw [Sized.after, Sized.after, List.getLast?_cons_cons, hlast]
      rfl

section Lists

variable (h : ∀ n ∈ ns, Sizes α n) (k : Nat) (above : Bool)

include h

theorem sizeList_does (row : Row) (first : Bool) (hthreads : row.threads = true)
    (hrow : ∀ first last, row.context c first last = c') :
    Does (sizeList ns above) c' k (Sized.stepsList k (measureList row first ns c k above))
      ((measureList row first ns c k above).map Sized.box,
        Sized.after above (measureList row first ns c k above)) c' := by
  induction ns generalizing above first with
  | nil => exact .pure _
  | cons n ns ih =>
      rw [List.forall_mem_cons] at h
      rw [sizeList, measureList, hrow, hthreads, Bool.true_and, Sized.stepsList, List.map_cons, after_cons]
      exact Does.sized (h.1 c' k above) (stands_measure ..) ((ih h.2 _ false).ended (.pure _))

theorem sizeFan_does (first : Bool) : Does (sizeFan ns) c k
    (Sized.stepsList k (measureList .fan first ns c k false))
      ((measureList .fan first ns c k false).map Sized.box) c := by
  induction ns generalizing first with
  | nil => exact .pure _
  | cons n ns ih =>
      rw [List.forall_mem_cons] at h
      rw [sizeFan, measureList, Row.threads, Bool.false_and, Sized.stepsList, List.map_cons]
      have hn := Does.sized (g := fun _ box => Pure.pure box)
        (h.1 (c.push.clearRails.toward .down) k false) (stands_measure ..) (.pure _)
      rw [List.append_nil] at hn
      simp only [bind_pure] at hn
      exact (Does.saving (c.push.clearRails.toward .down) (Does.changed (Does.changed hn)) rfl).bind
        ((ih h.2 false).ended (.pure _))

theorem sizeItems_does (first : Bool) : Does (sizeItems first ns above) c k
    (Sized.stepsList k (measureList .sequence first ns c k above))
      ((measureList .sequence first ns c k above).map Sized.box,
        Sized.after above (measureList .sequence first ns c k above)) c := by
  induction ns generalizing above first with
  | nil => exact .pure _
  | cons n ns ih =>
      rw [List.forall_mem_cons] at h
      have hthreads : Row.sequence.threads = true := rfl
      rw [sizeItems, measureList, hthreads, Bool.true_and, Sized.stepsList, List.map_cons, after_cons]
      refine (Does.saving (c.push.withRails (first && c.live.useLeft) (ns.isEmpty && c.live.useRight))
        (Does.changed ((h.1).child _ k above)) rfl).bind ?_
      exact (ih h.2 _ false).ended (.pure _)

end Lists

theorem sizes_of_children (h : ∀ m ∈ n.children, Sizes α m) : Sizes α n := by
  intro c k above
  -- What the program says is peeled off step by step, until it says what is done for the parts.
  cases n with
  | grammar id title productions comment =>
      simp only [Node.children, List.forall_mem_append] at h
      rw [size]
      refine visiting_does _ (c.push.toward .none).clearRails (Does.changed (Does.changed ?_)) rfl
        (.option title _ _ _ _ (.part _ (stands_measureRequired productions _ _ _)
          (.last comment _ _ _ _))) (measure.eq_def ..)
      refine ((sizeOption_does h.1.1 _ _ _).bind ((sizeRequired_does h.1.2 _ _ _).bind
        ((sizeOption_does h.2 _ _ _).ended ?_))).of_eq ?_
      · exact .pure _
      · rw [Sized.stepsList_append, Sized.stepsList]
  | productionList id productions =>
      rw [size]
      refine visiting_does _ (c.push.toward .none).clearRails (Does.changed (Does.changed ?_)) rfl
        (.list .rules true productions _ _ _ (Placement.length_rules _)) (measure.eq_def ..)
      exact (sizeList_does h _ _ .rules true rfl (fun _ _ => rfl)).ended (.pure _)
  | production id name expression =>
      simp only [Node.children, List.forall_mem_append] at h
      rw [size]
      refine visiting_does _ (c.push.toward .right).clearRails (Does.changed (Does.changed ?_)) rfl
        (.part _ (stands_measureRequired name _ _ _) (.part _ (stands_measureRequired expression _ _ _)
          (.rest []))) (measure.eq_def ..)
      refine ((sizeRequired_does h.1 _ _ _).bind ((sizeRequired_does h.2 _ _ _).ended ?_)).of_eq ?_
      · exact .pure _
      · simp only [Sized.stepsList, List.append_nil]
  | alternation id alternatives =>
      cases alternatives with
      | nil =>
          rw [size]
          refine visiting_does ⟨Metrics.newBox, []⟩ c.push ?_ rfl (.rest _) (measure.eq_def ..)
          exact .throw _ _ _
      | cons a as =>
          rw [size]
          by_cases hfan : Node.isFan (a :: as) = true
          · rw [if_pos hfan]
            refine visiting_does _ c.push ((sizeFan_does h (c := c.push) (k + 1) true).ended
              (Does.asked (.pure _))) rfl (.list .fan true (a :: as) _ _ _ (Placement.length_fan _ _)) ?_
            rw [measure.eq_def]
            simp only [if_pos hfan]
            rfl
          · rw [if_neg hfan]
            refine visiting_does _ c.push (Does.ended (Does.saving (c.push.push.withRails true true)
              (Does.changed (sizeList_does h (k + 1) false .stack true rfl (fun _ _ => rfl))) rfl)
              (Does.asked (.pure _))) rfl
              (.list .stack true (a :: as) _ _ _ (Placement.length_stack _ _ _ _)) ?_
            rw [measure.eq_def]
            simp only [if_neg hfan]
            rfl
  | sequence id items =>
      rw [size]
      refine visiting_does _ c.push (Does.asked ?_) rfl
        (.list .sequence true items _ _ _ (Placement.length_sequence _ _)) (measure.eq_def ..)
      exact (sizeItems_does h _ _ true).ended (.pure _)
  | repetition id body =>
      rw [size]
      refine visiting_does _ c.push (Does.saving c.push.push.clearRails.reverse
        (Does.changed (Does.changed ((sizeBody_does h _ _ true).ended ?_))) rfl) rfl
          (.single (Placement.length_repetition _ _) (stands_measureRequired body _ _ _)) (measure.eq_def ..)
      exact .pure _
  | oneOrMore id body separator =>
      simp only [Node.children, List.forall_mem_append] at h
      cases separator with
      | none =>
          rw [size]
          refine visiting_does _ c.push (Does.saving c.push.push.clearRails
            (Does.changed ((sizeBody_does h.1 _ _ false).ended ?_)) rfl) rfl
              (.single (Placement.length_loop _) (stands_measureRequired body _ _ _)) (measure.eq_def ..)
          exact .pure _
      | some separator =>
          rw [size]
          refine visiting_does _ c.push (Does.saving c.push.push.clearRails.reverse
            (Does.changed ?_) rfl) rfl (.part _ (stands_measureRequired body _ _ _)
              (.part _ (stands_measure separator _ _ _) (.rest []))) (measure.eq_def ..)
          refine ((sizeRequired_does h.1 _ _ false).bind (Does.changed
            (((h.2 separator List.mem_cons_self).child _ _ _).ended ?_))).of_eq ?_
          · exact .pure _
          · simp only [Sized.stepsList, List.append_nil]
  | optional id body =>
      rw [size]
      refine visiting_does _ c.push (Does.ended (Does.saving c.push.push.clearRails
        (Does.changed (sizeBody_does h _ _ true)) rfl) (Does.asked ?_)) rfl
          (.single (Placement.length_optional _ _ _ _) (stands_measureRequired body _ _ _))
          (measure.eq_def ..)
      exact .pure _
  | literal | identifier | other =>
      rw [size]
      refine visiting_does ⟨Placement.leaf _ _, []⟩ c.push (Does.asked ?_) rfl (.rest [])
        (measure.eq_def ..)
      exact .pure _
  | foreign =>
      rw [size]
      exact visiting_does ⟨Metrics.newBox, []⟩ c.push (.pure _) rfl (.rest []) (measure.eq_def ..)

theorem sizes (n : Node) : Sizes α n := by
  induction n using Node.descend with
  | _ n ih => exact sizes_of_children ih

end Visits

end Sizing

end Railroad
