import Railroad.Proofs.Drawing.Flawless
/-!
The render pass as a program.  It has one context, which it changes, saves and restores as it goes, and
counts how many nodes are open.  It does what the scene says, and when nothing is wrong it leaves the
context and the count as they were.
-/
namespace Railroad

/-- A part of a drawing. -/
abbrev Drawing (α β : Type) : Type :=
  ExceptT LayoutFault (StateM (DrawingSession α)) β

namespace Drawing

variable {α β : Type}

/-- Adds events. -/
def tell (es : List (Event α)) : Drawing α Unit :=
  modify fun s => { s with events := s.events ++ es }

def context : Drawing α (Context α) :=
  return (← get).context

def depth : Drawing α Nat :=
  return (← get).nesting

/-- Changes the live state of the context. -/
def change (f : Context α → Context α) : Drawing α Unit :=
  modify fun s => { s with context := f s.context }

/-- Restores the state saved last. -/
def restore : Drawing α Unit := do
  match (← get).context.pop with
  | .ok context => modify fun s => { s with context }
  | .error fault => throw fault

/-- A part with the state of the context saved before and restored after it. -/
def saving (m : Drawing α β) : Drawing α β := do
  change .push
  let b ← m
  restore
  return b

/-- A part with another origin in force. -/
def framed (origin : Point α) (m : Drawing α β) : Drawing α β := do
  tell [.call (.primitive (.pushTranslate origin))]
  let b ← m
  tell [.call (.primitive .popTranslate)]
  return b

/-- A part one level deeper. -/
def nested (m : Drawing α β) : Drawing α β := do
  modify fun s => { s with nesting := s.nesting + 1 }
  let b ← m
  modify fun s => { s with nesting := s.nesting - 1 }
  return b

variable [Scalar α]

/-- A visit to a node: what it draws inside is told by its box, in a context and at a depth of its own. -/
def visiting (d : Backdrop α) (n : Node) (above : Bool) (inside : Box α → Drawing α Bool) :
    Drawing α Bool :=
  if !n.isKnown then throw (.unknownNode .render n.typeName)
  else do
    let outer ← context
    let nesting ← depth
    if Metrics.maxDepth ≤ nesting then throw .tooDeep
    else nested <| saving do
      match d.table.box? n with
      | none => throw (.noBox n.typeName)
      | some box =>
        tell [.enter n outer above]
        let handsBack ← inside box
        tell [.leave n handsBack]
        return handsBack

section Rules

variable (box : Box α)

def grammarRule (title productions comment : Bool → Drawing α Bool) : Drawing α Bool := do
  change (·.toward .none)
  saving <| framed box.tl do
    let above ← title false
    let above ← productions above
    comment above

def productionListRule (productions : Bool → Drawing α Bool) : Drawing α Bool := do
  change (·.toward .none)
  framed box.tl (productions false)

def productionRule (nameBox expressionBox : Box α) (name expression : Bool → Drawing α Bool) :
    Drawing α Bool :=
  saving <| framed box.tl do
    let above ← name false
    change (·.toward .right)
    let above ← expression above
    tell ((Strokes.production nameBox expressionBox).map .call)
    return above

/-- The rules for alternations of which these are the boxes. -/
def fanRule (above : Bool) (first last : Box α) (boxes : List (Box α))
    (alternatives : Drawing α Unit) : Drawing α Bool :=
  framed box.tl do
    change (·.translateRails box.tl)
    alternatives
    let c ← context
    tell ((Strokes.fan c.live.direction above box first last boxes).map .call)
    return above

def stackRule (n : Node) (above : Bool) (first last : Box α) (boxes : List (Box α))
    (alternatives : Bool → Drawing α Bool) : Drawing α Bool :=
  framed box.tl do
    change (·.translateRails box.tl)
    let _ ← saving do
      let c ← context
      let (railed, rails) := openRails c n first last boxes
      change fun _ => railed
      tell (rails.map .rail)
      alternatives false
    let c ← context
    tell ((Strokes.stack c.live above box first last boxes).map .call)
    return above

def sequenceRule (items : Bool → Drawing α Bool) : Drawing α Bool :=
  framed box.tl <| saving do
    change (·.translateRails box.tl)
    items false

def repetitionRule (bodyBox : Box α) (body : Bool → Drawing α Bool) : Drawing α Bool := do
  let flag ← saving do
    change .clearRails
    framed box.tl do
      change .reverse
      body true
  let c ← context
  tell ((Strokes.repetition c.live.direction flag box bodyBox).map .call)
  return false

def loopRule (bodyBox : Box α) (body : Bool → Drawing α Bool) : Drawing α Bool :=
  saving <| framed box.tl do
    change (·.translateRails box.tl)
    change .clearRails
    let _ ← body false
    let c ← context
    tell ((Strokes.loop c.live.direction box bodyBox).map .call)
    return false

def separatedLoopRule (bodyBox separatorBox : Box α) (body separator : Bool → Drawing α Bool) :
    Drawing α Bool :=
  saving <| framed box.tl do
    change (·.translateRails box.tl)
    change .clearRails
    let flag ← body false
    change .reverse
    let _ ← separator flag
    tell ((Strokes.separatedLoop box bodyBox separatorBox).map .call)
    return false

def optionalRule (bodyBox : Box α) (body : Bool → Drawing α Bool) : Drawing α Bool := do
  let flag ← saving <| framed box.tl do
    change (·.translateRails box.tl)
    change .clearRails
    body true
  let c ← context
  tell ((Strokes.optional c.live flag box bodyBox).map .call)
  return false

def leafRule (isLinked isPlain : Bool) (style : Style) (text : String) : Drawing α Bool := do
  let c ← context
  tell ((Strokes.leaf c.live.direction isLinked isPlain style box text).map .call)
  return false

end Rules

mutual
/-- Draws a tree with a flag from the node above, and hands a flag back. -/
def render (d : Backdrop α) (n : Node) (above : Bool) : Drawing α Bool :=
  match n with
  | .grammar _ title productions comment => visiting d n above fun box =>
      grammarRule box (renderOption d title) (renderOption d productions) (renderOption d comment)
  | .productionList _ productions => visiting d n above fun box =>
      productionListRule box (renderList d productions)
  | .production _ name expression => visiting d n above fun box =>
      productionRule box (d.boxOption name) (d.boxOption expression) (renderRequired d name)
        (renderRequired d expression)
  | .alternation _ [] => visiting d n above fun _ => throw .noAlternatives
  | .alternation _ (a :: as) => visiting d n above fun box =>
      let boxes := (a :: as).map d.box
      let first := d.box a
      let last := boxes.getLast?.getD first
      if Node.isFan (a :: as) then
        fanRule box above first last boxes (renderFan d (a :: as))
      else stackRule box n above first last boxes (renderList d (a :: as))
  | .sequence _ items => visiting d n above fun box =>
      sequenceRule box (renderItems d true items)
  | .repetition _ body => visiting d n above fun box =>
      repetitionRule box (d.boxOption body) (renderRequired d body)
  | .oneOrMore _ body none => visiting d n above fun box =>
      loopRule box (d.boxOption body) (renderRequired d body)
  | .oneOrMore _ body (some separator) => visiting d n above fun box =>
      separatedLoopRule box (d.boxOption body) (d.box separator) (renderRequired d body)
        (render d separator)
  | .optional _ body => visiting d n above fun box =>
      optionalRule box (d.boxOption body) (renderRequired d body)
  | .literal _ text _ => visiting d n above fun box => leafRule box false false (.ofLeaf n) text
  | .identifier _ text => visiting d n above fun box =>
      leafRule box (d.links.contains text) false (.ofLeaf n) text
  | .other _ text => visiting d n above fun box => leafRule box false true (.ofLeaf n) text
  | .foreign .. => visiting d n above fun _ => return false

/-- Draws trees one after another, each with the flag that the one before handed back. -/
def renderList (d : Backdrop α) (parts : List Node) (above : Bool) : Drawing α Bool :=
  match parts with
  | [] => return above
  | n :: ns => do
      let flag ← saving (render d n above)
      renderList d ns flag

/-- Draws the alternatives of a fan. -/
def renderFan (d : Backdrop α) (parts : List Node) : Drawing α Unit :=
  match parts with
  | [] => return
  | n :: ns => do
      let _ ← saving do
        change (·.toward .down)
        change .clearRails
        render d n false
      renderFan d ns

/-- Draws the items of a sequence. -/
def renderItems (d : Backdrop α) (first : Bool) (parts : List Node) (above : Bool) :
    Drawing α Bool :=
  match parts with
  | [] => return above
  | n :: ns => do
      let flag ← saving do
        change fun c => c.withRails (c.live.useLeft && first) (c.live.useRight && ns.isEmpty)
        render d n above
      renderItems d false ns flag

/-- Draws a part that may be missing. -/
def renderOption (d : Backdrop α) (part : Option Node) (above : Bool) : Drawing α Bool :=
  match part with
  | none => return above
  | some n => render d n above

/-- Draws a part that has to be there. -/
def renderRequired (d : Backdrop α) (part : Option Node) (above : Bool) : Drawing α Bool :=
  match part with
  | none => throw (.unknownNode .render "NoneType")
  | some n => render d n above
end

/-- From a context and a nesting depth the part goes through these events, up to the first fault.  If
there is none, it comes to a result and leaves a context behind, at the same depth. -/
def Does (m : Drawing α β) (c : Context α) (k : Nat) (es : List (Event α)) (b : β)
    (c' : Context α) : Prop :=
  ∀ (d : Backdrop α) (before : Array (Event α)), m.run.run ⟨d, c, k, before⟩ =
    match untilFault es with
    | (es, none) => (.ok b, ⟨d, c', k, before ++ es⟩)
    | (es, some (fault, c, k)) => (.error fault, ⟨d, c, k, before ++ es⟩)

section Steps

variable {γ : Type} {m : Drawing α β} {c c' c'' : Context α} {k : Nat} {es es' : List (Event α)} {b : β}

omit [Scalar α]

/-- Events go on after others that hold no fault, and not after a fault. -/
theorem untilFault_append (es es' : List (Event α)) : untilFault (es ++ es') =
    match (untilFault es).2 with
    | none => (es ++ (untilFault es').1, (untilFault es').2)
    | some fault => ((untilFault es).1, some fault) := by
  induction es with
  | nil => rfl
  | cons e es ih =>
      cases e with
      | fault => rfl
      | call | enter | leave | rail =>
          rw [List.cons_append, untilFault_cons (by simp), untilFault_cons (by simp), ih]
          cases (untilFault es).2 <;> rfl

/-- Either there is no fault among the events, or they end at one. -/
theorem untilFault_cases (es : List (Event α)) :
    untilFault es = (es, none) ∨ ∃ before fault, untilFault es = (before, some fault) := by
  have happend := untilFault_append es []
  rw [List.append_nil] at happend
  cases hfault : (untilFault es).2 with
  | none =>
      left
      rwa [hfault, untilFault, List.append_nil] at happend
  | some fault => exact .inr ⟨_, fault, Prod.ext rfl hfault⟩

theorem run_bind (m : Drawing α β) (f : β → Drawing α γ) (s : DrawingSession α) :
    (m >>= f).run.run s = match m.run.run s with
      | (.ok b, s) => (f b).run.run s
      | (.error fault, s) => (.error fault, s) := by
  rw [ExceptT.run_bind, StateT.run_bind]
  generalize m.run.run s = r
  obtain ⟨r, s⟩ := r
  cases r <;> rfl

namespace Does

theorem pure (b : β) : Does (Pure.pure b : Drawing α β) c k [] b c := by
  intro d before
  simp [untilFault]
  rfl

theorem throw (fault : LayoutFault) (b : β) (c' : Context α) :
    Does (MonadExcept.throw fault : Drawing α β) c k [.fault fault c k] b c' := by
  intro d before
  simp [untilFault]
  rfl

theorem tell (h : ∀ e ∈ es, ∀ f c k, e ≠ .fault f c k) : Does (Drawing.tell es) c k es () c := by
  intro d before
  rw [untilFault_of_noFault h]
  rfl

theorem context : Does (Drawing.context : Drawing α _) c k [] c c := by
  intro d before
  simp [untilFault]
  rfl

theorem depth : Does (Drawing.depth : Drawing α _) c k [] k c := by
  intro d before
  simp [untilFault]
  rfl

theorem change (f : Context α → Context α) : Does (Drawing.change f) c k [] () (f c) := by
  intro d before
  simp [untilFault]
  rfl

theorem of_eq (h : Does m c k es b c') (hes : es = es') : Does m c k es' b c' :=
  hes ▸ h

theorem bind {f : β → Drawing α γ} {g : γ} (h : Does m c k es b c')
    (h' : Does (f b) c' k es' g c'') : Does (m >>= f) c k (es ++ es') g c'' := by
  intro d before
  have happend : ∀ xs : List (Event α), before ++ es ++ xs = before ++ (es ++ xs) := by
    intro xs
    apply Array.ext'
    simp
  rw [run_bind, h d before, untilFault_append]
  rcases untilFault_cases es with hes | ⟨xs, fault, hes⟩
  · simp only [hes]
    rw [h' d (before ++ es)]
    split <;> rename_i hes' <;> simp [hes', happend]
  · -- After a fault the second part is not run.
    simp only [hes]

theorem changed {f : Context α → Context α} {g : Unit → Drawing α β}
    (h : Does (g ()) (f c) k es b c') : Does (Drawing.change f >>= g) c k es b c' :=
  (change f).bind h

theorem asked {g : Context α → Drawing α β} (h : Does (g c) c k es b c') :
    Does (Drawing.context >>= g) c k es b c' :=
  context.bind h

theorem drawn (cs : List (Call α)) (b : β) :
    Does (do Drawing.tell (cs.map .call); return b) c k (cs.map .call) b c :=
  ((tell (by simp)).bind (.pure b)).of_eq (List.append_nil _)

theorem nested (h : Does m c (k + 1) es b c') : Does (Drawing.nested m) c k es b c' := by
  intro d before
  rw [Drawing.nested, run_bind]
  -- The count goes up before the part is run.  After a fault it does not come down again.
  change (m >>= _).run.run ⟨d, c, k + 1, before⟩ = _
  rw [run_bind, h d before]
  rcases untilFault_cases es with hes | ⟨xs, fault, hes⟩
  · rw [hes]
    rfl
  · rw [hes]

theorem saving (c' : Context α) (h : Does m c.push k es b c') (hsaved : c'.saved = c.push.saved) :
    Does (Drawing.saving m) c k es b c := by
  have hrestore : Does (Drawing.restore : Drawing α Unit) c' k [] () c := by
    intro d before
    obtain ⟨live, saved⟩ := c'
    obtain rfl : saved = c.push.saved := hsaved
    simp [untilFault]
    rfl
  rw [Drawing.saving]
  exact ((change .push).bind (h.bind (hrestore.bind (.pure b)))).of_eq (by simp)

theorem framed {origin : Point α} (h : Does m c k es b c') :
    Does (Drawing.framed origin m) c k (Strokes.within origin .call es) b c' := by
  rw [Drawing.framed]
  exact ((tell (by simp)).bind (h.bind ((tell (by simp)).bind (.pure b)))).of_eq
    (by simp [Strokes.within])

theorem visit {n : Node} {above handsBack : Bool} {body : Drawing α Bool}
    (h : Does body c.push (k + 1) es handsBack c') (hsaved : c'.saved = c.push.saved) :
    Does (Drawing.nested (Drawing.saving (do
      Drawing.tell [.enter n c above]
      let handsBack ← body
      Drawing.tell [.leave n handsBack]
      return handsBack))) c k (.enter n c above :: es ++ [.leave n handsBack]) handsBack c := by
  refine (saving c' ?_ hsaved).nested
  exact ((tell (by simp)).bind (h.bind ((tell (by simp)).bind (.pure handsBack)))).of_eq (by simp)

end Does

end Steps

variable {d : Backdrop α} {n : Node} {ns : List Node} {o : Option Node}

/-- What is true of a visit follows from what is drawn inside. -/
theorem visiting_does {c : Context α} {k : Nat} {above : Bool} {inside : Box α → Drawing α Bool}
    {es : Box α → List (Event α)} {handsBack : Box α → Bool}
    (h : ∀ box, ∃ c', c'.saved = c.push.saved ∧
      Does (inside box) c.push (k + 1) (es box) (handsBack box) c')
    (hscene : scene d n c k above =
      if !n.isKnown then ([.fault (.unknownNode .render n.typeName) c k], false)
      else if Metrics.maxDepth ≤ k then ([.fault .tooDeep c k], false)
      else
        match d.table.box? n with
        | none => ([.fault (.noBox n.typeName) c.push (k + 1)], false)
        | some box => (.enter n c above :: es box ++ [.leave n (handsBack box)], handsBack box)) :
    Does (visiting d n above inside) c k (scene d n c k above).1 (scene d n c k above).2 c := by
  rw [hscene, visiting]
  split
  · exact .throw _ _ _
  · refine Does.asked ((Does.depth.bind ?_).of_eq (List.nil_append _))
    split
    · exact .throw _ _ _
    · cases d.table.box? n with
      | none => exact (Does.saving c.push (.throw _ _ _) rfl).nested
      | some box =>
          obtain ⟨c', hsaved, hinside⟩ := h box
          exact hinside.visit hsaved

/-- The program goes through the scene of a tree, and leaves the context as it was. -/
def Plays (d : Backdrop α) (n : Node) : Prop :=
  ∀ (c : Context α) (k : Nat) (above : Bool),
    Does (render d n above) c k (scene d n c k above).1 (scene d n c k above).2 c

section Lists

variable (h : ∀ n ∈ ns, Plays d n) (c : Context α) (k : Nat) (above : Bool)

include h

theorem renderList_does :
    Does (renderList d ns above) c k (sceneList d ns c.push k above).1
      (sceneList d ns c.push k above).2 c := by
  induction ns generalizing above with
  | nil => exact .pure above
  | cons n ns ih =>
      rw [List.forall_mem_cons] at h
      rw [renderList, sceneList]
      exact (Does.saving c.push (h.1 c.push k above) rfl).bind (ih h.2 _)

/-- The rule for a stack opens its rails inside a context of its own. -/
theorem stackRule_does (opener : Node) (box first last : Box α) (boxes : List (Box α)) :
    Does (stackRule box opener above first last boxes (renderList d ns)) c k
      (Strokes.within box.tl .call
        ((openRails (c.translateRails box.tl).push opener first last boxes).2.map .rail ++
          (sceneList d ns (openRails (c.translateRails box.tl).push opener first last boxes).1.push k
            false).1 ++
          (Strokes.stack (c.translateRails box.tl).live above box first last boxes).map .call))
      above (c.translateRails box.tl) := by
  have hbetween := renderList_does h (openRails (c.translateRails box.tl).push opener first last boxes).1
    k false
  refine Does.framed (Does.changed (Does.bind (b := (sceneList d ns (openRails
    (c.translateRails box.tl).push opener first last boxes).1.push k false).2)
    (Does.saving (openRails (c.translateRails box.tl).push opener first last boxes).1 ?_ rfl)
    (Does.asked (Does.drawn _ above))))
  exact Does.asked (Does.changed ((Does.tell (Flawless.rails _).noFault).bind hbetween))

theorem renderFan_does :
    Does (renderFan d ns) c k (sceneFan d ns (c.push.toward .down).clearRails k) () c := by
  induction ns with
  | nil => exact .pure ()
  | cons n ns ih =>
      rw [List.forall_mem_cons] at h
      rw [renderFan, sceneFan]
      have hn : Does (do change (·.toward .down); change .clearRails; render d n false) c.push k _ _ _ :=
        Does.changed (Does.changed (h.1 (c.push.toward .down).clearRails k false))
      exact (Does.saving _ hn rfl).bind (ih h.2)

theorem renderItems_does (first : Bool) :
    Does (renderItems d first ns above) c k (sceneItems d first ns c k above).1
      (sceneItems d first ns c k above).2 c := by
  induction ns generalizing above first with
  | nil => exact .pure above
  | cons n ns ih =>
      rw [List.forall_mem_cons] at h
      rw [renderItems, sceneItems]
      refine (Does.saving (itemContext c first ns.isEmpty) ?_ rfl).bind (ih h.2 _ _)
      exact Does.changed (h.1 (itemContext c first ns.isEmpty) k above)

end Lists

theorem renderOption_does (h : ∀ n ∈ o.toList, Plays d n) (c : Context α) (k : Nat) (above : Bool) :
    Does (renderOption d o above) c k (sceneOption d o c k above).1
      (sceneOption d o c k above).2 c := by
  cases o with
  | none => exact .pure above
  | some n => exact h n List.mem_cons_self c k above

theorem renderRequired_does (h : ∀ n ∈ o.toList, Plays d n) (c : Context α) (k : Nat)
    (above : Bool) : Does (renderRequired d o above) c k (sceneRequired d o c k above).1
      (sceneRequired d o c k above).2 c := by
  cases o with
  | none => exact .throw _ _ _
  | some n => exact h n List.mem_cons_self c k above

theorem plays_of_children (h : ∀ m ∈ n.children, Plays d m) : Plays d n := by
  intro c k above
  -- What the program says is peeled off step by step, until it says what the parts of the scene do.
  cases n with
  | grammar id title productions comment =>
      simp only [Node.children, List.forall_mem_append] at h
      rw [render]
      refine visiting_does (fun box => ⟨c.push.toward .none, rfl, ?_⟩) (scene.eq_def ..)
      refine Does.changed (Does.saving (c.push.toward .none).push (Does.framed ?_) rfl)
      refine ((renderOption_does h.1.1 _ _ _).bind ((renderOption_does h.1.2 _ _ _).bind
        (renderOption_does h.2 _ _ _))).of_eq ?_
      rw [List.append_assoc]
  | productionList id productions =>
      rw [render]
      refine visiting_does (fun box => ⟨c.push.toward .none, rfl, ?_⟩) (scene.eq_def ..)
      exact Does.changed (Does.framed (renderList_does h _ _ _))
  | production id name expression =>
      simp only [Node.children, List.forall_mem_append] at h
      rw [render]
      refine visiting_does (fun box => ⟨_, rfl, ?_⟩) (scene.eq_def ..)
      refine Does.saving (c.push.push.toward .right) (Does.framed ?_) rfl
      refine ((renderRequired_does h.1 _ _ _).bind (Does.changed ((renderRequired_does h.2 _ _ _).bind
        (Does.drawn _ _)))).of_eq ?_
      rw [← List.append_assoc]
  | alternation id alternatives =>
      cases alternatives with
      | nil =>
          rw [render]
          refine visiting_does (fun box => ⟨c.push, rfl, ?_⟩) (scene.eq_def ..)
          exact .throw _ _ _
      | cons a as =>
          rw [render]
          by_cases hfan : Node.isFan (a :: as) = true
          · simp only [if_pos hfan]
            refine visiting_does (fun box => ⟨c.push.translateRails box.tl, rfl, Does.framed
              (Does.changed ((renderFan_does h _ _).bind (Does.asked (Does.drawn _ above))))⟩) ?_
            rw [scene.eq_def]
            simp only [if_pos hfan]
            rfl
          · simp only [if_neg hfan]
            refine visiting_does (fun box => ⟨c.push.translateRails box.tl, rfl,
              stackRule_does h _ _ above _ _ _ _ _⟩) ?_
            rw [scene.eq_def]
            simp only [if_neg hfan]
            rfl
  | sequence id items =>
      rw [render]
      refine visiting_does (fun box => ⟨_, rfl, ?_⟩) (scene.eq_def ..)
      refine Does.framed (Does.saving (c.push.push.translateRails box.tl) ?_ rfl)
      exact Does.changed (renderItems_does h _ _ _ _)
  | repetition id body =>
      rw [render]
      refine visiting_does (fun box => ⟨_, rfl, ?_⟩) (scene.eq_def ..)
      refine Does.bind (Does.saving c.push.push.clearRails.reverse ?_ rfl)
        (Does.asked (Does.drawn _ false))
      exact Does.changed (Does.framed (Does.changed (renderRequired_does h _ _ true)))
  | oneOrMore id body separator =>
      simp only [Node.children, List.forall_mem_append] at h
      cases separator with
      | none =>
          rw [render]
          refine visiting_does (fun box => ⟨_, rfl, ?_⟩) (scene.eq_def ..)
          refine Does.saving (c.push.push.translateRails box.tl).clearRails
            (Does.framed (Does.changed (Does.changed ?_))) rfl
          exact (renderRequired_does h.1 _ _ false).bind (Does.asked (Does.drawn _ false))
      | some separator =>
          rw [render]
          refine visiting_does (fun box => ⟨_, rfl, ?_⟩) (scene.eq_def ..)
          refine Does.saving (c.push.push.translateRails box.tl).clearRails.reverse
            (Does.framed (Does.changed (Does.changed ?_))) rfl
          refine ((renderRequired_does h.1 _ _ false).bind (Does.changed
            ((h.2 separator List.mem_cons_self _ _ _).bind (Does.drawn _ false)))).of_eq ?_
          rw [← List.append_assoc]
  | optional id body =>
      rw [render]
      refine visiting_does (fun box => ⟨_, rfl, ?_⟩) (scene.eq_def ..)
      refine Does.bind (Does.saving (c.push.push.translateRails box.tl).clearRails ?_ rfl)
        (Does.asked (Does.drawn _ false))
      exact Does.framed (Does.changed (Does.changed (renderRequired_does h _ _ true)))
  | literal | identifier | other =>
      rw [render]
      refine visiting_does (fun box => ⟨_, rfl, ?_⟩) (scene.eq_def ..)
      exact Does.asked (Does.drawn _ false)
  | foreign =>
      rw [render]
      exact visiting_does (fun box => ⟨_, rfl, .pure false⟩) (scene.eq_def ..)

theorem plays (d : Backdrop α) (n : Node) : Plays d n := by
  induction n using Node.descend with
  | _ n ih => exact plays_of_children ih

/-- The program draws what is drawn, from any session, and leaves the same session behind. -/
theorem render_eq_draw (s : DrawingSession α) (n : Node) (above : Bool) :
    (render s.backdrop n above).run.run s = s.draw n above :=
  plays s.backdrop n s.context s.nesting above s.backdrop s.events

end Drawing

end Railroad
