import Railroad.Proofs.Drawing.Flawless
import Railroad.Surface.Reply
/-!
Where the events of a drawing happen: the origins that are in force, the nodes that have been entered and
not been left, and the rails that these have opened.

A node is entered in a scope and in a context.  Within it the entrances of its children follow, and then its
own strokes; so all that a drawing shows is shown by the entrances that one comes to from node to child.
-/
namespace Railroad

variable {α : Type}

/-- A node that has been entered and not been left: the context it is drawn in, the origin at which it
was entered, and the rails it has opened, in absolute coordinates, the last first. -/
structure Opened (α : Type) where
  node : Node
  context : Context α
  origin : Point α
  rails : List (RailSpan α)

/-- What is in force at a moment of a drawing: the origins, and the open nodes, the innermost first. -/
structure Scope (α : Type) where
  origins : Origins α
  opened : List (Opened α)

/-- A node that is entered in a scope, in a context, with a flag from the node above. -/
structure Entrance (α : Type) where
  scope : Scope α
  node : Node
  context : Context α
  above : Bool

/-- The calls that leave the origins alone. -/
def Call.isStill : Call α → Bool
  | .primitive (.pushTranslate _) | .primitive .popTranslate => false
  | _ => true

/-- The events that show something: entrances, and calls that draw. -/
def Event.isSight : Event α → Bool
  | .enter .. => true
  | .call c => c.isStill
  | _ => false

/-- The calls that draw lines: composites, and circles. -/
def Call.isLine : Call α → Bool
  | .composite _ | .primitive (.circle ..) => true
  | _ => false

theorem Call.eq_of_isLine {c : Call α} (h : c.isLine = true) :
    (∃ d, c = .composite d) ∨ ∃ x y r style, c = .primitive (.circle x y r style) := by
  cases c with
  | composite d => exact .inl ⟨d, rfl⟩
  | primitive p =>
      cases p with
      | circle x y r style => exact .inr ⟨x, y, r, style, rfl⟩
      | _ => cases h

theorem isStill_of_isLine {cs : List (Call α)} (h : ∀ c ∈ cs, c.isLine = true) :
    ∀ c ∈ cs, c.isStill = true := by
  intro c hc
  obtain ⟨d, rfl⟩ | ⟨x, y, r, style, rfl⟩ := c.eq_of_isLine (h c hc) <;> rfl

section Lines

variable [Scalar α] {box body separator name expression first last : Box α}
  {alternatives : List (Box α)} {direction : Direction} {above : Bool} {s : Surroundings α}

omit [Scalar α] in
@[simp] theorem isLine_composite (c : Composite α) : (Call.composite c).isLine = true := rfl

namespace Strokes

@[simp] theorem isLine_connect (leaving : Direction) (p q : Point α) (arriving : Direction) :
    (connect leaving p q arriving).isLine = true := rfl

omit [Scalar α] in
@[simp] theorem isLine_hline (p q : Point α) : (hline p q).isLine = true := rfl

omit [Scalar α] in
@[simp] theorem isLine_vline (p q : Point α) : (vline p q).isLine = true := rfl

@[simp] theorem isLine_forwardArrow : (forwardArrow direction box).isLine = true := rfl

theorem isLine_production : ∀ c ∈ production name expression, c.isLine = true := by
  simp only [production, List.forall_mem_cons]
  exact ⟨rfl, rfl, rfl, by simp⟩

theorem isLine_fan : ∀ c ∈ fan direction above box first last alternatives, c.isLine = true := by
  rw [fan]
  split
  · refine List.forall_mem_append.mpr ⟨?_, forall_mem_mapIdx fun i b _ => ?_⟩
    · cases above <;> simp
    · split <;> split <;> simp
  · refine List.forall_mem_append.mpr ⟨?_, forall_mem_mapIdx fun i b _ => ?_⟩
    · cases above <;> simp
    · split <;> split <;> simp

theorem isLine_stack : ∀ c ∈ stack s above box first last alternatives, c.isLine = true := by
  refine List.forall_mem_append.mpr ⟨List.forall_mem_append.mpr ⟨?_, ?_⟩, ?_⟩
  · cases above <;> cases s.useLeft <;> cases s.useRight <;> simp
  · cases above <;> cases s.useLeft <;> cases s.useRight <;> simp
  · intro c hc
    obtain ⟨b, -, hc⟩ := List.mem_flatMap.mp hc
    simp only [List.mem_cons, List.not_mem_nil, or_false] at hc
    rcases hc with rfl | rfl <;> rfl

theorem isLine_repetition : ∀ c ∈ repetition direction above box body, c.isLine = true := by
  cases above <;> simp [repetition]

theorem isLine_loop : ∀ c ∈ loop direction box body, c.isLine = true := by
  simp [loop]

theorem isLine_separatedLoop : ∀ c ∈ separatedLoop box body separator, c.isLine = true := by
  simp [separatedLoop]

theorem isLine_optional : ∀ c ∈ optional s above box body, c.isLine = true := by
  simp only [optional]
  cases above <;> cases s.useLeft <;> cases s.useRight <;> simp

omit [Scalar α] in
theorem LeafArrow.isLine {arrow : List (Call α)} (h : LeafArrow direction arrow) :
    ∀ c ∈ arrow, c.isLine = true := by
  cases h <;> simp

theorem isStill_leaf {isLinked isPlain : Bool} {style : Style} {text : String} :
    ∀ c ∈ leaf direction isLinked isPlain style box text, c.isStill = true := by
  obtain ⟨arrow, look, hleaf, harrow, hlook⟩ := exists_leaf direction isLinked isPlain style box text
  rw [hleaf]
  generalize lookOf direction style = style at hlook
  refine List.forall_mem_append.mpr ⟨isStill_of_isLine harrow.isLine, ?_⟩
  cases hlook <;> simp [Call.isStill]

end Strokes

end Lines

def RailSpan.translate [Scalar α] (r : RailSpan α) (p : Point α) : RailSpan α :=
  { r with x := r.x + p.x, top := r.top + p.y, bottom := r.bottom + p.y }

namespace Scope

variable [Scalar α] (σ : Scope α)

def enter (n : Node) (c : Context α) : Scope α :=
  { σ with opened := ⟨n, c, σ.origins.current, []⟩ :: σ.opened }

def leave : Scope α :=
  { σ with opened := σ.opened.tail }

def push (origin : Point α) : Scope α :=
  { σ with origins := σ.origins.push origin }

def pop : Scope α :=
  match σ.origins.pop with
  | .ok origins => { σ with origins }
  | .error _ => σ

def addRail (r : RailSpan α) : Scope α :=
  { σ with opened := σ.opened.modifyHead fun o =>
      { o with rails := r.translate σ.origins.current :: o.rails } }

/-- What is in force after an event. -/
def after : Event α → Scope α
  | .call (.primitive (.pushTranslate origin)) => σ.push origin
  | .call (.primitive .popTranslate) => σ.pop
  | .enter n c _ => σ.enter n c
  | .leave .. => σ.leave
  | .rail r => σ.addRail r
  | .call _ | .fault .. => σ

def run (es : List (Event α)) : Scope α :=
  es.foldl after σ

end Scope

/-- The events with what is in force at each of them. -/
def inScope [Scalar α] (σ : Scope α) : List (Event α) → List (Scope α × Event α)
  | [] => []
  | e :: es => (σ, e) :: inScope (σ.after e) es

/-- What the events show, and where. -/
def sights [Scalar α] (σ : Scope α) (es : List (Event α)) : List (Scope α × Event α) :=
  (inScope σ es).filter (·.2.isSight)

/-- The rails that the events open, with the origins in force. -/
def openings [Scalar α] (σ : Scope α) (es : List (Event α)) : List (Origins α × RailSpan α) :=
  (inScope σ es).filterMap fun
    | (σ, .rail r) => some (σ.origins, r)
    | _ => none

section Runs

variable [Scalar α] {σ : Scope α} {es es' : List (Event α)} {cs : List (Call α)}

@[simp] theorem run_nil : σ.run [] = σ := rfl

@[simp] theorem run_cons (e : Event α) : σ.run (e :: es) = (σ.after e).run es := rfl

@[simp] theorem run_append : σ.run (es ++ es') = (σ.run es).run es' := List.foldl_append

@[simp] theorem sights_nil : sights σ [] = [] := rfl

theorem inScope_append : inScope σ (es ++ es') = inScope σ es ++ inScope (σ.run es) es' := by
  induction es generalizing σ with
  | nil => rfl
  | cons e es ih => rw [List.cons_append, inScope, ih, inScope, List.cons_append, run_cons]

theorem exists_mem_inScope {e : Event α} (h : e ∈ es) : ∃ ρ, (ρ, e) ∈ inScope σ es := by
  induction h generalizing σ with
  | head => exact ⟨σ, List.mem_cons_self⟩
  | tail _ _ ih =>
      obtain ⟨ρ, hρ⟩ := ih
      exact ⟨ρ, List.mem_cons_of_mem _ hρ⟩

@[simp] theorem sights_append : sights σ (es ++ es') = sights σ es ++ sights (σ.run es) es' := by
  rw [sights, inScope_append, List.filter_append]
  rfl

theorem sights_cons_of_isSight {e : Event α} (he : e.isSight = true) :
    sights σ (e :: es) = (σ, e) :: sights (σ.after e) es :=
  List.filter_cons_of_pos he

theorem sights_cons_of_not {e : Event α} (he : e.isSight = false) :
    sights σ (e :: es) = sights (σ.after e) es :=
  List.filter_cons_of_neg (by simp [he])

theorem mem_sights_iff {x : Scope α × Event α} :
    x ∈ sights σ es ↔ x ∈ inScope σ es ∧ x.2.isSight = true := List.mem_filter

theorem mem_openings_of_mem_inScope {ρ : Scope α} {r : RailSpan α} (h : (ρ, .rail r) ∈ inScope σ es) :
    (ρ.origins, r) ∈ openings σ es :=
  List.mem_filterMap.mpr ⟨_, h, rfl⟩

@[simp] theorem openings_nil : openings σ [] = [] := rfl

@[simp] theorem openings_append :
    openings σ (es ++ es') = openings σ es ++ openings (σ.run es) es' := by
  rw [openings, inScope_append, List.filterMap_append]
  rfl

theorem openings_cons_of_not {e : Event α} (he : ∀ r, e ≠ .rail r) :
    openings σ (e :: es) = openings (σ.after e) es := by
  cases e with
  | rail r => exact absurd rfl (he r)
  | call | enter | leave | fault => rfl

@[simp] theorem openings_calls (cs : List (Call α)) : openings σ (cs.map .call) = [] := by
  induction cs generalizing σ with
  | nil => rfl
  | cons c cs ih => exact ih

theorem openings_rails (rs : List (RailSpan α)) :
    openings σ (rs.map .rail) = rs.map (σ.origins, ·) := by
  induction rs generalizing σ with
  | nil => rfl
  | cons r rs ih => exact congrArg _ ih

theorem after_of_isStill {c : Call α} (hc : c.isStill = true) : σ.after (.call c) = σ := by
  cases c with
  | composite => rfl
  | primitive p =>
      cases p with
      | pushTranslate | popTranslate => cases hc
      | _ => rfl

theorem run_calls (h : ∀ c ∈ cs, c.isStill = true) : σ.run (cs.map .call) = σ := by
  induction cs with
  | nil => rfl
  | cons c cs ih =>
      rw [List.forall_mem_cons] at h
      rw [List.map_cons, run_cons, after_of_isStill h.1, ih h.2]

theorem sights_calls (h : ∀ c ∈ cs, c.isStill = true) :
    sights σ (cs.map .call) = cs.map (σ, .call ·) := by
  induction cs with
  | nil => rfl
  | cons c cs ih =>
      rw [List.forall_mem_cons] at h
      rw [List.map_cons, sights_cons_of_isSight (e := .call c) h.1, after_of_isStill h.1, ih h.2]
      rfl

@[simp] theorem sights_rails (rs : List (RailSpan α)) : sights σ (rs.map .rail) = [] := by
  induction rs generalizing σ with
  | nil => rfl
  | cons r rs ih => exact ih

theorem run_rails (o : Origins α) (p : Opened α) (ps : List (Opened α)) (rs : List (RailSpan α)) :
    Scope.run ⟨o, p :: ps⟩ (rs.map .rail) =
      ⟨o, { p with rails := (rs.map (·.translate o.current)).reverse ++ p.rails } :: ps⟩ := by
  induction rs generalizing p with
  | nil => rfl
  | cons r rs ih =>
      refine (ih { p with rails := r.translate o.current :: p.rails }).trans ?_
      simp

end Runs

variable [Scalar α]

namespace Entrance

variable (d : Backdrop α) (e : Entrance α)

def scene (k : Nat) : List (Event α) :=
  (Railroad.scene d e.node e.context k e.above).1

def sights (k : Nat) : List (Scope α × Event α) :=
  Railroad.sights e.scope (e.scene d k)

def openings (k : Nat) : List (Origins α × RailSpan α) :=
  Railroad.openings e.scope (e.scene d k)

/-- The scope once the node is open. -/
def entered : Scope α :=
  e.scope.enter e.node e.context

/-- The context of the node, with its rails measured in the frame of its box. -/
def framed : Context α :=
  e.context.push.translateRails (d.box e.node).tl

/-- The context between the rails of alternatives that are stacked, and the rails that are opened for
them. -/
def railed (a : Node) (as : List Node) : Context α × List (RailSpan α) :=
  let boxes := (a :: as).map d.box
  openRails (e.framed d).push e.node (d.box a) (boxes.getLast?.getD (d.box a)) boxes

/-- The rails that the node opens, in its own frame. -/
def spans : List (RailSpan α) :=
  match e.node with
  | .alternation _ (a :: as) => if Node.isFan (a :: as) then [] else (e.railed d a as).2
  | _ => []

/-- The scope within the frame of the node, in which its children are entered. -/
def within : Scope α :=
  (e.entered.push (d.box e.node).tl).run ((e.spans d).map .rail)

def items (σ : Scope α) (c : Context α) (first : Bool) : List Node → List (Entrance α)
  | [] => []
  | n :: ns => ⟨σ, n, itemContext c first ns.isEmpty, false⟩ :: items σ c false ns

def onward : List (Entrance α) :=
  let c := e.context.push
  let σ := e.within d
  match e.node with
  | .grammar _ title productions comment =>
      (title.toList ++ productions.toList ++ comment.toList).map
        (⟨σ, ·, (c.toward .none).push, false⟩)
  | .productionList _ productions => productions.map (⟨σ, ·, (c.toward .none).push, false⟩)
  | .production _ name expression =>
      name.toList.map (⟨σ, ·, c.push, false⟩) ++
        expression.toList.map (⟨σ, ·, c.push.toward .right, false⟩)
  | .alternation _ [] => []
  | .alternation _ (a :: as) =>
      let inner :=
        if Node.isFan (a :: as) then ((e.framed d).push.toward .down).clearRails
        else (e.railed d a as).1.push
      (a :: as).map (⟨σ, ·, inner, false⟩)
  | .sequence _ ns => items σ (c.push.translateRails (d.box e.node).tl) true ns
  | .repetition _ body => body.toList.map (⟨σ, ·, c.push.clearRails.reverse, true⟩)
  | .oneOrMore _ body separator =>
      let inner := (c.push.translateRails (d.box e.node).tl).clearRails
      body.toList.map (⟨σ, ·, inner, false⟩) ++
        separator.toList.map (⟨σ, ·, inner.reverse, false⟩)
  | .optional _ body =>
      body.toList.map (⟨σ, ·, (c.push.translateRails (d.box e.node).tl).clearRails, true⟩)
  | .literal .. | .identifier .. | .other .. | .foreign .. => []

/-- The scope in which the node itself is drawn: in its own frame, or in that of the node above. -/
def pen : Scope α :=
  match e.node with
  | .repetition .. | .optional .. | .literal .. | .identifier .. | .other .. => e.entered
  | _ => e.within d

/-- The flag that the body of the node hands back, if it has one. -/
def bodyFlag (body : Option Node) : Bool :=
  (body.map Node.isAlternation).getD false

/-- What the node itself draws. -/
def strokes : List (Call α) :=
  let b := d.box e.node
  let direction := e.context.live.direction
  match e.node with
  | .production _ name expression =>
      Strokes.production (d.boxOption name) (d.boxOption expression)
  | .alternation _ (a :: as) =>
      let boxes := (a :: as).map d.box
      let last := boxes.getLast?.getD (d.box a)
      if Node.isFan (a :: as) then Strokes.fan direction e.above b (d.box a) last boxes
      else Strokes.stack (e.framed d).live e.above b (d.box a) last boxes
  | .repetition _ body => Strokes.repetition direction (bodyFlag body) b (d.boxOption body)
  | .oneOrMore _ body none => Strokes.loop direction b (d.boxOption body)
  | .oneOrMore _ body (some separator) =>
      Strokes.separatedLoop b (d.boxOption body) (d.box separator)
  | .optional _ body => Strokes.optional e.context.live (bodyFlag body) b (d.boxOption body)
  | .literal _ text _ => Strokes.leaf direction false false (.ofLeaf e.node) b text
  | .identifier _ text =>
      Strokes.leaf direction (d.links.contains text) false (.ofLeaf e.node) b text
  | .other _ text => Strokes.leaf direction false true (.ofLeaf e.node) b text
  | .grammar .. | .productionList .. | .alternation _ [] | .sequence .. | .foreign .. => []

/-- A node that is no leaf draws nothing but lines. -/
theorem isLine_strokes (hleaf : e.node.isLeaf = false) : ∀ c ∈ e.strokes d, c.isLine = true := by
  obtain ⟨σ, n, c, above⟩ := e
  cases n with
  | production => exact Strokes.isLine_production
  | alternation id alternatives =>
      cases alternatives with
      | nil => simp [strokes]
      | cons a as =>
          simp only [strokes]
          split
          · exact Strokes.isLine_fan
          · exact Strokes.isLine_stack
  | repetition => exact Strokes.isLine_repetition
  | oneOrMore id body separator =>
      cases separator with
      | none => exact Strokes.isLine_loop
      | some separator => exact Strokes.isLine_separatedLoop
  | optional => exact Strokes.isLine_optional
  | grammar | productionList | sequence | foreign => simp [strokes]
  | literal | identifier | other => cases hleaf

/-- What is seen of the node itself: that it is entered, and its strokes. -/
def Shows (x : Scope α × Event α) : Prop :=
  x = (e.scope, .enter e.node e.context e.above) ∨ ∃ c ∈ e.strokes d, x = (e.pen d, .call c)

end Entrance

section Children

variable {d : Backdrop α}

omit [Scalar α] in
theorem Entrance.map_node_items (σ : Scope α) (c : Context α) (first : Bool) (ns : List Node) :
    (Entrance.items σ c first ns).map Entrance.node = ns := by
  induction ns generalizing first with
  | nil => rfl
  | cons n ns ih => rw [items, List.map_cons, ih]

theorem Entrance.map_node_onward (e : Entrance α) : (e.onward d).map Entrance.node = e.node.children := by
  have hmap : ∀ (ns : List Node) (σ : Scope α) (c : Context α) (above : Bool),
      (ns.map (Entrance.mk σ · c above)).map Entrance.node = ns := by
    intro ns σ c above
    rw [List.map_map]
    exact List.map_id ns
  obtain ⟨σ, n, c, above⟩ := e
  cases n with
  | alternation _ as => cases as <;> simp only [onward, hmap, Node.children, List.map_nil]
  | sequence => exact map_node_items _ _ _ _
  | production | oneOrMore => simp only [onward, List.map_append, hmap, Node.children]
  | grammar | productionList | repetition | optional => exact hmap _ _ _ _
  | literal | identifier | other | foreign => rfl

theorem Entrance.node_mem_children {e e' : Entrance α} (h : e' ∈ e.onward d) :
    e'.node ∈ e.node.children := by
  rw [← e.map_node_onward]
  exact List.mem_map_of_mem h

end Children

/-- The scene of an entrance hands back what an alternation is entered with, and leaves everything in force
as it was. -/
structure Entrance.Steady (d : Backdrop α) (k : Nat) (e : Entrance α) : Prop where
  flag : (Railroad.scene d e.node e.context k e.above).2 = (e.node.isAlternation && e.above)
  run : e.scope.run (e.scene d k) = e.scope

/-- Events in a scope that are the scenes of some entrances. -/
structure Plays (d : Backdrop α) (k : Nat) (σ : Scope α) (es : List (Event α))
    (entrances : List (Entrance α)) : Prop where
  run : σ.run es = σ
  sights : sights σ es = entrances.flatMap (·.sights d k)
  openings : openings σ es = entrances.flatMap (·.openings d k)

section Lists

variable {d : Backdrop α} {k : Nat} {σ : Scope α} {c : Context α} {ns : List Node} {o : Option Node}
  {es es' : List (Event α)} {xs xs' : List (Entrance α)}

theorem Plays.nil : Plays d k σ [] [] :=
  ⟨rfl, rfl, rfl⟩

theorem Plays.append (h : Plays d k σ es xs) (h' : Plays d k σ es' xs') :
    Plays d k σ (es ++ es') (xs ++ xs') where
  run := by rw [run_append, h.run, h'.run]
  sights := by rw [sights_append, h.run, h.sights, h'.sights, List.flatMap_append]
  openings := by rw [openings_append, h.run, h.openings, h'.openings, List.flatMap_append]

theorem Entrance.Steady.plays {e : Entrance α} (h : e.Steady d k) (hs : e.scope = σ) :
    Plays d k σ (e.scene d k) [e] := by
  subst hs
  exact ⟨h.run, (List.append_nil _).symm, (List.append_nil _).symm⟩

theorem sceneList_plays (h : ∀ e ∈ ns.map (Entrance.mk σ · c false), e.Steady d k) :
    (sceneList d ns c k false).2 = false ∧
      Plays d k σ (sceneList d ns c k false).1 (ns.map (⟨σ, ·, c, false⟩)) := by
  induction ns with
  | nil => exact ⟨rfl, .nil⟩
  | cons n ns ih =>
      rw [List.map_cons, List.forall_mem_cons] at h
      obtain ⟨hflags, hplays⟩ := ih h.2
      have hflag := h.1.flag
      rw [Bool.and_false] at hflag
      dsimp only at hflag
      rw [sceneList]
      simp only [hflag]
      exact ⟨hflags, (h.1.plays rfl).append hplays⟩

theorem sceneFan_plays (h : ∀ e ∈ ns.map (Entrance.mk σ · c false), e.Steady d k) :
    Plays d k σ (sceneFan d ns c k) (ns.map (⟨σ, ·, c, false⟩)) := by
  induction ns with
  | nil => exact .nil
  | cons n ns ih =>
      rw [List.map_cons, List.forall_mem_cons] at h
      rw [sceneFan]
      exact (h.1.plays rfl).append (ih h.2)

theorem sceneItems_plays {first : Bool} (h : ∀ e ∈ Entrance.items σ c first ns, e.Steady d k) :
    (sceneItems d first ns c k false).2 = false ∧
      Plays d k σ (sceneItems d first ns c k false).1 (Entrance.items σ c first ns) := by
  induction ns generalizing first with
  | nil => exact ⟨rfl, .nil⟩
  | cons n ns ih =>
      rw [Entrance.items, List.forall_mem_cons] at h
      obtain ⟨hflags, hplays⟩ := ih h.2
      have hflag := h.1.flag
      rw [Bool.and_false] at hflag
      dsimp only at hflag
      rw [sceneItems]
      simp only [hflag]
      exact ⟨hflags, (h.1.plays rfl).append hplays⟩

theorem sceneOption_plays (h : ∀ e ∈ o.toList.map (Entrance.mk σ · c false), e.Steady d k) :
    (sceneOption d o c k false).2 = false ∧
      Plays d k σ (sceneOption d o c k false).1 (o.toList.map (⟨σ, ·, c, false⟩)) := by
  cases o with
  | none => exact ⟨rfl, .nil⟩
  | some n =>
      have hn := h _ List.mem_cons_self
      exact ⟨hn.flag.trans (Bool.and_false _), hn.plays rfl⟩

theorem sceneRequired_plays {above : Bool} (hsome : o.isSome = true)
    (h : ∀ e ∈ o.toList.map (Entrance.mk σ · c above), e.Steady d k) :
    (sceneRequired d o c k above).2 = (Entrance.bodyFlag o && above) ∧
      Plays d k σ (sceneRequired d o c k above).1 (o.toList.map (⟨σ, ·, c, above⟩)) := by
  cases o with
  | none => cases hsome
  | some n =>
      have hn := h _ List.mem_cons_self
      exact ⟨hn.flag, hn.plays rfl⟩

end Lists

/-- The scene of an entrance shows that its node is entered, then what the entrances of the children show, and
then the strokes of the node.  The rails that it opens are those of the node and then those of the children. -/
structure Entrance.Unfolds (d : Backdrop α) (k : Nat) (e : Entrance α) : Prop extends e.Steady d k where
  sights : e.sights d k = (e.scope, .enter e.node e.context e.above) ::
    (e.onward d).flatMap (·.sights d (k + 1)) ++ (e.strokes d).map (e.pen d, .call ·)
  openings : e.openings d k = (e.spans d).map ((e.within d).origins, ·) ++
    (e.onward d).flatMap (·.openings d (k + 1))

section Visits

variable {d : Backdrop α} {k : Nat} {e : Entrance α} {es : List (Event α)} {flag : Bool}

theorem run_visit (σ : Scope α) (n : Node) (c : Context α) (above : Bool) :
    σ.run (.enter n c above :: es ++ [.leave n flag]) = ((σ.enter n c).run es).leave :=
  run_append

theorem sights_visit (σ : Scope α) (n : Node) (c : Context α) (above : Bool) :
    sights σ (.enter n c above :: es ++ [.leave n flag]) =
      (σ, .enter n c above) :: sights (σ.enter n c) es := by
  rw [List.cons_append, sights_cons_of_isSight rfl, sights_append]
  exact congrArg _ (List.append_nil _)

theorem openings_visit (σ : Scope α) (n : Node) (c : Context α) (above : Bool) :
    openings σ (.enter n c above :: es ++ [.leave n flag]) = openings (σ.enter n c) es := by
  rw [List.cons_append, openings_cons_of_not (by simp), openings_append]
  exact List.append_nil _

theorem run_within (σ : Scope α) (origin : Point α) :
    σ.run (Strokes.within origin Event.call es) = ((σ.push origin).run es).pop :=
  run_append

theorem sights_within (σ : Scope α) (origin : Point α) :
    sights σ (Strokes.within origin Event.call es) = sights (σ.push origin) es := by
  rw [Strokes.within, List.cons_append, sights_cons_of_not rfl, sights_append]
  exact List.append_nil _

theorem openings_within (σ : Scope α) (origin : Point α) :
    openings σ (Strokes.within origin Event.call es) = openings (σ.push origin) es := by
  rw [Strokes.within, List.cons_append, openings_cons_of_not (by simp), openings_append]
  exact List.append_nil _

theorem Entrance.within_eq : e.within d =
    ⟨e.scope.origins.push (d.box e.node).tl, ⟨e.node, e.context, e.scope.origins.current,
      ((e.spans d).map (·.translate (e.scope.origins.push (d.box e.node).tl).current)).reverse⟩ ::
        e.scope.opened⟩ := by
  refine (run_rails _ _ _ _).trans ?_
  rw [List.append_nil]
  rfl

/-- What a node draws is drawn while it is the innermost open one. -/
theorem Entrance.opened_pen : ∃ rails, (e.pen d).opened =
    ⟨e.node, e.context, e.scope.origins.current, rails⟩ :: e.scope.opened := by
  obtain ⟨σ, n, c, above⟩ := e
  cases n with
  | repetition | optional | literal | identifier | other => exact ⟨_, rfl⟩
  | _ => exact ⟨_, congrArg Scope.opened (within_eq (d := d))⟩

theorem Entrance.leave_pop_within : (e.within d).pop.leave = e.scope := by
  rw [within_eq]
  rfl

/-- A node that draws in its own frame. -/
theorem Entrance.unfolds_inside
    (hscene : Railroad.scene d e.node e.context k e.above =
      (.enter e.node e.context e.above :: Strokes.within (d.box e.node).tl Event.call
        ((e.spans d).map .rail ++ (es ++ (e.strokes d).map .call)) ++ [.leave e.node flag], flag))
    (hflag : flag = (e.node.isAlternation && e.above)) (hpen : e.pen d = e.within d)
    (hleaf : e.node.isLeaf = false) (hes : Plays d (k + 1) (e.within d) es (e.onward d)) :
    e.Unfolds d k where
  flag := by rw [hscene, hflag]
  run := by
    have hstill := isStill_of_isLine (e.isLine_strokes d hleaf)
    rw [scene, hscene, run_visit, run_within, run_append, run_append]
    change (((e.within d).run es).run _).pop.leave = _
    rw [hes.run, run_calls hstill, leave_pop_within]
  sights := by
    have hstill := isStill_of_isLine (e.isLine_strokes d hleaf)
    rw [sights, scene, hscene, sights_visit, sights_within, sights_append, sights_rails,
      List.nil_append, sights_append]
    change _ :: (Railroad.sights (e.within d) es ++ Railroad.sights ((e.within d).run es) _) = _
    rw [hes.run, hes.sights, sights_calls hstill, hpen]
    rfl
  openings := by
    rw [openings, scene, hscene, openings_visit, openings_within, openings_append, openings_rails,
      openings_append, openings_calls, List.append_nil]
    change (e.spans d).map _ ++ Railroad.openings (e.within d) es = _
    rw [hes.openings, within_eq]
    rfl

/-- A node that is drawn in the frame of the node above. -/
theorem Entrance.unfolds_outside
    (hscene : Railroad.scene d e.node e.context k e.above =
      (.enter e.node e.context e.above :: (Strokes.within (d.box e.node).tl Event.call es ++
        (e.strokes d).map .call) ++ [.leave e.node flag], flag))
    (hflag : flag = (e.node.isAlternation && e.above)) (hspans : e.spans d = [])
    (hpen : e.pen d = e.entered) (hleaf : e.node.isLeaf = false)
    (hes : Plays d (k + 1) (e.within d) es (e.onward d)) : e.Unfolds d k := by
  have hstill := isStill_of_isLine (e.isLine_strokes d hleaf)
  have hwithin : e.within d = e.entered.push (d.box e.node).tl := by
    rw [within, hspans]
    rfl
  have hback : (e.within d).pop = e.entered := by
    rw [hwithin]
    rfl
  refine ⟨⟨by rw [hscene, hflag], ?_⟩, ?_, ?_⟩
  · rw [scene, hscene, run_visit, run_append, run_within]
    change Scope.leave (Scope.run ((e.entered.push _).run es).pop _) = _
    rw [← hwithin, hes.run, hback, run_calls hstill]
    rfl
  · rw [sights, scene, hscene, sights_visit, sights_append, sights_within, run_within]
    change _ :: (Railroad.sights (e.entered.push _) es ++
      Railroad.sights ((e.entered.push _).run es).pop _) = _
    rw [← hwithin, hes.run, hback, hes.sights, sights_calls hstill, hpen]
    rfl
  · rw [openings, scene, hscene, openings_visit, openings_append, openings_within, openings_calls,
      List.append_nil, hspans]
    change Railroad.openings (e.entered.push _) es = _
    rw [← hwithin, hes.openings]
    rfl

theorem Entrance.unfolds_leaf
    (hscene : Railroad.scene d e.node e.context k e.above =
      (.enter e.node e.context e.above :: (e.strokes d).map .call ++ [.leave e.node flag], flag))
    (hflag : flag = (e.node.isAlternation && e.above)) (hpen : e.pen d = e.entered)
    (hstill : ∀ c ∈ e.strokes d, c.isStill = true) (hspans : e.spans d = [])
    (honward : e.onward d = []) : e.Unfolds d k where
  flag := by rw [hscene, hflag]
  run := by
    rw [scene, hscene, run_visit, run_calls hstill]
    rfl
  sights := by
    rw [sights, scene, hscene, sights_visit, sights_calls hstill, honward, hpen]
    rfl
  openings := by
    rw [openings, scene, hscene, openings_visit, openings_calls, hspans, honward]
    rfl

/-- An alternation, be it drawn as a fan or as a stack. -/
theorem Entrance.unfolds_alternation {id : Nat} {a : Node} {as : List Node}
    (hnode : e.node = .alternation id (a :: as)) (hbox : d.table.box? e.node = some (d.box e.node))
    (hk : k < Metrics.maxDepth) (h : ∀ e' ∈ e.onward d, e'.Steady d (k + 1)) : e.Unfolds d k := by
  obtain ⟨σ, n, c, above⟩ := e
  dsimp only at hnode hbox
  subst hnode
  have hscene := Railroad.scene.eq_def d (.alternation id (a :: as)) c k above
  rw [if_neg (by simp [Node.isKnown]), if_neg (by omega), hbox] at hscene
  by_cases hfan : Node.isFan (a :: as) = true
  · simp only [hfan, if_true] at hscene
    simp only [onward, hfan, if_true] at h
    have hplays := sceneFan_plays h
    refine unfolds_inside (hscene.trans ?_) (Bool.true_and above).symm rfl rfl
      (by simpa only [onward, hfan, if_true] using hplays)
    simp [spans, strokes, hfan, framed, Context.push, Context.translateRails, Context.withLive]
  · simp only [hfan, Bool.false_eq_true, if_false] at hscene
    simp only [onward, hfan, Bool.false_eq_true, if_false] at h
    have hplays := (sceneList_plays h).2
    refine unfolds_inside (hscene.trans ?_) (Bool.true_and above).symm rfl rfl
      (by simpa only [onward, hfan, Bool.false_eq_true, if_false] using hplays)
    simp [spans, strokes, hfan, framed, railed]

/-- A loop, with a separator on the way back or without. -/
theorem Entrance.unfolds_loop {id : Nat} {body separator : Option Node}
    (hnode : e.node = .oneOrMore id body separator) (hbody : body.isSome = true)
    (hbox : d.table.box? e.node = some (d.box e.node)) (hk : k < Metrics.maxDepth)
    (h : ∀ e' ∈ e.onward d, e'.Steady d (k + 1)) : e.Unfolds d k := by
  obtain ⟨σ, n, c, above⟩ := e
  dsimp only at hnode hbox
  subst hnode
  have hscene := Railroad.scene.eq_def d (.oneOrMore id body separator) c k above
  rw [if_neg (by simp [Node.isKnown]), if_neg (by omega), hbox] at hscene
  rw [onward] at h
  simp only [List.forall_mem_append] at h
  obtain ⟨hflag, hplays⟩ := sceneRequired_plays hbody h.1
  rw [Bool.and_false] at hflag
  cases separator with
  | none =>
      refine unfolds_inside (hscene.trans ?_) rfl rfl rfl (hplays.append .nil)
      simp [spans, strokes, Node.isAlternation, Context.push]
  | some separator =>
      have hseparator := h.2 _ List.mem_cons_self
      have hflag' := hseparator.flag
      rw [Bool.and_false] at hflag'
      simp only [hflag] at hscene
      refine unfolds_inside (hscene.trans ?_) rfl rfl rfl
        (hplays.append (hseparator.plays rfl))
      simp [spans, strokes, scene, Node.isAlternation]

/-- A node that has its parts and a box, and does not lie too deep, unfolds if its children leave
everything as it was. -/
theorem Entrance.unfolds_of_children {box : Box α} (hknown : e.node.isKnown = true)
    (hparts : e.node.hasParts = true) (hbox : d.table.box? e.node = some box)
    (hk : k < Metrics.maxDepth) (h : ∀ e' ∈ e.onward d, e'.Steady d (k + 1)) : e.Unfolds d k := by
  obtain rfl : d.box e.node = box := by
    rw [Backdrop.box, hbox]
    rfl
  obtain ⟨σ, n, c, above⟩ := e
  dsimp only at hknown hparts hbox
  have hscene := Railroad.scene.eq_def d n c k above
  rw [if_neg (by simpa using hknown), if_neg (by omega), hbox] at hscene
  cases n with
  | grammar id title productions comment =>
      rw [onward] at h
      simp only [List.map_append, List.forall_mem_append] at h
      obtain ⟨hflag, hheading⟩ := sceneOption_plays h.1.1
      obtain ⟨hflag', hrules⟩ := sceneOption_plays h.1.2
      obtain ⟨hflag'', hclosing⟩ := sceneOption_plays h.2
      have hplays := (hheading.append hrules).append hclosing
      rw [← List.map_append, ← List.map_append] at hplays
      simp only [hflag, hflag', hflag''] at hscene
      refine unfolds_inside (hscene.trans ?_) rfl rfl rfl hplays
      simp [spans, strokes, Node.isAlternation]
  | productionList id productions =>
      obtain ⟨hflag, hplays⟩ := sceneList_plays h
      simp only [hflag] at hscene
      refine unfolds_inside (hscene.trans ?_) rfl rfl rfl hplays
      simp [spans, strokes, Node.isAlternation]
  | production id name expression =>
      rw [Node.hasParts, Bool.and_eq_true] at hparts
      rw [onward] at h
      simp only [List.forall_mem_append] at h
      obtain ⟨hflag, hheading⟩ := sceneRequired_plays hparts.1 h.1
      obtain ⟨hflag', hbody⟩ := sceneRequired_plays hparts.2 h.2
      rw [Bool.and_false] at hflag hflag'
      simp only [hflag, hflag'] at hscene
      refine unfolds_inside (hscene.trans ?_) rfl rfl rfl
        (hheading.append hbody)
      simp [spans, strokes, Node.isAlternation]
  | alternation id alternatives =>
      cases alternatives with
      | nil => cases hparts
      | cons a as => exact unfolds_alternation rfl hbox hk h
  | sequence id items =>
      obtain ⟨hflag, hplays⟩ := sceneItems_plays h
      simp only [hflag] at hscene
      refine unfolds_inside (hscene.trans ?_) rfl rfl rfl hplays
      simp [spans, strokes, Node.isAlternation]
  | repetition id body =>
      obtain ⟨hflag, hplays⟩ := sceneRequired_plays hparts h
      rw [Bool.and_true] at hflag
      simp only [hflag] at hscene
      exact unfolds_outside hscene rfl rfl rfl rfl hplays
  | oneOrMore => exact unfolds_loop rfl hparts hbox hk h
  | optional id body =>
      obtain ⟨hflag, hplays⟩ := sceneRequired_plays hparts h
      rw [Bool.and_true] at hflag
      simp only [hflag] at hscene
      exact unfolds_outside hscene rfl rfl rfl rfl hplays
  | literal | identifier | other => exact unfolds_leaf hscene rfl rfl Strokes.isStill_leaf rfl rfl
  | foreign => cases hknown

/-- A complete tree that has its boxes and does not lie too deep unfolds wherever it is entered. -/
theorem Entrance.unfolds (hcomplete : e.node.isComplete = true) (hcovers : d.Covers e.node)
    (hk : k + e.node.height ≤ Metrics.maxDepth) : e.Unfolds d k := by
  -- From node to child the depth grows by one and the height shrinks, so that their sum stays in bounds.
  generalize hnode : e.node = n at hcomplete hcovers hk
  induction n using Node.descend generalizing e k with
  | _ n ih =>
      subst hnode
      obtain ⟨⟨hknown, hparts⟩, hchildren⟩ := (Node.isComplete_iff_children _).mp hcomplete
      obtain ⟨box, hbox⟩ := hcovers _ e.node.mem_preorder_self
      have hpos := e.node.height_pos
      refine unfolds_of_children hknown hparts hbox (by omega) fun e' he' => ?_
      have hm := node_mem_children he'
      have := Node.height_lt_of_mem_children hm
      exact (ih e'.node hm rfl (hchildren _ hm) (hcovers.child hm) (by omega)).toSteady

end Visits

end Railroad
