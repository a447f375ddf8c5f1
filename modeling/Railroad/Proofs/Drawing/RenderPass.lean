import Railroad.Proofs.Drawing.Shown
/-!
The render pass pays the visits of the itinerary, for every grammar that has been laid out.
-/
namespace Railroad

variable {α : Type} [Scalar α]

section Flows

variable (c : Context α)

@[simp] theorem Context.flow_translateRails (origin : Point α) :
    (c.translateRails origin).flow = c.flow := rfl

theorem flow_openRails (opener : Node) (first last : Box α) (alternatives : List (Box α)) :
    (openRails c opener first last alternatives).1.flow = ⟨c.flow.direction, true, true⟩ := by
  cases hleft : c.live.useLeft <;> cases hright : c.live.useRight <;>
    simp [openRails, Context.flow, Context.withLive, hleft, hright]

omit [Scalar α] in
theorem flow_itemContext (first last : Bool) :
    (itemContext c first last).flow = Row.sequence.flow c.flow first last := by
  rw [itemContext, Context.flow_withRails, Bool.and_comm, Bool.and_comm c.live.useRight]
  rfl

end Flows

/-- A backdrop with a box for every node of a tree. -/
def Backdrop.Covers (d : Backdrop α) (n : Node) : Prop :=
  ∀ m ∈ n.preorder, ∃ box, d.table.box? m = some box

/-- The scene of a tree that is entered with a flow shows the visits of the itinerary, wherever the tree
does not lie too deep. -/
def Backdrop.Renders (d : Backdrop α) (f : Flow) (n : Node) : Prop :=
  ∀ (c : Context α) (k : Nat) (above : Bool), c.flow = f → k + n.height ≤ Metrics.maxDepth →
    Shows (scene d n c k above).1 (itinerary .none n f k above) ∧
      (scene d n c k above).2 = (n.isAlternation && above)

section Lists

variable {d : Backdrop α} {ns : List Node} {c : Context α} {k : Nat}

omit [Scalar α] in
theorem Backdrop.Covers.child {n m : Node} (h : d.Covers n) (hm : m ∈ n.children) : d.Covers m := by
  intro l hl
  exact h l ((Node.preorder_sublist hm).subset hl)

theorem sceneList_shows (row : Row) {f : Flow} (hflow : ∀ first last, row.flow f first last = c.flow)
    (h : ∀ n ∈ ns, d.Renders c.flow n) (hk : k + Node.heightList ns ≤ Metrics.maxDepth)
    (first : Bool) :
    Shows (sceneList d ns c k false).1 (itineraryList .none row first ns f k) ∧
      (sceneList d ns c k false).2 = false := by
  induction ns generalizing first with
  | nil => exact ⟨.nil, rfl⟩
  | cons n ns ih =>
      rw [Node.heightList_cons] at hk
      rw [List.forall_mem_cons] at h
      obtain ⟨hn, hflag⟩ := h.1 c k false rfl (by omega)
      obtain ⟨hns, hflags⟩ := ih h.2 (by omega) false
      rw [Bool.and_false] at hflag
      rw [sceneList, itineraryList, hflow]
      simp only [hflag]
      exact ⟨hn.append hns, hflags⟩

theorem sceneFan_shows {f : Flow} (hflow : c.flow = .free .down)
    (h : ∀ n ∈ ns, d.Renders (.free .down) n) (hk : k + Node.heightList ns ≤ Metrics.maxDepth)
    (first : Bool) :
    Shows (sceneFan d ns c k) (itineraryList .none .fan first ns f k) := by
  induction ns generalizing first with
  | nil => exact .nil
  | cons n ns ih =>
      rw [Node.heightList_cons] at hk
      rw [List.forall_mem_cons] at h
      obtain ⟨hn, -⟩ := h.1 c k false hflow (by omega)
      rw [sceneFan, itineraryList]
      exact hn.append (ih h.2 (by omega) false)

theorem sceneItems_shows (h : ∀ n ∈ ns, ∀ f, d.Renders f n)
    (hk : k + Node.heightList ns ≤ Metrics.maxDepth) (first : Bool) :
    Shows (sceneItems d first ns c k false).1 (itineraryList .none .sequence first ns c.flow k) ∧
      (sceneItems d first ns c k false).2 = false := by
  induction ns generalizing first with
  | nil => exact ⟨.nil, rfl⟩
  | cons n ns ih =>
      rw [Node.heightList_cons] at hk
      rw [List.forall_mem_cons] at h
      obtain ⟨hn, hflag⟩ := h.1 _ (itemContext c first ns.isEmpty) k false
        (flow_itemContext c first ns.isEmpty) (by omega)
      obtain ⟨hns, hflags⟩ := ih h.2 (by omega) false
      rw [Bool.and_false] at hflag
      rw [sceneItems, itineraryList]
      simp only [hflag]
      exact ⟨hn.append hns, hflags⟩

end Lists

section Trees

variable {d : Backdrop α} {n : Node}

/-- A tree is looked into if it has a box and does not lie too deep. -/
theorem Backdrop.Covers.renders {f : Flow} (hcovers : d.Covers n)
    (h : ∀ (c : Context α) (k : Nat) (above : Bool) (box : Box α), c.flow = f →
      ¬ Metrics.maxDepth ≤ k → k < Metrics.maxDepth → k + n.height ≤ Metrics.maxDepth →
      d.table.box? n = some box →
      Shows (scene d n c k above).1 (itinerary .none n c.flow k above) ∧
        (scene d n c k above).2 = (n.isAlternation && above)) : d.Renders f n := by
  rintro c k above rfl hk
  have hpos := n.height_pos
  obtain ⟨box, hbox⟩ := hcovers n n.mem_preorder_self
  exact h c k above box rfl (by omega) (by omega) hk hbox

theorem Node.renders_of_isLeaf (h : n.isLeaf = true) (hcovers : d.Covers n) (f : Flow) :
    d.Renders f n := by
  refine hcovers.renders fun c k above box _ hdeep hshallow hk hbox => ?_
  rw [scene.eq_def, itinerary.eq_def]
  cases n with
  | literal | identifier | other =>
      simp only [hbox, Node.isKnown, hdeep, hshallow, Bool.not_true, Bool.false_eq_true, if_false,
        decide_true, Bool.and_self, if_true]
      exact ⟨.single _ _ _ _ (.calls _), rfl⟩
  | _ => cases h

theorem Node.IsExpression.renders (h : n.IsExpression) (hcovers : d.Covers n) (f : Flow) :
    d.Renders f n := by
  induction h generalizing f with
  | literal | identifier => exact Node.renders_of_isLeaf rfl hcovers f
  | @alternation id as hmany halternatives ih =>
      refine hcovers.renders fun c k above box _ hdeep hshallow hk hbox => ?_
      have hrenders : ∀ n ∈ as, ∀ f, d.Renders f n := fun n hn => ih n hn (hcovers.child hn)
      rw [Node.height, ← Nat.add_assoc] at hk
      rw [scene.eq_def, itinerary.eq_def]
      cases as with
      | nil => simp at hmany
      | cons a as =>
          simp only [hbox, Node.isKnown, hdeep, hshallow, Bool.not_true, Bool.false_eq_true, if_false,
            decide_true, Bool.and_self, if_true, Row.ofAlternatives]
          split
          · have hfan := sceneFan_shows (f := c.flow) (c := ((c.push.translateRails box.tl).push.toward
              .down).clearRails) rfl (fun n hn => hrenders n hn _) hk true
            exact ⟨.single _ _ _ _ ((hfan.then_calls _).within _), rfl⟩
          · have hstack := fun opener first last boxes => sceneList_shows (c := (openRails
              (c.push.translateRails box.tl).push opener first last boxes).1.push) .stack (f := c.flow)
              (by
                intro first last
                rw [Context.flow_push, flow_openRails]
                rfl) (fun n hn => hrenders n hn _) hk true
            exact ⟨.single _ _ _ _ ((((Shows.rails _).append (hstack _ _ _ _).1).then_calls _).within _),
              rfl⟩
  | @sequence id items hmany hitems ih =>
      refine hcovers.renders fun c k above box _ hdeep hshallow hk hbox => ?_
      have hrenders : ∀ n ∈ items, ∀ f, d.Renders f n := fun n hn => ih n hn (hcovers.child hn)
      rw [Node.height, ← Nat.add_assoc] at hk
      obtain ⟨hshows, hflag⟩ := sceneItems_shows (c := c.push.push.translateRails box.tl) hrenders hk true
      rw [scene.eq_def, itinerary.eq_def]
      simp only [hbox, Node.isKnown, hdeep, hshallow, Bool.not_true, Bool.false_eq_true, if_false,
        decide_true, Bool.and_self, if_true, hflag]
      exact ⟨.single _ _ _ _ (hshows.within _), rfl⟩
  | @repetition id body hbody ih =>
      refine hcovers.renders fun c k above box _ hdeep hshallow hk hbox => ?_
      rw [Node.height, Node.heightOption, ← Nat.add_assoc] at hk
      have hshows := (ih (hcovers.child List.mem_cons_self) _ c.push.push.clearRails.reverse _ true rfl
        hk).1
      rw [scene.eq_def, itinerary.eq_def]
      simp only [hbox, Node.isKnown, hdeep, hshallow, Bool.not_true, Bool.false_eq_true, if_false,
        decide_true, Bool.and_self, if_true, sceneRequired, itineraryRequired]
      exact ⟨.single _ _ _ _ ((hshows.within _).then_calls _), rfl⟩
  | @optional id body hbody ih =>
      refine hcovers.renders fun c k above box _ hdeep hshallow hk hbox => ?_
      rw [Node.height, Node.heightOption, ← Nat.add_assoc] at hk
      have hshows := (ih (hcovers.child List.mem_cons_self) _
        (c.push.push.translateRails box.tl).clearRails _ true rfl hk).1
      rw [scene.eq_def, itinerary.eq_def]
      simp only [hbox, Node.isKnown, hdeep, hshallow, Bool.not_true, Bool.false_eq_true, if_false,
        decide_true, Bool.and_self, if_true, sceneRequired, itineraryRequired]
      exact ⟨.single _ _ _ _ ((hshows.within _).then_calls _), rfl⟩
  | @loop id body hbody ih =>
      refine hcovers.renders fun c k above box _ hdeep hshallow hk hbox => ?_
      rw [Node.height, Node.heightOption, Node.heightOption, Nat.max_zero, ← Nat.add_assoc] at hk
      have hshows := (ih (hcovers.child List.mem_cons_self) _
        (c.push.push.translateRails box.tl).clearRails _ false rfl hk).1
      rw [scene.eq_def, itinerary.eq_def]
      simp only [hbox, Node.isKnown, hdeep, hshallow, Bool.not_true, Bool.false_eq_true, if_false,
        decide_true, Bool.and_self, if_true, sceneRequired, itineraryRequired, itineraryOption,
        List.append_nil]
      exact ⟨.single _ _ _ _ ((hshows.then_calls _).within _), rfl⟩
  | @separatedLoop id body separator hbody hseparator ih ih' =>
      refine hcovers.renders fun c k above box _ hdeep hshallow hk hbox => ?_
      rw [Node.height, Node.heightOption, Node.heightOption] at hk
      obtain ⟨hshows, hflag⟩ := ih (hcovers.child List.mem_cons_self) _
        (c.push.push.translateRails box.tl).clearRails (k + 1) false rfl (by omega)
      have hshows' := (ih' (hcovers.child (List.mem_cons_of_mem _ List.mem_cons_self)) _
        (c.push.push.translateRails box.tl).clearRails.reverse (k + 1) false rfl (by omega)).1
      rw [Bool.and_false] at hflag
      rw [scene.eq_def, itinerary.eq_def]
      simp only [hbox, Node.isKnown, hdeep, hshallow, Bool.not_true, Bool.false_eq_true, if_false,
        decide_true, Bool.and_self, if_true, sceneRequired, itineraryRequired, itineraryOption, hflag]
      exact ⟨.single _ _ _ _ (((hshows.append hshows').then_calls _).within _), rfl⟩

theorem Node.IsProduction.renders (h : n.IsProduction) (hcovers : d.Covers n) :
    d.Renders (.free .none) n := by
  cases h with
  | @intro id nameId name expression hexpression =>
      refine hcovers.renders fun c k above box hflow hdeep hshallow hk hbox => ?_
      rw [Node.height, Node.heightOption, Node.heightOption] at hk
      have hname := Node.renders_of_isLeaf (n := .identifier nameId name) rfl
        (hcovers.child List.mem_cons_self)
      obtain ⟨hshows, hflag⟩ := hname _ c.push.push (k + 1) false hflow (by omega)
      obtain ⟨hshows', hflag'⟩ := hexpression.renders
        (hcovers.child (List.mem_cons_of_mem _ List.mem_cons_self)) (.free .right)
        (c.push.push.toward .right) (k + 1) false
        (by
          rw [Context.flow_toward, Context.flow_push, Context.flow_push, hflow]
          rfl)
        (by omega)
      rw [Bool.and_false] at hflag hflag'
      rw [scene.eq_def, itinerary.eq_def]
      simp only [hbox, Node.isKnown, hdeep, hshallow, Bool.not_true, Bool.false_eq_true, if_false,
        decide_true, Bool.and_self, if_true, sceneRequired, itineraryRequired, hflag, hflag']
      exact ⟨.single _ _ _ _ (((hshows.append hshows').then_calls _).within _), rfl⟩

theorem sceneOption_shows {o : Option Node} {c : Context α} {k : Nat} (f : Flow)
    (hflow : c.flow = f) (h : ∀ n ∈ o, d.Renders f n)
    (hk : k + Node.heightOption o ≤ Metrics.maxDepth) :
    Shows (sceneOption d o c k false).1 (itineraryOption .none o f k false) ∧
      (sceneOption d o c k false).2 = false := by
  cases o with
  | none => exact ⟨.nil, rfl⟩
  | some n =>
      obtain ⟨hshows, hflag⟩ := h n rfl c k false hflow hk
      rw [Bool.and_false] at hflag
      exact ⟨hshows, hflag⟩

theorem Node.renders_productionList {id : Nat} {productions : List Node}
    (hproductions : ∀ p ∈ productions, p.IsProduction)
    (hcovers : d.Covers (.productionList id productions)) :
    d.Renders (.free .none) (.productionList id productions) := by
  refine hcovers.renders fun c k above box hflow hdeep hshallow hk hbox => ?_
  rw [Node.height, ← Nat.add_assoc] at hk
  have hrenders : ∀ p ∈ productions, d.Renders (.free .none) p :=
    fun p hp => (hproductions p hp).renders (hcovers.child hp)
  have hinner : (c.push.toward .none).push.flow = .free .none := by
    rw [Context.flow_push, Context.flow_toward, Context.flow_push, hflow]
    rfl
  obtain ⟨hshows, hflag⟩ := sceneList_shows (c := (c.push.toward .none).push) .rules
    (fun _ _ => hinner.symm) (hinner ▸ hrenders) hk true
  rw [scene.eq_def, itinerary.eq_def]
  simp only [hbox, Node.isKnown, hdeep, hshallow, Bool.not_true, Bool.false_eq_true, if_false,
    decide_true, Bool.and_self, if_true, hflag]
  exact ⟨.single _ _ _ _ (hshows.within _), rfl⟩

theorem Node.IsGrammar.renders (h : n.IsGrammar) (hcovers : d.Covers n) (direction : Direction) :
    d.Renders (.free direction) n := by
  cases h with
  | @intro id listId title comment productions htitle hproductions hcomment =>
      refine hcovers.renders fun c k above box hflow hdeep hshallow hk hbox => ?_
      rw [Node.height, Node.heightOption] at hk
      have hinner : (c.push.toward .none).push.flow = .free .none := by
        rw [Context.flow_push, Context.flow_toward, Context.flow_push, hflow]
        rfl
      obtain ⟨hheading, hflag⟩ := sceneOption_shows (.free .none) hinner
        (by
          intro n hn
          obtain ⟨i, text, rfl⟩ := htitle n hn
          refine Node.renders_of_isLeaf rfl (hcovers.child ?_) _
          rw [hn]
          simp [Node.children])
        (show k + 1 + Node.heightOption title ≤ _ by omega)
      have hcovers' : d.Covers (.productionList listId productions) :=
        hcovers.child (by simp [Node.children])
      obtain ⟨hlist, hflag'⟩ := Node.renders_productionList hproductions hcovers'
        (c.push.toward .none).push (k + 1) false hinner (by omega)
      obtain ⟨hclosing, hflag''⟩ := sceneOption_shows (.free .none) hinner
        (by
          intro n hn
          obtain ⟨i, text, rfl⟩ := hcomment n hn
          refine Node.renders_of_isLeaf rfl (hcovers.child ?_) _
          rw [hn]
          simp [Node.children])
        (show k + 1 + Node.heightOption comment ≤ _ by omega)
      rw [Bool.and_false] at hflag'
      rw [scene.eq_def, itinerary.eq_def]
      simp only [hbox, Node.isKnown, hdeep, hshallow, Bool.not_true, Bool.false_eq_true, if_false,
        decide_true, Bool.and_self, if_true, hflag, sceneOption, hflag', hflag'', itineraryRequired]
      refine ⟨.single _ _ _ _ (.within ?_ _), rfl⟩
      rw [List.append_assoc]
      exact hheading.append (hlist.append hclosing)

end Trees

end Railroad
