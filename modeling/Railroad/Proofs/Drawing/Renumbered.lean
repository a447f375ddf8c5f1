import Railroad.Drawing.Sheet
import Railroad.Proofs.Layout.Renumbered
/-!
Drawings do not depend on the ids of nodes: trees of one structure, in each of which the nodes have ids
of their own, are drawn by the same calls.
-/
namespace Railroad

variable {α : Type} (r : Nat → Nat)

/-- The rail in a tree with other ids. -/
def RailSpan.renumber (span : RailSpan α) : RailSpan α :=
  { span with opener := span.opener.renumber r }

/-- The event in a tree with other ids. -/
def Event.renumber : Event α → Event α
  | .call c => .call c
  | .enter n c above => .enter (n.renumber r) c above
  | .leave n handsBack => .leave (n.renumber r) handsBack
  | .rail span => .rail (span.renumber r)
  | .fault f c k => .fault f c k

section Events

variable (es : List (Event α))

@[simp] theorem renumber_comp_call :
    Event.renumber r ∘ Event.call = (Event.call : Call α → Event α) := rfl

@[simp] theorem renumber_comp_rail :
    Event.renumber r ∘ Event.rail = (Event.rail : RailSpan α → Event α) ∘ RailSpan.renumber r := rfl

theorem openRails_renumber [Scalar α] (c : Context α) (opener : Node) (first last : Box α)
    (boxes : List (Box α)) : openRails c (opener.renumber r) first last boxes =
      ((openRails c opener first last boxes).1,
        (openRails c opener first last boxes).2.map (RailSpan.renumber r)) := by
  cases hleft : c.live.useLeft <;> cases hright : c.live.useRight <;>
    simp [openRails, RailSpan.renumber, hleft, hright]

@[simp] theorem map_renumber_within (origin : Point α) :
    (Strokes.within origin Event.call es).map (Event.renumber r) =
      Strokes.within origin Event.call (es.map (Event.renumber r)) := by
  rw [Strokes.within, List.map_append]
  rfl

theorem callsOf_renumber : callsOf (es.map (Event.renumber r)) = callsOf es := by
  rw [callsOf, callsOf, List.filterMap_map]
  congr 1
  funext e
  cases e <;> rfl

theorem untilFault_renumber : untilFault (es.map (Event.renumber r)) =
    ((untilFault es).1.map (Event.renumber r), (untilFault es).2) := by
  induction es with
  | nil => rfl
  | cons e es ih => cases e <;> simp [untilFault, Event.renumber, ih]

end Events

/-- The scene of a tree with other ids. -/
def renumberScene (events : List (Event α) × Bool) : List (Event α) × Bool :=
  (events.1.map (Event.renumber r), events.2)

@[simp] theorem renumberScene_mk (es : List (Event α)) (flag : Bool) :
    renumberScene r (es, flag) = (es.map (Event.renumber r), flag) := rfl

@[simp] theorem renumberScene_fst (events : List (Event α) × Bool) :
    (renumberScene r events).1 = events.1.map (Event.renumber r) := rfl

@[simp] theorem renumberScene_snd (events : List (Event α) × Bool) :
    (renumberScene r events).2 = events.2 := rfl

namespace Backdrop

/-- A backdrop with the same boxes for a tree with other ids. -/
def Matches (d d' : Backdrop α) (n : Node) : Prop :=
  ∀ m ∈ n.preorder, d'.table.box? (m.renumber r) = d.table.box? m

variable {r} {d d' : Backdrop α} {n m : Node}

theorem Matches.child (h : d.Matches r d' n) (hm : m ∈ n.children) : d.Matches r d' m :=
  fun l hl => h l ((Node.preorder_sublist hm).subset hl)

theorem Matches.part {o : Option Node} (h : d.Matches r d' n) (ho : o.toList ⊆ n.children) :
    ∀ m ∈ o, d.Matches r d' m :=
  fun _ hm => h.child (ho (Option.mem_toList.mpr hm))

variable [Scalar α]

theorem Matches.box (h : d.Matches r d' n) : d'.box (n.renumber r) = d.box n := by
  rw [Backdrop.box, Backdrop.box, h n n.mem_preorder_self]

theorem Matches.map_box {ns : List Node} (h : ∀ n ∈ ns, d.Matches r d' n) :
    (Node.renumberList r ns).map d'.box = ns.map d.box := by
  rw [Node.renumberList_eq_map, List.map_map]
  exact List.map_congr_left fun n hn => (h n hn).box

theorem Matches.boxOption {o : Option Node} (h : ∀ n ∈ o, d.Matches r d' n) :
    d'.boxOption (Node.renumberOption r o) = d.boxOption o := by
  cases o with
  | none => rfl
  | some n => exact (h n rfl).box

end Backdrop

section Scenes

variable {r} [Scalar α] {d d' : Backdrop α}

mutual
/-- The scene of a tree with other ids is that of the tree, with other ids. -/
theorem scene_renumber (hlinks : d'.links = d.links) : ∀ (n : Node) (c : Context α) (k : Nat)
    (above : Bool), d.Matches r d' n →
      scene d' (n.renumber r) c k above = renumberScene r (scene d n c k above)
  | n, c, k, above, h => by
      rw [scene.eq_def, scene.eq_def d n, Node.isKnown_renumber, Node.typeName_renumber,
        h n n.mem_preorder_self]
      split
      · rfl
      · split
        · rfl
        · split
          · rfl
          · rename_i box hbox
            cases n with
            | grammar _ title productions comment =>
                have ht := sceneOption_renumber hlinks title (h.part (by simp [Node.children]))
                have hp := sceneOption_renumber hlinks productions (h.part (by simp [Node.children]))
                have hc := sceneOption_renumber hlinks comment (h.part (by simp [Node.children]))
                simp [Node.renumber, Event.renumber, ht, hp, hc]
            | productionList _ productions =>
                have hps := sceneList_renumber hlinks productions fun p hp => h.child hp
                simp only [Node.renumber, hps]
                simp [Node.renumber, Event.renumber]
            | production _ name expression =>
                have hname : ∀ m ∈ name, d.Matches r d' m := h.part (by simp [Node.children])
                have hexpression : ∀ m ∈ expression, d.Matches r d' m :=
                  h.part (by simp [Node.children])
                have hn := sceneRequired_renumber hlinks name hname
                have he := sceneRequired_renumber hlinks expression hexpression
                simp [Node.renumber, Event.renumber, hn, he, Backdrop.Matches.boxOption hname,
                  Backdrop.Matches.boxOption hexpression]
            | alternation id alternatives =>
                cases alternatives with
                | nil => rfl
                | cons a as =>
                    have has : ∀ m ∈ a :: as, d.Matches r d' m := fun m hm => h.child hm
                    have hfan : Node.isFan (Node.renumber r a :: Node.renumberList r as) =
                        Node.isFan (a :: as) := Node.isFan_renumberList r (a :: as)
                    have hboxes : (Node.renumber r a :: Node.renumberList r as).map d'.box =
                        (a :: as).map d.box := Backdrop.Matches.map_box has
                    have hbox := (has a List.mem_cons_self).box
                    have hlist : ∀ c k above,
                        sceneList d' (Node.renumber r a :: Node.renumberList r as) c k above =
                          renumberScene r (sceneList d (a :: as) c k above) :=
                      sceneList_renumber hlinks (a :: as) has
                    have hside : ∀ c k,
                        sceneFan d' (Node.renumber r a :: Node.renumberList r as) c k =
                          (sceneFan d (a :: as) c k).map (Event.renumber r) :=
                      sceneFan_renumber hlinks (a :: as) has
                    have hrails := fun c : Context α =>
                      openRails_renumber r c (.alternation id (a :: as))
                    simp only [Node.renumber, Node.renumberList] at hrails
                    simp only [Node.renumber, Node.renumberList, hfan, hboxes, hbox, hlist, hside,
                      hrails]
                    split
                    · simp [Node.renumber, Event.renumber, Node.renumberList]
                    · simp [Node.renumber, Event.renumber, Node.renumberList]
            | sequence _ items =>
                have his := sceneItems_renumber hlinks items fun i hi => h.child hi
                simp only [Node.renumber, his]
                simp [Node.renumber, Event.renumber]
            | repetition _ body | optional _ body =>
                have hbody : ∀ m ∈ body, d.Matches r d' m := h.part (by simp [Node.children])
                have hb := sceneRequired_renumber hlinks body hbody
                simp [Node.renumber, Event.renumber, hb, Backdrop.Matches.boxOption hbody]
            | oneOrMore _ body separator =>
                have hbody : ∀ m ∈ body, d.Matches r d' m := h.part (by simp [Node.children])
                have hb := sceneRequired_renumber hlinks body hbody
                cases separator with
                | none =>
                    simp [Node.renumber, Event.renumber, Node.renumberOption, hb,
                      Backdrop.Matches.boxOption hbody]
                | some separator =>
                    have hseparator : d.Matches r d' separator := h.child (by simp [Node.children])
                    have hs := fun c k above => scene_renumber hlinks separator c k above hseparator
                    simp [Node.renumber, Event.renumber, Node.renumberOption, hb, hs,
                      Backdrop.Matches.boxOption hbody, hseparator.box]
            | literal _ _ kind => cases kind <;> simp [Node.renumber, Event.renumber, Style.ofLeaf]
            | identifier | other | foreign =>
                simp [Node.renumber, Event.renumber, Style.ofLeaf, hlinks]

theorem sceneList_renumber (hlinks : d'.links = d.links) : ∀ (ns : List Node),
    (∀ n ∈ ns, d.Matches r d' n) → ∀ (c : Context α) (k : Nat) (above : Bool),
      sceneList d' (Node.renumberList r ns) c k above = renumberScene r (sceneList d ns c k above)
  | [], _, _, _, _ => rfl
  | n :: ns, h, c, k, above => by
      rw [List.forall_mem_cons] at h
      rw [Node.renumberList, sceneList, scene_renumber hlinks n c k above h.1, sceneList]
      simp only [sceneList_renumber hlinks ns h.2, renumberScene, List.map_append]

theorem sceneFan_renumber (hlinks : d'.links = d.links) : ∀ (ns : List Node),
    (∀ n ∈ ns, d.Matches r d' n) → ∀ (c : Context α) (k : Nat),
      sceneFan d' (Node.renumberList r ns) c k = (sceneFan d ns c k).map (Event.renumber r)
  | [], _, _, _ => rfl
  | n :: ns, h, c, k => by
      rw [List.forall_mem_cons] at h
      rw [Node.renumberList, sceneFan, scene_renumber hlinks n c k false h.1,
        sceneFan_renumber hlinks ns h.2, sceneFan, List.map_append, renumberScene]

theorem sceneItems_renumber (hlinks : d'.links = d.links) : ∀ (ns : List Node),
    (∀ n ∈ ns, d.Matches r d' n) → ∀ (first : Bool) (c : Context α) (k : Nat) (above : Bool),
      sceneItems d' first (Node.renumberList r ns) c k above =
        renumberScene r (sceneItems d first ns c k above)
  | [], _, _, _, _, _ => rfl
  | n :: ns, h, first, c, k, above => by
      rw [List.forall_mem_cons] at h
      rw [Node.renumberList, sceneItems, scene_renumber hlinks n _ k above h.1, sceneItems]
      simp only [Node.renumberList_eq_map, List.isEmpty_map]
      simp only [← Node.renumberList_eq_map, sceneItems_renumber hlinks ns h.2, renumberScene,
        List.map_append]

theorem sceneOption_renumber (hlinks : d'.links = d.links) : ∀ (o : Option Node),
    (∀ n ∈ o, d.Matches r d' n) → ∀ (c : Context α) (k : Nat) (above : Bool),
      sceneOption d' (Node.renumberOption r o) c k above =
        renumberScene r (sceneOption d o c k above)
  | none, _, _, _, _ => rfl
  | some n, h, c, k, above => scene_renumber hlinks n c k above (h n rfl)

theorem sceneRequired_renumber (hlinks : d'.links = d.links) : ∀ (o : Option Node),
    (∀ n ∈ o, d.Matches r d' n) → ∀ (c : Context α) (k : Nat) (above : Bool),
      sceneRequired d' (Node.renumberOption r o) c k above =
        renumberScene r (sceneRequired d o c k above)
  | none, _, _, _, _ => rfl
  | some n, h, c, k, above => scene_renumber hlinks n c k above (h n rfl)
end

end Scenes

section Drawings

variable {r} [Scalar α] {n m : Node} {table table' : BoxTable α}

/-- Drawings that leave the same output: by the same calls, or with the same fault. -/
inductive DrawnAlike : Except DiagramFault (DrawingSession α) × Output α →
    Except DiagramFault (DrawingSession α) × Output α → Prop
  | ok {s s' : DrawingSession α} (hcalls : s.calls = s'.calls) (output : Output α) :
      DrawnAlike (.ok s, output) (.ok s', output)
  | error (fault : DiagramFault) (output : Output α) :
      DrawnAlike (.error fault, output) (.error fault, output)

theorem diagramCalls_renumber (links : List String)
    (h : ∀ l ∈ n.preorder, table'.box? (l.renumber r) = table.box? l) :
    let drawing := diagramCalls n (.start table links .none)
    let drawing' := diagramCalls (n.renumber r) (.start table' links .none)
    drawing'.1 = drawing.1 ∧ drawing'.2.1 = drawing.2.1 ∧
      drawing'.2.2.calls = drawing.2.2.calls := by
  have hmatches : Backdrop.Matches r (⟨table, links⟩ : Backdrop α) ⟨table', links⟩ n := h
  have hlinks : (⟨table', links⟩ : Backdrop α).links = (⟨table, links⟩ : Backdrop α).links := rfl
  have hscene := scene_renumber hlinks n (.new .none) 0 false hmatches
  have hbox := hmatches.box
  simp only [diagramCalls, DrawingSession.draw, DrawingSession.start, hscene, renumberScene,
    untilFault_renumber, hbox]
  generalize untilFault (scene ⟨table, links⟩ n (.new .none) 0 false).1 = before
  obtain ⟨events, _ | ⟨fault, c, k⟩⟩ := before
  · simp [DrawingSession.calls, callsOf_renumber]
  · simp [DrawingSession.calls, callsOf_renumber]

theorem drawLaidOut_renumber (output : Output α) (links : List String)
    (h : ∀ l ∈ n.preorder, table'.box? (l.renumber r) = table.box? l) :
    DrawnAlike (drawLaidOut output n table links)
      (drawLaidOut output (n.renumber r) table' links) := by
  obtain ⟨hcalls, hfault, hsession⟩ := diagramCalls_renumber links h
  simp only [drawLaidOut, hcalls, hfault]
  cases (sendAll Output.call output (diagramCalls n (.start table links .none)).1).fault with
  | some fault => exact .error _ _
  | none =>
      cases (diagramCalls n (.start table links .none)).2.1 with
      | some fault => exact .error _ _
      | none => exact .ok hsession.symm _

theorem drawDocument_renumber (output : Output α) (links : List String)
    (h : ∀ l ∈ n.preorder, table'.box? (l.renumber r) = table.box? l) :
    DrawnAlike (drawDocument output n table links)
      (drawDocument output (n.renumber r) table' links) := by
  simp only [drawDocument]
  cases (output.call (.primitive .openDocument)).fault with
  | some fault => exact .error _ _
  | none =>
      have hlaid := drawLaidOut_renumber (output.call (.primitive .openDocument)).state links h
      dsimp only
      generalize drawLaidOut _ n table links = drawing at hlaid ⊢
      generalize drawLaidOut _ (n.renumber r) table' links = drawing' at hlaid ⊢
      cases hlaid with
      | error fault drawn => exact .error _ _
      | ok hcalls drawn =>
          dsimp only
          cases (drawn.call (.primitive .closeDocument)).fault with
          | some fault => exact .error _ _
          | none => exact .ok hcalls _

/-- Trees of one structure, in each of which the nodes have ids of their own, get the same boxes, or the
same thing is wrong with both. -/
theorem layoutGrammar_of_structure (h : n.unnumbered = m.unnumbered)
    (hn : (n.preorder.map Node.id).Nodup) (hm : (m.preorder.map Node.id).Nodup) :
    (∃ fault, (layoutGrammar n : Except DiagramFault (BoxTable α)) = .error fault ∧
      (layoutGrammar m : Except DiagramFault (BoxTable α)) = .error fault) ∨
    ∃ r, ∃ table table' : BoxTable α, layoutGrammar n = .ok table ∧ layoutGrammar m = .ok table' ∧
      n.renumber r = m ∧ ∀ l ∈ n.preorder, table'.box? (l.renumber r) = table.box? l := by
  obtain ⟨r, rfl⟩ := Node.exists_renumber h hn
  simp only [layoutGrammar, Node.isGrammar_renumber, Node.typeName_renumber]
  cases n.isGrammar with
  | false => exact .inl ⟨_, rfl, rfl⟩
  | true =>
      rcases Engine.layout_renumber (α := α) r hn hm .none with ⟨fault, e, e', hlayout, hlayout'⟩ |
        ⟨table, table', e, e', hlayout, hlayout', hboxes⟩
      · exact .inl ⟨.layout fault, by simp [hlayout], by simp [hlayout']⟩
      · exact .inr ⟨r, table, table', by simp [hlayout], by simp [hlayout'], rfl, hboxes⟩

end Drawings

end Railroad
