import Mathlib
import Railroad.Proofs.Drawing.RenderPass
import Railroad.Proofs.Ebnf.Numbering
import Railroad.Proofs.Ebnf.ReadTrees
import Railroad.Proofs.Layout.SizePass
/-!
The size pass and the render pass agree: over a grammar that has been read they pay the same visits, save
for the direction in which the names of its rules are entered.
-/
namespace Railroad

open Node

section Names

/-- The node that names a rule. -/
def Node.nameNode? : Node → Option Node
  | production _ name _ => name
  | _ => none

/-- The nodes that name the rules of a grammar. -/
def Node.nameNodes (root : Node) : List Node :=
  root.productions.filterMap nameNode?

variable {ps : List Node} {n m : Node}

theorem mem_children_of_nameNode? (h : n.nameNode? = some m) : m ∈ n.children := by
  cases n with
  | production id name expression =>
      obtain rfl : name = some m := h
      exact List.mem_cons_self
  | _ => cases h

theorem isIdentifier_of_mem_names (hps : ∀ p ∈ ps, p.IsProduction)
    (h : n ∈ ps.filterMap nameNode?) : n.isIdentifier = true := by
  obtain ⟨p, hp, hname⟩ := List.mem_filterMap.mp h
  cases hps p hp
  cases hname
  rfl

/-- In a grammar without shared nodes no part of an expression is the name of a rule. -/
theorem notMem_names_of_mem_expression {id : Nat} {name : Option Node} {expression : Node}
    (hnodup : (preorderList ps).Nodup) (hp : .production id name (some expression) ∈ ps)
    (hn : n ∈ expression.preorder) : n ∉ ps.filterMap nameNode? := by
  intro hmem
  obtain ⟨q, hq, hname⟩ := List.mem_filterMap.mp hmem
  rw [preorderList_eq_flatMap, List.nodup_flatMap] at hnodup
  obtain ⟨hnodups, hdisjoint⟩ := hnodup
  have hinside : n ∈ (production id name (some expression)).preorder :=
    (preorder_sublist (by simp [children])).subset hn
  have hname' : n ∈ q.preorder :=
    (preorder_sublist (mem_children_of_nameNode? hname)).subset n.mem_preorder_self
  by_cases hpq : q = production id name (some expression)
  · -- the name of a rule stands before its expression, and only there
    subst hpq
    obtain rfl : name = some n := hname
    have hrule := hnodups _ hq
    rw [preorder.eq_def, List.nodup_cons] at hrule
    exact List.disjoint_of_nodup_append hrule.2 n.mem_preorder_self hn
  · have : Std.Symm (Function.onFun List.Disjoint preorder) := ⟨fun _ _ h _ hq hp => h hp hq⟩
    exact hdisjoint.forall hq hp hpq hname' hinside

end Names

/-- The same visit in two passes.  Names of rules are entered rightwards in the size pass, and without a
direction in the render pass; there is no other difference. -/
structure Visit.Agrees (names : List Node) (sized drawn : Visit) : Prop where
  node : sized.node = drawn.node
  above : sized.above = drawn.above
  handsBack : sized.handsBack = drawn.handsBack
  useLeft : sized.flow.useLeft = drawn.flow.useLeft
  useRight : sized.flow.useRight = drawn.flow.useRight
  direction : sized.node ∉ names → sized.flow.direction = drawn.flow.direction
  name : sized.node ∈ names → sized.flow.direction = .right ∧ drawn.flow.direction = .none

theorem Visit.agrees_self {names : List Node} {v : Visit} (h : v.node ∉ names) :
    v.Agrees names v where
  node := rfl
  above := rfl
  handsBack := rfl
  useLeft := rfl
  useRight := rfl
  direction := fun _ => rfl
  name := fun hmem => absurd hmem h

section Agreement

/-- Visits that agree one by one; gaps agree with gaps. -/
def Agree (names : List Node) : List (Option Visit) → List (Option Visit) → Prop :=
  List.Forall₂ (Option.Rel (Visit.Agrees names))

variable {names : List Node} {n : Node}

theorem Agree.append {vs vs' ws ws' : List (Option Visit)} (h : Agree names vs ws)
    (h' : Agree names vs' ws') : Agree names (vs ++ vs') (ws ++ ws') :=
  List.rel_append h h'

theorem agree_self {vs : List (Option Visit)} (h : ∀ v, some v ∈ vs → v.node ∉ names) :
    Agree names vs vs := by
  refine List.forall₂_same.mpr fun o ho => ?_
  cases o with
  | none => exact .none
  | some v => exact .some (Visit.agrees_self (h v ho))

/-- Only names of productions depend on the direction in which names are entered. -/
theorem itineraryList_congr {d d' : Direction} {ns : List Node}
    (h : ∀ n ∈ ns, ∀ f k above, itinerary d n f k above = itinerary d' n f k above) (row : Row)
    (first : Bool) (f : Flow) (k : Nat) :
    itineraryList d row first ns f k = itineraryList d' row first ns f k := by
  induction ns generalizing first with
  | nil => rfl
  | cons n ns ih =>
      rw [List.forall_mem_cons] at h
      rw [itineraryList, itineraryList, h.1, ih h.2]

theorem Node.IsExpression.itinerary_congr (d d' : Direction) (h : n.IsExpression) (f : Flow)
    (k : Nat) (above : Bool) : itinerary d n f k above = itinerary d' n f k above := by
  induction h generalizing f k above with
  | literal | identifier => simp only [itinerary.eq_def]
  | @alternation id as hmany halternatives ih =>
      cases as with
      | nil => simp at hmany
      | cons a as =>
          rw [itinerary.eq_def, itinerary.eq_def]
          dsimp only
          rw [itineraryList_congr ih]
  | sequence id hmany hitems ih =>
      rw [itinerary.eq_def, itinerary.eq_def]
      dsimp only
      rw [itineraryList_congr ih]
  | repetition id hbody ih | optional id hbody ih =>
      rw [itinerary.eq_def, itinerary.eq_def]
      simp only [itineraryRequired, ih]
  | loop id hbody ih =>
      rw [itinerary.eq_def, itinerary.eq_def]
      simp only [itineraryRequired, itineraryOption, ih]
  | separatedLoop id hbody hseparator ih ih' =>
      rw [itinerary.eq_def, itinerary.eq_def]
      simp only [itineraryRequired, itineraryOption, ih, ih']

theorem Node.IsExpression.agree (h : n.IsExpression) (hnames : ∀ m ∈ n.preorder, m ∉ names)
    (f : Flow) (k : Nat) (above : Bool) :
    Agree names (itinerary .right n f k above) (itinerary .none n f k above) := by
  rw [h.itinerary_congr .right .none]
  exact agree_self fun v hv => hnames _ (mem_preorder_of_mem_itinerary hv)

theorem itinerary_leaf (d : Direction) (h : n.isLeaf = true) (f : Flow) {k : Nat} (above : Bool)
    (hk : k + n.height ≤ Metrics.maxDepth) :
    itinerary d n f k above = [some ⟨n, f, above, false⟩] := by
  have hshallow : k < Metrics.maxDepth := by
    have := n.height_pos
    omega
  rw [itinerary.eq_def]
  cases n with
  | literal | identifier | other => simp [hshallow, isKnown, isAlternation]
  | _ => cases h

theorem Node.IsProduction.agree (h : n.IsProduction) (hname : ∀ m ∈ n.nameNode?, m ∈ names)
    (hself : n ∉ names) (hexpression : ∀ i name e, n = .production i name (some e) →
      ∀ m ∈ e.preorder, m ∉ names) {k : Nat} (hk : k + n.height ≤ Metrics.maxDepth) :
    Agree names (itinerary .right n (.free .none) k false)
      (itinerary .none n (.free .none) k false) := by
  cases h with
  | @intro id nameId text e he =>
      have hagree := he.agree (hexpression _ _ _ rfl) (.free .right) (k + 1) false
      rw [height, heightOption, heightOption] at hk
      have hshallow : k < Metrics.maxDepth := by omega
      rw [itinerary.eq_def, itinerary.eq_def .none]
      simp only [isKnown, hshallow, decide_true, Bool.and_self, if_true, itineraryRequired]
      rw [itinerary_leaf (n := .identifier nameId text) _ rfl _ _ (by omega),
        itinerary_leaf (n := .identifier nameId text) _ rfl _ _ (by omega)]
      refine .cons (.some (Visit.agrees_self hself)) (.cons (.some ?_) hagree)
      have hmem : Node.identifier nameId text ∈ names := hname _ rfl
      exact {
        node := rfl
        above := rfl
        handsBack := rfl
        useLeft := rfl
        useRight := rfl
        direction := fun hnot => absurd hmem hnot
        name := fun _ => ⟨rfl, rfl⟩ }

theorem agree_productions {ps : List Node} {k : Nat} (first : Bool)
    (h : ∀ p ∈ ps, Agree names (itinerary .right p (.free .none) k false)
      (itinerary .none p (.free .none) k false)) :
    Agree names (itineraryList .right .rules first ps (.free .none) k)
      (itineraryList .none .rules first ps (.free .none) k) := by
  induction ps generalizing first with
  | nil => exact .nil
  | cons p ps ih =>
      rw [List.forall_mem_cons] at h
      rw [itineraryList, itineraryList]
      exact h.1.append (ih false h.2)

theorem agree_option {o : Option Node} (h : ∀ n ∈ o, n.isLeaf = true ∧ n ∉ names) (f : Flow)
    {k : Nat} (above : Bool) (hk : k + heightOption o ≤ Metrics.maxDepth) :
    Agree names (itineraryOption .right o f k above) (itineraryOption .none o f k above) := by
  cases o with
  | none => exact .nil
  | some n =>
      obtain ⟨hleaf, hnames⟩ := h n rfl
      rw [itineraryOption, itineraryOption, itinerary_leaf _ hleaf _ _ hk,
        itinerary_leaf _ hleaf _ _ hk]
      exact .cons (.some (Visit.agrees_self hnames)) .nil

/-- Over a grammar the itineraries of the two passes agree. -/
theorem Node.IsGrammar.agree (h : n.IsGrammar) (hnodup : (n.preorder.map Node.id).Nodup)
    (hheight : n.height ≤ Metrics.maxDepth) (f : Flow) (above : Bool) :
    Agree n.nameNodes (itinerary .right n f 0 above) (itinerary .none n f 0 above) := by
  cases h with
  | @intro id listId title comment ps htitle hps hcomment =>
      have hnodes : (preorderList ps).Nodup := by
        refine (List.Nodup.of_map _ hnodup).sublist ?_
        exact (preorderList_children_sublist (.productionList listId ps)).trans
          (preorder_sublist (by simp [children]))
      -- The passes enter the names of rules in different directions, and agree at all other nodes.
      have hidentifier : ∀ m, m.isIdentifier = false → m ∉ ps.filterMap nameNode? := by
        intro m hm hmem
        rw [isIdentifier_of_mem_names hps hmem] at hm
        cases hm
      rw [height, heightOption] at hheight
      have hshallow : 0 < Metrics.maxDepth := by omega
      have hlist : Agree (ps.filterMap nameNode?)
          (itinerary .right (.productionList listId ps) (.free .none) 1 false)
          (itinerary .none (.productionList listId ps) (.free .none) 1 false) := by
        rw [height] at hheight
        have hshallow' : 1 < Metrics.maxDepth := by omega
        rw [itinerary.eq_def, itinerary.eq_def .none]
        simp only [isKnown, hshallow', decide_true, Bool.and_self, if_true]
        refine .cons (.some (Visit.agrees_self (hidentifier _ rfl))) (agree_productions true ?_)
        intro p hp
        apply (hps p hp).agree
        · intro m hm
          exact List.mem_filterMap.mpr ⟨p, hp, hm⟩
        · apply hidentifier
          cases hps p hp
          rfl
        · rintro i name e rfl m hm
          exact notMem_names_of_mem_expression hnodes hp hm
        · have := heightList_le_iff.mp (Nat.le_refl (heightList ps)) p hp
          omega
      rw [itinerary.eq_def, itinerary.eq_def .none]
      simp only [isKnown, hshallow, decide_true, Bool.and_self, if_true, itineraryRequired]
      refine .cons (.some (Visit.agrees_self (hidentifier _ rfl))) ?_
      refine Agree.append (agree_option ?_ _ false (by omega))
        (Agree.append hlist (agree_option ?_ _ false (by omega)))
      · intro m hm
        obtain ⟨i, text, rfl⟩ := htitle m hm
        exact ⟨rfl, hidentifier _ rfl⟩
      · intro m hm
        obtain ⟨i, text, rfl⟩ := hcomment m hm
        exact ⟨rfl, hidentifier _ rfl⟩

end Agreement

section Passes

variable {α : Type} [Scalar α]

theorem exists_visits {names : List Node} {vs ws : List (Option Visit)} (h : Agree names vs ws)
    (hgaps : none ∉ vs) : ∃ sized drawn : List Visit, vs = sized.map some ∧ ws = drawn.map some ∧
      List.Forall₂ (Visit.Agrees names) sized drawn := by
  induction h with
  | nil => exact ⟨[], [], rfl, rfl, .nil⟩
  | cons hv _ ih =>
      rw [List.mem_cons, not_or] at hgaps
      obtain ⟨sized, drawn, rfl, rfl, hagree⟩ := ih hgaps.2
      cases hv with
      | none => exact absurd rfl hgaps.1
      | some hv => exact ⟨_ :: sized, _ :: drawn, rfl, rfl, .cons hv hagree⟩

/-- A grammar that has been laid out is drawn without a fault. -/
theorem draw_of_layout {root : Node} {direction : Direction} {table : BoxTable α} {e : Engine α}
    (hroot : root.IsGrammar) (h : Engine.layout root direction = (.ok table, e))
    (links : List String) :
    ∃ session, (DrawingSession.start table links direction).draw root false = (.ok false, session) ∧
      visitsOf session.events.toList = itinerary .none root (.free direction) 0 false := by
  have hgaps := (none_notMem_itinerary_iff _ _ _ _ _).mp (Engine.none_notMem_of_layout h)
  have hcovers : (⟨table, links⟩ : Backdrop α).Covers root := Engine.box_of_layout h
  obtain ⟨hshows, hflag⟩ := hroot.renders hcovers direction (.new direction) 0 false rfl hgaps.2
  rw [Bool.and_false] at hflag
  have hfault := hshows.untilFault_eq
  refine ⟨{ DrawingSession.start table links direction with
    events := (#[] : Array (Event α)) ++ (scene ⟨table, links⟩ root (.new direction) 0 false).1 },
    ?_, ?_⟩
  · simp only [DrawingSession.draw, DrawingSession.start, hfault, hflag]
  · simpa using hshows.visitsOf_eq

/-- A choice between a way past a name and a loop. -/
def choiceText : String :=
  "x = [b] | \x7bc\x7d ."

def choiceTree : Node :=
  .grammar 8 none (some (.productionList 7 [.production 6 (some (.identifier 5 "x"))
    (some (.alternation 4 [.optional 1 (some (.identifier 0 "b")),
      .repetition 3 (some (.identifier 2 "c"))]))])) none

theorem read_choiceText : (Ebnf.Reader.new.read 0 choiceText).result = .ok choiceTree := by cbv

end Passes

end Railroad
