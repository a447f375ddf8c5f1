import Railroad.Proofs.Drawing.Leaves
/-!
The texts of a drawing: every leaf of the tree writes its own once, in the order of a walk over the tree.

Text is written by primitives alone, and only leaves write any; so what a scene writes is what the scenes of
the children write, and the text of the node itself if it is a leaf.
-/
namespace Railroad

variable {α : Type}

/-- The text that a primitive writes. -/
def Primitive.text? : Primitive α → Option String
  | text _ _ _ _ s _ | centeredText _ _ _ _ s _ => some s
  | _ => none

/-- The text that a call writes. -/
def Call.text? : Call α → Option String
  | primitive p => p.text?
  | composite _ => none

/-- The text that an event writes. -/
def Event.text? : Event α → Option String
  | call c => c.text?
  | _ => none

theorem filterMap_text?_callsOf {es : List (Event α)} :
    (callsOf es).filterMap Call.text? = es.filterMap Event.text? := by
  rw [callsOf, List.filterMap_filterMap]
  refine List.filterMap_congr fun e _ => ?_
  cases e <;> rfl

theorem Call.text?_of_isLine {c : Call α} (h : c.isLine = true) : c.text? = none := by
  obtain ⟨d, rfl⟩ | ⟨x, y, r, style, rfl⟩ := c.eq_of_isLine h <;> rfl

section Primitives

theorem Primitive.text?_of_isPathPart {p : Primitive α} (h : p.isPathPart = true) : p.text? = none := by
  cases p with
  | text | centeredText => cases h
  | _ => rfl

variable [Scalar α] {ps : List (Primitive α)}

/-- The primitives of a call write what the call writes. -/
theorem Call.text?_primitives {c : Call α} (h : c.primitives = .ok ps) :
    ps.filterMap Primitive.text? = c.text?.toList := by
  cases c with
  | primitive p =>
      cases h
      cases hp : p.text? <;> simp [text?, hp]
  | composite c =>
      exact List.filterMap_eq_nil_iff.mpr fun p hp =>
        p.text?_of_isPathPart (Composite.isPathPart_of_primitives h p hp)

theorem text?_mapM_primitives {cs : List (Call α)} {pss : List (List (Primitive α))}
    (h : cs.mapM Call.primitives = .ok pss) :
    pss.flatten.filterMap Primitive.text? = cs.filterMap Call.text? := by
  induction cs generalizing pss with
  | nil =>
      cases h
      rfl
  | cons c cs ih =>
      obtain ⟨ps, qss, hps, hqss, rfl⟩ := exists_of_mapM_cons h
      rw [List.flatten_cons, List.filterMap_append, Call.text?_primitives hps, ih hqss]
      cases ht : c.text? <;> simp [ht]

end Primitives

section Scenes

variable [Scalar α] {box : Box α} {direction : Direction} {d : Backdrop α} {e : Entrance α} {k : Nat}

/-- Whatever the look of a leaf, its text is written once. -/
theorem text?_leaf {isLinked isPlain : Bool} {style : Style} {text : String} :
    (Strokes.leaf direction isLinked isPlain style box text).filterMap Call.text? = [text] := by
  obtain ⟨arrow, look, hleaf, harrow, hlook⟩ :=
    Strokes.exists_leaf direction isLinked isPlain style box text
  have harrow := List.filterMap_eq_nil_iff.mpr fun c hc => Call.text?_of_isLine (harrow.isLine c hc)
  rw [hleaf, List.filterMap_append, harrow, List.nil_append]
  generalize Strokes.lookOf direction style = style at hlook
  cases hlook <;> rfl

/-- Texts are written by leaves alone. -/
theorem leafMarks_texts (d : Backdrop α) :
    d.LeafMarks (·.2.text?) fun x => x.1.text?.toList where
  still := by
    rintro ⟨σ, e⟩ he
    cases e with
    | call c =>
        cases c with
        | primitive p =>
            cases p with
            | pushTranslate | popTranslate => rfl
            | _ => cases he
        | composite => cases he
    | enter | leave | rail | fault => rfl
  enter _ _ _ _ := rfl
  leaf e he := by
    obtain ⟨σ, n, c, above⟩ := e
    cases n with
    | literal | identifier | other => exact text?_leaf
    | _ => cases he
  other e he c hc := c.text?_of_isLine (e.isLine_strokes d he c hc)

theorem Node.flatMap_text?_filter_isLeaf (ns : List Node) :
    (ns.filter isLeaf).flatMap (·.text?.toList) = ns.filterMap text? := by
  induction ns with
  | nil => rfl
  | cons n ns ih => cases htext : n.text? <;> simp [isLeaf, htext, ih]

/-- The scene of a complete tree writes the texts of its leaves, wherever it is entered. -/
theorem Entrance.text?_sights (hcomplete : e.node.isComplete = true) (hcovers : d.Covers e.node)
    (hk : k + e.node.height ≤ Metrics.maxDepth) :
    (e.sights d k).filterMap (·.2.text?) = e.node.preorder.filterMap Node.text? := by
  rw [(leafMarks_texts d).filterMap_sights hcomplete hcovers hk, ← Node.flatMap_text?_filter_isLeaf,
    ← map_fst_leaves hcomplete hcovers hk, List.flatMap_map]

end Scenes

variable [Scalar α]

/-- The texts that are written while a tree is drawn are those of its leaves, in the order of a walk over
the tree: none is left out, written twice or out of order, in whatever context the tree is entered.  So
are the texts among the primitives that draw it. -/
theorem texts_drawn {root : Node} {direction : Direction} {table : BoxTable α} {engine : Engine α}
    (hlayout : Engine.layout root direction = (.ok table, engine)) (links : List String)
    (c : Context α) (above : Bool) :
    ∃ (handsBack : Bool) (session : DrawingSession α) (pss : List (List (Primitive α))),
      DrawingSession.draw ⟨⟨table, links⟩, c, 0, #[]⟩ root above = (.ok handsBack, session) ∧
      session.calls.mapM Call.primitives = .ok pss ∧
      session.calls.filterMap Call.text? = root.walk.filterMap Node.text? ∧
      pss.flatten.filterMap Primitive.text? = root.walk.filterMap Node.text? := by
  obtain ⟨hcomplete, -, hheight⟩ := Engine.conditions_of_layout hlayout
  have hcovers : (⟨table, links⟩ : Backdrop α).Covers root := Engine.box_of_layout hlayout
  obtain ⟨hfault, hkeeps⟩ := draws_of_complete (k := 0) hcomplete hcovers (by omega) c above
  obtain ⟨pss, hpss, -⟩ := hkeeps.exists_primitives
  have htexts : (callsOf (scene ⟨table, links⟩ root c 0 above).1).filterMap Call.text? =
      root.walk.filterMap Node.text? := by
    rw [filterMap_text?_callsOf, ← filterMap_inScope Event.text? ⟨.start, []⟩,
      ← filterMap_sights (leafMarks_texts ⟨table, links⟩).still, Node.walk_eq_preorder]
    exact Entrance.text?_sights (e := ⟨⟨.start, []⟩, root, c, above⟩) hcomplete hcovers
      (by simpa using hheight)
  refine ⟨_, _, pss, DrawingSession.draw_of_noFault ⟨⟨table, links⟩, c, 0, #[]⟩ hfault, ?_, ?_, ?_⟩
  · simpa [DrawingSession.calls] using hpss
  · simpa [DrawingSession.calls] using htexts
  · rw [text?_mapM_primitives hpss, htexts]

/-- Short words to choose from, a choice that is entered from above, and a list with separators. -/
def medley : Node :=
  .sequence 14 [
    .alternation 3 [.literal 0 "a" .quoted, .literal 1 "b" .quoted, .literal 2 "c" .quoted],
    .repetition 8 (some (.alternation 7 [.identifier 4 "y",
      .optional 6 (some (.other 5 "z")), .identifier 9 "y"])),
    .oneOrMore 13 (some (.literal 11 "v" .special)) (some (.literal 12 "" .quoted))]

theorem texts_drawn_medley : ∃ (table : BoxTable Rat) (engine : Engine Rat),
    Engine.layout medley .left = (.ok table, engine) ∧
    medley.preorder.filterMap Node.text? = ["a", "b", "c", "y", "z", "y", "v", ""] ∧
    ∃ (handsBack : Bool) (session : DrawingSession Rat) (pss : List (List (Primitive Rat))),
      DrawingSession.draw ⟨⟨table, ["y"]⟩, .new .left, 0, #[]⟩ medley true =
        (.ok handsBack, session) ∧
      session.calls.mapM Call.primitives = .ok pss ∧
      session.calls.filterMap Call.text? = medley.walk.filterMap Node.text? ∧
      pss.flatten.filterMap Primitive.text? = medley.walk.filterMap Node.text? := by
  have hcomplete : medley.isComplete = true := by decide
  obtain ⟨table, engine, hlayout⟩ := Engine.layout_of_complete (α := Rat) hcomplete
    (by decide) (by decide) .left
  exact ⟨table, engine, hlayout, by decide, texts_drawn hlayout ["y"] (.new .left) true⟩

end Railroad
