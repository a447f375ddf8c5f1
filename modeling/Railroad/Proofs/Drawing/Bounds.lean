import Railroad.Proofs.Drawing.Marks
import Railroad.Proofs.Drawing.Safety
import Railroad.Proofs.Drawing.Zones
/-!
A drawing stays inside the bounds that are announced for it: whatever a node draws, of its own box or to the
rails of nodes above, lies in the box of the root.
-/
namespace Railroad

open Metrics

namespace Backdrop.Finds

variable {d : Backdrop Rat} {n : Node} {f : Flow} {above : Bool} {b z first last : Box Rat}
  {ss : List (Sized Rat)} {p : Placement Rat} {id : Nat} {as : List Node} {direction : Direction}
  {s : Surroundings Rat}

/-- What keeps clear of the sides in the placement of a node also does so in its box. -/
theorem insets {c : Box Rat} {left right : Rat} (h : d.Finds n f above b ss p)
    (hc : p.box.Inset c left right) : b.normalize.Inset c left right :=
  hc.of_homed h.sound.homed h.moved

theorem covers_fan (direction : Direction) (h : d.Finds (.alternation id as) f above b ss p)
    (hx : b.xAnchor = 10) (hfan : Node.isFan as = true) (hwidth : 20 ≤ b.width)
    (hlodges : ∀ c ∈ as.map d.box, b.normalize.Lodges c) (hfirst : first ∈ as.map d.box)
    (hlast : last ∈ as.map d.box) :
    ∀ c ∈ Strokes.fan direction above b first last (as.map d.box), b.normalize.Covers c := by
  obtain ⟨-, hbr⟩ := h.sound.homed.corners h.moved.size
  obtain ⟨harranges, hboxes, -, hmoved⟩ := h
  rw [Node.children] at hboxes
  obtain rfl := harranges.eq_of_fan hfan
  obtain ⟨hrow, hmargins⟩ := Placement.margins_fan f.direction (ss.map Sized.box)
  rw [← hbr] at hmargins
  refine Strokes.covers_fan hx (hmoved.row.symm.trans hrow) hwidth (fun c hc => ?_) hfirst hlast
  obtain ⟨hleft, -, hright, -⟩ := (hlodges c hc).inside
  obtain ⟨htop, hbottom⟩ := hmargins c (hboxes ▸ hc)
  have hwidth := (hlodges c hc).width
  have hlevel := (hlodges c hc).deep.level
  have hmiddle : c.tCenter.x = (c.tl.x + c.br.x) / 2 := rfl
  rw [Box.width_eq] at hwidth
  rw [b.normalize_tl] at hleft
  rw [b.normalize_br] at hright hbottom
  dsimp only at hleft hright hbottom
  exact ⟨by linarith, by linarith, htop, hlevel.1.trans hlevel.2, hbottom⟩

theorem covers_stack (h : d.Finds (.alternation id as) ⟨s.direction, s.useLeft, s.useRight⟩ above b ss p)
    (hx : b.xAnchor = 10) (hfan : Node.isFan as = false) (hdeep : b.Deep) (hz : b.normalize.Inside z)
    (hrails : s.RunsIn z) (hlodges : ∀ c ∈ as.map d.box, b.normalize.Lodges c)
    (hfirst : first ∈ (as.map d.box).head?) (hlast : last ∈ (as.map d.box).tail) :
    ∀ c ∈ Strokes.stack s above b first last (as.map d.box), z.Covers c := by
  have hstacked := h.stacked hfan
  have hinset := (h.inset hfan).1
  have hparts := fun c hc => And.intro (hlodges c hc) (hinset c hc)
  cases above with
  | true => exact Strokes.covers_stack_above hdeep hz hparts hlast hx rfl
  | false => exact Strokes.covers_stack_beside hdeep hz hrails hparts hlast hfirst rfl hstacked

section Bodies

variable {body separator : Node} {flag : Bool}

theorem covers_repetition (h : d.Finds (.repetition id (some body)) f above b ss p) (hz : z.Lodges b)
    (hlodges : b.normalize.Lodges (d.box body)) (hbody : (d.box body).xAnchor = 10)
    (hflag : ∀ s ∈ ss, s.handsBack = flag) :
    ∀ c ∈ Strokes.repetition direction flag b (d.box body), z.Covers c := by
  refine Strokes.covers_repetition hz hlodges hbody ?_ ?_
  · rintro rfl
    exact h.hangs_repetition hflag
  · rintro rfl
    obtain ⟨e, rfl, hmem⟩ := h.exists_repetition hflag
    exact h.insets (Placement.inset_repetition e _ hmem)

theorem covers_optional
    (h : d.Finds (.optional id (some body)) ⟨s.direction, s.useLeft, s.useRight⟩ above b ss p)
    (hz : z.Lodges b) (hlodges : b.normalize.Lodges (d.box body)) (hbody : (d.box body).xAnchor = 10)
    (hrails : s.RunsIn z) (hflag : ∀ s ∈ ss, s.handsBack = flag) :
    ∀ c ∈ Strokes.optional s flag b (d.box body), z.Covers c := by
  refine Strokes.covers_optional hz hlodges hbody hrails ?_ ?_
  · rintro rfl
    exact h.hangs_optional hflag
  · rintro rfl
    obtain ⟨e, rfl, hmem⟩ := h.exists_optional hflag
    exact h.insets (Placement.inset_optional e _ hmem)

theorem covers_loop (h : d.Finds (.oneOrMore id (some body) none) f above b ss p)
    (hlodges : b.normalize.Lodges (d.box body)) :
    ∀ c ∈ Strokes.loop direction b (d.box body), b.normalize.Covers c := by
  obtain ⟨e, rfl, hmem⟩ := h.exists_loop
  obtain ⟨hinset, htop, hrow⟩ := Placement.margins_loop e _ hmem
  exact Strokes.covers_loop hlodges (h.insets hinset) htop hrow

theorem covers_separatedLoop
    (h : d.Finds (.oneOrMore id (some body) (some separator)) f above b ss p)
    (hlodges : b.normalize.Lodges (d.box body)) (hlodges' : b.normalize.Lodges (d.box separator)) :
    ∀ c ∈ Strokes.separatedLoop b (d.box body) (d.box separator), b.normalize.Covers c := by
  have hrows := h.rows_separatedLoop
  obtain ⟨e, e', rfl, hparts⟩ := h.exists_separatedLoop
  have hinset := Placement.inset_separatedLoop e e'
  rw [hparts, List.forall_mem_cons, List.forall_mem_singleton] at hinset
  exact Strokes.covers_separatedLoop hlodges hlodges' (h.insets hinset.1) (h.insets hinset.2) hrows

end Bodies

end Backdrop.Finds

section Strokes

variable {d : Backdrop Rat} {e : Entrance Rat} {z : Box Rat}

theorem Entrance.strokes_fan {id : Nat} {a : Node} {as : List Node}
    (hnode : e.node = .alternation id (a :: as)) (hfan : Node.isFan (a :: as) = true) :
    e.strokes d = Strokes.fan e.context.live.direction e.above (d.box e.node) (d.box a) (d.lastBox a as)
      ((a :: as).map d.box) := by
  rw [strokes, hnode]
  exact if_pos hfan

section Expressions

variable (h : e.Stands d) (hn : e.node.IsExpression) (hdirection : e.context.live.direction ≠ .none)
  (hinside : (d.box e.node).Inside (e.scope.zone z)) (hruns : e.context.live.RunsIn (e.scope.zone z))
include h hn hdirection hinside

/-- A box that is wide enough stands in the zone of the node above. -/
theorem Entrance.Stands.lodges_zone : (e.scope.zone z).Lodges (d.box e.node) :=
  ⟨hinside, h.deep hn, h.le_width hn hdirection⟩

include hruns in
theorem Entrance.Stands.covers_alternation {id : Nat} {a : Node} {as : List Node}
    (hnode : e.node = .alternation id (a :: as)) : ∀ c ∈ e.strokes d, ((e.pen d).zone z).Covers c := by
  obtain ⟨hx, ss, p, hfinds, -⟩ := h.finds hn
  have hlast := lastBox_mem_tail (d := d) hnode hn
  have hwidth := h.le_width hn hdirection
  have hparts : ∀ b ∈ (a :: as).map d.box, (d.box e.node).normalize.Lodges b :=
    List.forall_mem_map.mpr fun m hm => h.lodges hn hdirection (hnode ▸ hm)
  have hframe := inside_frame.mpr hinside
  have hframed := runsIn_framed (d := d) hruns
  have hdeep := h.deep hn
  rw [pen_stack hnode]
  cases hfan : Node.isFan (a :: as) with
  | true =>
      rw [strokes_fan hnode hfan]
      generalize d.box e.node = b at *
      rw [hnode] at hfinds
      have hcovers := hfinds.covers_fan e.context.live.direction hx hfan
        (by linarith) hparts List.mem_cons_self (List.mem_of_mem_tail hlast)
      exact fun c hc => (hcovers c hc).of_inside hframe
  | false =>
      rw [strokes_stack hnode hfan]
      generalize d.box e.node = b at *
      rw [hnode] at hfinds
      exact hfinds.covers_stack (s := (e.framed d).live) hx hfan hdeep hframe hframed hparts rfl hlast

omit hinside in
theorem Entrance.Stands.covers_loop {id : Nat} {body separator : Option Node}
    (hnode : e.node = .oneOrMore id body separator) :
    ∀ c ∈ e.strokes d, (d.box e.node).normalize.Covers c := by
  obtain ⟨-, ss, p, hfinds, -⟩ := h.finds hn
  have hparts := fun m hm => h.lodges hn hdirection (m := m) hm
  rw [strokes]
  generalize d.box e.node = b at *
  rw [hnode] at hfinds hparts hn ⊢
  cases hn with
  | loop => exact hfinds.covers_loop (hparts _ List.mem_cons_self)
  | separatedLoop =>
      exact hfinds.covers_separatedLoop (hparts _ List.mem_cons_self)
        (hparts _ (List.mem_cons_of_mem _ List.mem_cons_self))

omit hinside in
/-- A sole body that is entered from above hands back whether it is an alternation, and lodges in the box. -/
theorem Entrance.Stands.finds_body (body : Node)
    (hvisits : ∃ f, e.context.flow.onward .right e.node = [.to body f true]) :
    ∃ ss p, d.Finds e.node e.context.flow e.above (d.box e.node) ss p ∧
      (∀ s ∈ ss, s.handsBack = Entrance.bodyFlag (some body)) ∧
        (d.box e.node).normalize.Lodges (d.box body) ∧ (d.box body).xAnchor = 10 := by
  obtain ⟨-, ss, p, hfinds, hflags⟩ := h.finds hn
  obtain ⟨f, hvisits⟩ := hvisits
  have hvisit : Visit.to body f true ∈ e.context.flow.onward .right e.node :=
    hvisits ▸ List.mem_cons_self
  have hbody : body ∈ e.node.children := Visit.node_mem_children hvisit
  refine ⟨ss, p, hfinds, fun s hs => ?_, h.lodges hn hdirection hbody, h.xAnchor_children hn hbody⟩
  obtain ⟨v, hv, hhands⟩ := hflags s hs
  rw [hvisits] at hv
  rw [hhands, List.mem_singleton.mp hv]
  exact Bool.and_true _

theorem Entrance.Stands.covers_repetition {id : Nat} {body : Option Node}
    (hnode : e.node = .repetition id body) : ∀ c ∈ e.strokes d, (e.scope.zone z).Covers c := by
  have hself := h.lodges_zone hn hdirection hinside
  have hbody := h.finds_body hn hdirection
  rw [strokes]
  generalize d.box e.node = b at *
  rw [hnode] at hn hbody ⊢
  cases hn with
  | @repetition _ body =>
      obtain ⟨ss, p, hfinds, hflag, hlodges, hx⟩ := hbody body ⟨_, rfl⟩
      exact hfinds.covers_repetition hself hlodges hx hflag

include hruns in
theorem Entrance.Stands.covers_optional {id : Nat} {body : Option Node}
    (hnode : e.node = .optional id body) : ∀ c ∈ e.strokes d, (e.scope.zone z).Covers c := by
  have hself := h.lodges_zone hn hdirection hinside
  have hbody := h.finds_body hn hdirection
  rw [strokes]
  generalize d.box e.node = b at *
  rw [hnode] at hn hbody ⊢
  cases hn with
  | @optional _ body =>
      obtain ⟨ss, p, hfinds, hflag, hlodges, hx⟩ := hbody body ⟨_, rfl⟩
      exact hfinds.covers_optional hself hlodges hx hruns hflag

/-- An expression within the flow draws inside a zone that its box and the rails which it is offered lie in. -/
theorem Entrance.Stands.covers (hruns : e.context.live.RunsIn (e.scope.zone z)) :
    ∀ c ∈ e.strokes d, ((e.pen d).zone z).Covers c := by
  have hframe := inside_frame.mpr hinside
  have hself := h.lodges_zone hn hdirection hinside
  have hkind := hn
  generalize hnode : e.node = n at hkind
  cases hkind with
  | literal | identifier =>
      rw [strokes, pen]
      generalize d.box e.node = b at *
      rw [hnode]
      exact Strokes.covers_leaf fun _ => hself
  | @alternation id alternatives hmany =>
      cases alternatives with
      | nil => simp at hmany
      | cons => exact h.covers_alternation hn hdirection hinside hruns hnode
  | sequence =>
      rw [strokes, hnode]
      exact List.forall_mem_nil _
  | repetition =>
      rw [pen, hnode]
      exact h.covers_repetition hn hdirection hinside hnode
  | optional =>
      rw [pen, hnode]
      exact h.covers_optional hn hdirection hinside hruns hnode
  | loop | separatedLoop =>
      rw [pen, hnode]
      exact fun c hc => (h.covers_loop hn hdirection hnode c hc).of_inside hframe

end Expressions

/-- A rule draws inside its own frame. -/
theorem Visit.Stands.covers_production {v : Visit} {k : Nat} {s : Sized Rat} {b : Box Rat} {id nameId : Nat}
    {name : String} {expression : Node} (hexpression : expression.IsExpression)
    (hnode : v.node = .production id (some (.identifier nameId name)) (some expression))
    (h : v.Stands d.table k s b) (hsize : s.box.SameSize b) :
    ∀ c ∈ Strokes.production (d.box (.identifier nameId name)) (d.box expression), b.normalize.Covers c := by
  have hcomplete : v.node.isComplete = true :=
    hnode ▸ (Node.IsProduction.intro id nameId name hexpression).isComplete
  obtain ⟨s', b', hstands', hmoved', hx'⟩ := h.expression hexpression hnode
  have hentered : (Entrance.mk ⟨.start, []⟩ expression (.new .right) false).Stands d :=
    ⟨k + 1, s', b', hstands', hmoved', hx'⟩
  obtain ⟨ss, p, hholds⟩ := h.holds hcomplete
  have hsound := hholds.arranges.sound (hholds.homed hcomplete)
  have hboxes := Backdrop.map_box (hholds.map_box? hcomplete)
  have hhomed := hholds.homed hcomplete
  obtain ⟨htl, hbr⟩ := hsound.homed.corners (hholds.size ▸ hsize)
  have hinside : p.box.Inside b.normalize := ⟨(congrArg Point.x htl).le, (congrArg Point.y htl).le,
    (congrArg Point.x hbr).ge, (congrArg Point.y hbr).ge⟩
  have harranges := hholds.arranges
  rw [hnode] at harranges hboxes
  obtain ⟨_, _, first, second, -, -, rfl, rfl⟩ := harranges.eq_of_production
  have hwidth : 0 ≤ second.box.width := (hhomed second (by simp)).width_nonneg
  obtain ⟨l, r, hparts, hrow, hleft, hright, hroom⟩ :=
    Placement.margins_production (hhomed first (by simp)) hwidth
  rw [hparts] at hboxes
  have hname : d.box (.identifier nameId name) = l := (List.cons.inj hboxes).1
  have hbody : d.box expression = r := (List.cons.inj (List.cons.inj hboxes).2).1
  have hlodges : b.normalize.Lodges (d.box expression) := by
    refine ⟨.trans ?_ hinside, hentered.deep hexpression, hentered.le_width hexpression nofun⟩
    rw [hbody]
    exact hsound.inside r (by simp [hparts])
  rw [← hbr] at hright hroom
  rw [hname]
  refine Strokes.covers_production hlodges (hbody ▸ hrow) ?_ hright (hbody ▸ hroom)
  rw [b.normalize_tl]
  linarith

/-- Headings draw inside a zone that their box lies in, outside the flow. -/
theorem Entrance.Heads.covers (h : e.Heads d) (hdirection : e.context.live.direction = .none)
    (hinside : (d.box e.node).Inside (e.scope.zone z)) :
    ∀ c ∈ e.strokes d, ((e.pen d).zone z).Covers c := by
  have hframe := inside_frame.mpr hinside
  have hkind := h.heading
  generalize hnode : e.node = n at hkind
  cases hkind with
  | grammar hn =>
      cases hn
      rw [strokes, hnode]
      exact List.forall_mem_nil _
  | rules =>
      rw [strokes, hnode]
      exact List.forall_mem_nil _
  | rule hn =>
      cases hn with
      | @intro id nameId name expression hexpression =>
          obtain ⟨v, k, s, b, hv, hstands, hsize⟩ := h.stands (by rw [hnode]; rfl)
          have hb : d.box e.node = b := by
            obtain ⟨hnests, -⟩ := hstands.nests (hv ▸ h.heading.isComplete) hsize
            exact Backdrop.box_of_box? (hv ▸ hnests.box)
          have hcovers := hstands.covers_production hexpression (hv.trans hnode) hsize
          rw [hb] at hframe
          rw [strokes, pen, hnode]
          exact fun c hc => (hcovers c hc).of_inside hframe
  | leaf hn =>
      rw [strokes, pen]
      generalize d.box e.node = b at *
      rw [hnode]
      cases n with
      | literal | identifier | other => exact Strokes.covers_leaf fun hne => absurd hdirection hne
      | _ => cases hn

/-- All that is drawn at a node of a grammar, outside the flow at its headings, lies in the box of the root. -/
theorem Entrance.Leads.covers {root : Node} {above : Bool} {o : Origins Rat} {engine : Engine Rat}
    (hroot : root.IsGrammar) (hlayout : Engine.layout root .none = (.ok d.table, engine))
    (h : (start o root .none above).Leads d e) :
    ∀ c ∈ e.strokes d, ((e.pen d).zone ((start o root .none above).box d)).Covers c := by
  have hinside := (h.inside hroot.isComplete hlayout).2
  obtain ⟨hheads, hout⟩ | ⟨hn, hstands, hdirection⟩ := h.heads_or_stands hroot hlayout
  · exact hheads.covers (hout rfl) hinside
  · exact hstands.covers hn hdirection hinside (h.runsIn hroot hlayout)

end Strokes

/-- What marks nothing adds nothing at the end. -/
theorem marked_append_unmarked {ps qs : List (Primitive Rat)} (h : ∀ o pen, marked o pen qs = [])
    (o : Origins Rat) (pen : Point Rat) : marked o pen (ps ++ qs) = marked o pen ps := by
  induction ps generalizing o pen with
  | nil => exact h o pen
  | cons p ps ih => rw [List.cons_append, marked, ih, marked]

/-- Whatever is drawn of a grammar that has been read and laid out, its texts apart, stays inside the bounds
that are announced for the diagram: every absolute point that the pen comes to, the corners of arrowheads and
of rectangles, and circles with their radius. -/
theorem diagram_bounded {reader : Ebnf.Reader} {nextId : Nat} {text : String} {root : Node}
    (hread : (reader.read nextId text).result = .ok root) {table : BoxTable Rat}
    (hlayout : layoutGrammar root = .ok table) (links : List String) :
    ∃ (calls : List (Call Rat)) (session : DrawingSession Rat) (x y w h : Rat) (name : String)
      (pss : List (List (Primitive Rat))),
      diagramCalls root (.start table links .none) = (calls, none, session) ∧
      calls.head? = some (.primitive (.beginDiagram x y w h name)) ∧
      calls.mapM Call.primitives = .ok pss ∧
      ∀ p ∈ marked .start .zero pss.flatten, (x ≤ p.x ∧ p.x ≤ x + w) ∧ y ≤ p.y ∧ p.y ≤ y + h := by
  have hroot := Ebnf.isGrammar_of_read hread
  obtain ⟨handsBack, session, hdraw, hkeeps, hcalls⟩ := exists_diagramCalls hlayout links
  obtain ⟨engine, hlayout⟩ := exists_of_layoutGrammar hlayout
  obtain ⟨handsBack', session', hdraw', hsights⟩ :=
    exists_drawing hroot.isComplete hlayout links false
  cases hdraw.symm.trans hdraw'
  obtain ⟨pss, hpss, -⟩ := hkeeps.exists_primitives
  generalize hbox : Backdrop.box ⟨table, links⟩ root = box at hcalls
  have hmap : (Call.primitive (.beginDiagram box.tl.x box.tl.y box.width box.height "top") ::
      session.calls ++ [Call.primitive .endDiagram]).mapM Call.primitives =
        .ok ([.beginDiagram box.tl.x box.tl.y box.width box.height "top"] :: pss ++ [[.endDiagram]]) :=
    mapM_append_eq_ok (mapM_cons_eq_ok rfl hpss) (mapM_cons_eq_ok rfl rfl)
  refine ⟨_, session, box.tl.x, box.tl.y, box.width, box.height, "top", _, hcalls, rfl, hmap,
    fun p hp => ?_⟩
  have hmarked : p ∈ marked .start .zero pss.flatten := by
    rw [List.flatten_append, List.flatten_cons, List.singleton_append, List.cons_append] at hp
    have hinner : p ∈ marked .start .zero (pss.flatten ++ [.endDiagram]) := hp
    rwa [marked_append_unmarked fun _ _ => rfl] at hinner
  obtain ⟨ρ, c, hc, q, hq, rfl⟩ :=
    exists_sight_of_mem_marked hkeeps.isWhole ⟨.start, []⟩ .zero hpss hmarked
  obtain ⟨e, hleads, hself | ⟨c', hc', hcall⟩⟩ := (hsights .start _).mp hc
  · cases hself
  cases hcall
  have hholds := Scope.holds_zone.mp (hleads.covers hroot hlayout c hc' q hq)
  have hstart : (Entrance.start .start root .none false).box ⟨table, links⟩ = box := by
    rw [← hbox]
    ext <;> simp [Entrance.box, Entrance.start, Origins.start]
  rw [hstart] at hholds
  obtain ⟨hleft, hright, htop, hbottom⟩ := hholds
  rw [Box.width_eq, Box.height_eq, add_sub_cancel, add_sub_cancel]
  exact ⟨⟨hleft, hright⟩, htop, hbottom⟩

/-- A list with separators, a choice of rows, an optional choice between words, and a loop over one, under a
title. -/
def boundedText : String :=
  "\"t\" \x7bx = c \x7b\",\" c\x7d | [d | \"e\"] \x7b\"f\" | \"g\"\x7d .\x7d"

def boundedTree : Node :=
  .grammar 20 (some (.literal 0 "t" .title)) (some (.productionList 19 [.production 18
    (some (.identifier 17 "x")) (some (.alternation 16 [
      .sequence 6 [.identifier 1 "c", .repetition 5 (some (.sequence 4 [.literal 2 "," .quoted,
        .identifier 3 "c"]))],
      .sequence 15 [.optional 10 (some (.alternation 9 [.identifier 7 "d", .literal 8 "e" .quoted])),
        .repetition 14 (some (.alternation 13 [.literal 11 "f" .quoted,
          .literal 12 "g" .quoted]))]]))])) none

theorem read_boundedText : (Ebnf.Reader.new.read 0 boundedText).result = .ok boundedTree := by cbv

theorem diagram_bounded_loops : ∃ table : BoxTable Rat,
    (Ebnf.Reader.new.read 0 boundedText).result = .ok boundedTree ∧
    layoutGrammar boundedTree = .ok table ∧
    ∃ (calls : List (Call Rat)) (session : DrawingSession Rat) (x y w h : Rat) (name : String)
      (pss : List (List (Primitive Rat))),
      diagramCalls boundedTree (.start table ["x"] .none) = (calls, none, session) ∧
      calls.head? = some (.primitive (.beginDiagram x y w h name)) ∧
      calls.mapM Call.primitives = .ok pss ∧
      ∀ p ∈ marked .start .zero pss.flatten, (x ≤ p.x ∧ p.x ≤ x + w) ∧ y ≤ p.y ∧ p.y ≤ y + h := by
  obtain ⟨table, engine, hlayout⟩ := Engine.layout_of_complete (α := Rat)
    (show boundedTree.isComplete = true by decide) (by decide) (by decide) .none
  have htable : layoutGrammar boundedTree = .ok table := by
    rw [layoutGrammar, hlayout]
    rfl
  exact ⟨table, read_boundedText, htable, diagram_bounded read_boundedText htable ["x"]⟩

end Railroad
