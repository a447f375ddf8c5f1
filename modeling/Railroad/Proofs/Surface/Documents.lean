import Railroad.Proofs.Drawing.Leaves
import Railroad.Proofs.Drawing.Safety
import Railroad.Proofs.Surface.Tracing
/-!
Grammars as SVG documents and HTML pages: what is written around the diagram, and what can be read and
followed inside it.

Texts and links are written for leaves alone; so what can be read in the document of a grammar is told by
its leaves, each in the direction it is drawn in.
-/
namespace Railroad

/-- What can be read and followed in a document: texts, some of them under a name that links lead to, and
where links start and end. -/
inductive Inscription where
  | text (anchor : Option String) (content : String)
  | linkStart (name : String)
  | linkEnd
deriving Repr, DecidableEq

section Inscriptions

variable {α : Type}

/-- What a piece says. -/
def SvgPiece.inscription? : SvgPiece α → Option Inscription
  | text anchor _ _ _ content _ => some (.text anchor content)
  | linkStart name => some (.linkStart name)
  | linkEnd => some .linkEnd
  | _ => none

/-- A piece that stands inside a diagram. -/
def SvgPiece.isInner : SvgPiece α → Bool
  | linkStart .. | linkEnd | rect .. | roundRect .. | circle .. | text .. | path .. => true
  | _ => false

/-- What a primitive says: the names of rules can be linked to. -/
def Primitive.inscription? : Primitive α → Option Inscription
  | text _ _ _ _ content style =>
      some (.text (if style = .production then some content else none) content)
  | centeredText _ _ _ _ content _ => some (.text none content)
  | beginLink name => some (.linkStart name)
  | endLink => some .linkEnd
  | _ => none

/-- A primitive that can stand inside a diagram. -/
def Primitive.isInner : Primitive α → Bool
  | openDocument | closeDocument | beginDiagram .. | endDiagram => false
  | _ => true

/-- What a call says. -/
def Call.inscription? : Call α → Option Inscription
  | primitive p => p.inscription?
  | composite _ => none

/-- A call that can stand inside a diagram. -/
def Call.isInner : Call α → Bool
  | primitive p => p.isInner
  | composite _ => true

/-- What is said with an event. -/
def Event.inscription? : Event α → Option Inscription
  | call c => c.inscription?
  | _ => none

theorem filterMap_inscription?_callsOf {es : List (Event α)} :
    (callsOf es).filterMap Call.inscription? = es.filterMap Event.inscription? := by
  rw [callsOf, List.filterMap_filterMap]
  refine List.filterMap_congr fun e _ => ?_
  cases e <;> rfl

theorem Primitive.inscription?_of_isPathPart {p : Primitive α} (h : p.isPathPart = true) :
    p.inscription? = none := by
  cases p with
  | text | centeredText | beginLink | endLink => cases h
  | _ => rfl

theorem Primitive.isInner_of_isPathPart {p : Primitive α} (h : p.isPathPart = true) :
    p.isInner = true := by
  cases p with
  | openDocument | closeDocument | beginDiagram | endDiagram => cases h
  | _ => rfl

theorem Call.inscription?_of_isLine {c : Call α} (h : c.isLine = true) : c.inscription? = none := by
  obtain ⟨d, rfl⟩ | ⟨x, y, r, style, rfl⟩ := c.eq_of_isLine h <;> rfl

/-- Calls that keep the protocol stand inside a diagram. -/
theorem Keeps.isInner {cs : List (Call α)} (h : Keeps cs) : ∀ c ∈ cs, c.isInner = true := by
  induction h with
  | nil => exact List.forall_mem_nil _
  | @mark c cs hc _ ih =>
      refine List.forall_mem_cons.mpr ⟨?_, ih⟩
      cases c with
      | composite => rfl
      | primitive p =>
          cases p with
          | openDocument | closeDocument | beginDiagram | endDiagram => cases hc
          | _ => rfl
  | frame _ _ _ ih ih' | link _ _ _ ih ih' =>
      exact List.forall_mem_append.mpr ⟨List.forall_mem_cons.mpr ⟨rfl, ih⟩,
        List.forall_mem_cons.mpr ⟨rfl, ih'⟩⟩

end Inscriptions

/-- What a leaf is written as in a direction.  Outside the rules everything but a title is written as the name
of a rule; inside them a name that is linked stands in a link. -/
def inscribe (links : List String) : Node × Direction → List Inscription
  | (.literal _ content .title, _) => [.text none content]
  | (.identifier _ content, .none) => [.text (some content) content]
  | (.literal _ content _, .none) => [.text (some content) content]
  | (.other _ content, .none) => [.text (some content) content]
  | (.identifier _ content, _) =>
      if links.contains content then [.linkStart content, .text none content, .linkEnd]
      else [.text none content]
  | (.literal _ content _, _) => [.text none content]
  | (.other _ content, _) => [.text none content]
  | _ => []

section Leaves

variable {α : Type} [Scalar α]

/-- What is said by the calls of a leaf, from its style. -/
theorem inscription?_leaf (direction : Direction) (isLinked isPlain : Bool) (style : Style) (box : Box α)
    (content : String) :
    (Strokes.leaf direction isLinked isPlain style box content).filterMap Call.inscription? =
      match Strokes.lookOf direction style with
      | .production => [.text (some content) content]
      | .identifier =>
          if isLinked then [.linkStart content, .text none content, .linkEnd] else [.text none content]
      | _ => [.text none content] := by
  obtain ⟨arrow, look, hleaf, harrow, hlook⟩ :=
    Strokes.exists_leaf direction isLinked isPlain style box content
  have harrow := List.filterMap_eq_nil_iff.mpr fun c hc =>
    Call.inscription?_of_isLine (harrow.isLine c hc)
  rw [hleaf, List.filterMap_append, harrow, List.nil_append]
  generalize Strokes.lookOf direction style = style at hlook ⊢
  cases hlook with
  | label x y w h hstyle => rcases hstyle with rfl | rfl <;> rfl
  | name x y w h inner hlinked | link x y w h inner hlinked =>
      subst hlinked
      rfl
  | plain x y w inner hstyle hname | word x y w h inner hstyle hname =>
      cases style with
      | production => exact absurd rfl hstyle.1
      | identifier => exact absurd rfl hname
      | _ => rfl

/-- Texts and links are written for leaves alone. -/
theorem leafMarks_inscriptions (d : Backdrop α) :
    d.LeafMarks (·.2.inscription?) (inscribe d.links) where
  still := by
    rintro ⟨σ, e⟩ he
    cases e with
    | call c =>
        cases c with
        | primitive p =>
            cases p with
            | pushTranslate | popTranslate => rfl
            | _ => cases he
        | composite => cases he
    | enter | leave | rail | fault => rfl
  enter _ _ _ _ := rfl
  leaf e he := by
    obtain ⟨σ, n, c, above⟩ := e
    cases n with
    | literal id content kind =>
        refine (inscription?_leaf c.live.direction false false _ _ content).trans ?_
        cases kind <;> cases c.live.direction <;> rfl
    | identifier id content =>
        refine (inscription?_leaf c.live.direction (d.links.contains content) false _ _ content).trans ?_
        cases c.live.direction <;> rfl
    | other id content =>
        refine (inscription?_leaf c.live.direction false true _ _ content).trans ?_
        cases c.live.direction <;> rfl
    | _ => cases he
  other e he c hc := c.inscription?_of_isLine (e.isLine_strokes d he c hc)

end Leaves

section Writing

variable {α : Type} [Scalar α] {s s' : Svg α} {said : List Inscription}

/-- Pieces have been added that stand inside a diagram and say what is told; the options are as before. -/
structure Svg.Adds (s s' : Svg α) (ps : List (SvgPiece α)) (said : List Inscription) : Prop where
  options : s'.options = s.options
  pieces : s'.pieces.toList = s.pieces.toList ++ ps
  inner : ∀ p ∈ ps, p.isInner = true
  said : ps.filterMap SvgPiece.inscription? = said

namespace Svg

omit [Scalar α] in
theorem Adds.nil (h : s'.options = s.options) (h' : s'.pieces = s.pieces) : s.Adds s' [] [] :=
  ⟨h, by rw [h', List.append_nil], List.forall_mem_nil _, rfl⟩

omit [Scalar α] in
theorem Adds.append {t : Svg α} {ps qs : List (SvgPiece α)} {said' : List Inscription}
    (h : s.Adds t ps said) (h' : t.Adds s' qs said') : s.Adds s' (ps ++ qs) (said ++ said') where
  options := h'.options.trans h.options
  pieces := by rw [h'.pieces, h.pieces, List.append_assoc]
  inner := List.forall_mem_append.mpr ⟨h.inner, h'.inner⟩
  said := by rw [List.filterMap_append, h.said, h'.said]

omit [Scalar α] in
theorem adds_write {p : SvgPiece α} (hoptions : s'.options = s.options)
    (hpieces : s'.pieces = s.pieces.push p) (hinner : p.isInner = true)
    (hsaid : p.inscription?.toList = said) : s.Adds s' [p] said where
  options := hoptions
  pieces := by rw [hpieces, Array.toList_push]
  inner := List.forall_mem_singleton.mpr hinner
  said := by
    rw [← hsaid]
    cases hp : p.inscription? <;> simp [hp]

/-- A primitive that stands inside a diagram adds what it says. -/
theorem exists_adds_primitive {p : Primitive α} (hp : p.isInner = true)
    (hfault : (s.primitive p).fault = none) :
    ∃ ps, s.Adds (s.primitive p).state ps p.inscription?.toList := by
  have hsegment : ∀ added : SvgSegment α, s.Adds (s.segment added).state [] [] := by
    intro added
    rw [segment]
    cases s.path <;> exact .nil rfl rfl
  cases p with
  | rectangle | roundedRectangle | circle | text | centeredText | beginLink | endLink =>
      exact ⟨_, adds_write rfl rfl rfl rfl⟩
  | pathHTo | pathVTo | pathArc | pathArrowLeft | pathArrowRight | pathArrowDown =>
      exact ⟨[], hsegment _⟩
  | pushTranslate => exact ⟨[], .nil rfl rfl⟩
  | popTranslate =>
      rw [primitive] at hfault ⊢
      cases hpop : s.origins.pop <;> exact ⟨[], .nil rfl rfl⟩
  | pathBegin =>
      rw [primitive] at hfault ⊢
      cases hpath : s.path <;> exact ⟨[], .nil rfl rfl⟩
  | pathEnd =>
      rw [primitive] at hfault ⊢
      cases hpath : s.path with
      | none => exact ⟨[], .nil rfl rfl⟩
      | some path => exact ⟨_, adds_write rfl rfl rfl rfl⟩
  | openDocument | closeDocument | beginDiagram | endDiagram => cases hp

omit [Scalar α] in
theorem exists_adds_sendAll {β : Type} {step : Svg α → β → Reply (Svg α)} {say : β → Option Inscription}
    {bs : List β} (hstep : ∀ b ∈ bs, ∀ s, (step s b).fault = none →
      ∃ ps, s.Adds (step s b).state ps (say b).toList) (hfault : (sendAll step s bs).fault = none) :
    ∃ ps, s.Adds (sendAll step s bs).state ps (bs.filterMap say) := by
  induction bs generalizing s with
  | nil => exact ⟨[], .nil rfl rfl⟩
  | cons b bs ih =>
      rw [List.forall_mem_cons] at hstep
      rw [sendAll, Reply.andThen] at hfault ⊢
      cases hb : (step s b).fault with
      | some fault =>
          rw [hb] at hfault
          exact absurd (hb.symm.trans hfault) (by simp)
      | none =>
          rw [hb] at hfault
          obtain ⟨ps, hps⟩ := hstep.1 s hb
          obtain ⟨qs, hqs⟩ := ih hstep.2 hfault
          refine ⟨ps ++ qs, ?_⟩
          have hsaid : (b :: bs).filterMap say = (say b).toList ++ bs.filterMap say := by
            cases hsay : say b <;> simp [hsay]
          rw [hsaid]
          exact hps.append hqs

/-- A call that stands inside a diagram adds what it says. -/
theorem exists_adds_sendCall {c : Call α} (hc : c.isInner = true)
    (hfault : (sendCall primitive s c).fault = none) :
    ∃ ps, s.Adds (sendCall primitive s c).state ps c.inscription?.toList := by
  cases c with
  | primitive p =>
      rw [sendCall_primitive] at hfault ⊢
      exact exists_adds_primitive hc hfault
  | composite c =>
      rw [sendCall] at hfault ⊢
      cases hps : (Call.composite c).primitives with
      | error fault => exact ⟨[], .nil rfl rfl⟩
      | ok ps =>
          rw [hps] at hfault
          have hpart := Composite.isPathPart_of_primitives hps
          obtain ⟨qs, hqs⟩ := exists_adds_sendAll
            (fun p hp s => exists_adds_primitive (p.isInner_of_isPathPart (hpart p hp))) hfault
          refine ⟨qs, ?_⟩
          rwa [List.filterMap_eq_nil_iff.mpr fun p hp => p.inscription?_of_isPathPart (hpart p hp)]
            at hqs

end Svg

end Writing

section Documents

variable {α : Type} [Scalar α]

omit [Scalar α] in
/-- What a document begins with. -/
def SvgOptions.opening (o : SvgOptions) (width height : α) : List (SvgPiece α) :=
  (match o.page with
    | some title => [.pageStart title (Svg.href? o), .frameStart "top"]
    | none => .declaration :: ((Svg.href? o).map .stylesheet).toList) ++ [.svgStart width height]

omit [Scalar α] in
/-- What a document ends with. -/
def SvgOptions.closing (o : SvgOptions) : List (SvgPiece α) :=
  .svgEnd :: if o.page.isSome then [.frameEnd, .pageEnd] else []

/-- A document is opened and its diagram is begun. -/
theorem Svg.exists_begun (o : SvgOptions) (x y width height : α) : ∃ opened begun : Svg α,
    (Svg.start o).primitive .openDocument = .ok opened ∧
    opened.primitive (.beginDiagram x y width height "top") = .ok begun ∧ begun.options = o ∧
    begun.pieces.toList = o.opening width height ∧
    Closed path origins (Origins.start.push ⟨-x, -y⟩) begun := by
  obtain ⟨sheet, inlineStyle, _ | title⟩ := o
  · cases hhref : href? ⟨sheet, inlineStyle, none⟩ <;>
      exact ⟨_, _, rfl, rfl, by simp [start, write, hhref],
        by simp [start, write, hhref, SvgOptions.opening], by simp [start, write, hhref],
        by simp [start, write, hhref]⟩
  · exact ⟨_, _, rfl, rfl, rfl, rfl, rfl, rfl⟩

/-- A diagram is ended and its document is closed. -/
theorem Svg.exists_ended {s : Svg α} {origin : Point α}
    (hs : s.origins = Origins.start.push origin) : ∃ ended closed : Svg α,
    s.primitive .endDiagram = .ok ended ∧ ended.primitive .closeDocument = .ok closed ∧
    closed.options = s.options ∧ closed.pieces.toList = s.pieces.toList ++ s.options.closing := by
  have hpop : s.origins.pop = .ok .start := by
    rw [hs]
    rfl
  have hend : s.primitive .endDiagram = .ok (if s.options.page.isSome
      then ({ s with origins := .start }.write .svgEnd).write .frameEnd
      else { s with origins := .start }.write .svgEnd) := by
    rw [primitive, hpop]
    rfl
  obtain ⟨⟨sheet, inlineStyle, _ | title⟩, origins, pieces, path⟩ := s
  · exact ⟨_, _, hend, rfl, rfl, by simp [write, SvgOptions.closing]⟩
  · exact ⟨_, _, hend, rfl, rfl, by simp [write, SvgOptions.closing]⟩

theorem Output.call_svg (s : Svg α) (c : Call α) :
    (Output.direct (.svg s)).call c = (sendCall Svg.primitive s c).map fun s => .direct (.svg s) := by
  rw [Output.call, Surface.call_eq rfl, sendCall_map fun _ _ => rfl]
  rfl

/-- A document is drawn by opening it, sending the calls of the diagram, and closing it. -/
theorem drawDocument_svg {root : Node} {table : BoxTable α} {links : List String}
    {calls : List (Call α)} {session : DrawingSession α} {s opened ended closed : Svg α}
    (hcalls : diagramCalls root (.start table links .none) = (calls, none, session))
    (hopened : s.primitive .openDocument = .ok opened)
    (hsent : sendAll (sendCall Svg.primitive) opened calls = .ok ended)
    (hclosed : ended.primitive .closeDocument = .ok closed) :
    drawDocument (.direct (.svg s)) root table links = (.ok session, .direct (.svg closed)) := by
  have hlaidOut : drawLaidOut (.direct (.svg opened)) root table links =
      (.ok session, .direct (.svg ended)) := by
    rw [drawLaidOut, hcalls]
    dsimp only
    rw [sendAll_map Output.call_svg, hsent]
    rfl
  rw [drawDocument, Output.call_svg, sendCall_primitive, hopened]
  dsimp only [Reply.map, Reply.ok]
  rw [hlaidOut]
  dsimp only
  rw [Output.call_svg, sendCall_primitive, hclosed]
  rfl

/-- A grammar that has been laid out is drawn as a whole document: around its diagram stands what the
options ask for, and inside of it is said what its leaves are written as, in the order of a walk over the
tree.  If the tree is as it has been read, they are drawn in the directions that the ways to them say. -/
theorem exists_document {root : Node} {table : BoxTable α} (hlayout : layoutGrammar root = .ok table)
    (links : List String) (o : SvgOptions) : ∃ (session : DrawingSession α) (s : Svg α)
      (width height : α) (body : List (SvgPiece α)) (leaves : List (Node × Direction)),
      drawDocument (.direct (.svg (.start o))) root table links = (.ok session, .direct (.svg s)) ∧
      s.options = o ∧ s.pieces.toList = o.opening width height ++ body ++ o.closing ∧
      (∀ p ∈ body, p.isInner = true) ∧
      body.filterMap SvgPiece.inscription? = leaves.flatMap (inscribe links) ∧
      leaves.map Prod.fst = root.walk.filter Node.isLeaf ∧
      (root.IsGrammar → leaves = root.grammarCourses .none) := by
  obtain ⟨engine, hengine⟩ := exists_of_layoutGrammar hlayout
  obtain ⟨handsBack, session, hdraw, hkeeps, hcalls⟩ := exists_diagramCalls hlayout links
  obtain ⟨_, _, hdraw', hleaves, hmarks⟩ := exists_leaf_drawing hengine links
  rw [hdraw] at hdraw'
  cases hdraw'
  have hsaid : session.calls.filterMap Call.inscription? =
      (session.events.toList.filterMap Event.leaf?).flatMap (inscribe links) := by
    rw [DrawingSession.calls, filterMap_inscription?_callsOf,
      ← filterMap_inScope Event.inscription? ⟨.start, []⟩, hmarks (leafMarks_inscriptions _)]
  generalize hbox : Backdrop.box ⟨table, links⟩ root = box at hcalls
  obtain ⟨opened, begun, hopened, hbegun, hoptions, hpieces, hclosed⟩ :=
    Svg.exists_begun o box.tl.x box.tl.y box.width box.height
  -- what is sent in between draws nothing but the leaves and lines of the diagram
  obtain ⟨hfault, -, horigins⟩ := Svg.drawsPaths.obeys.sendCall.sendAll hkeeps hclosed
  obtain ⟨body, hadds⟩ := Svg.exists_adds_sendAll
    (fun c hc s => Svg.exists_adds_sendCall (hkeeps.isInner c hc)) hfault
  generalize hdrawn : (sendAll (sendCall Svg.primitive) begun session.calls).state = drawn
    at horigins hadds
  obtain ⟨ended, closed, hended, hclose, hlast, hall⟩ := Svg.exists_ended horigins
  refine ⟨session, closed, box.width, box.height, body, _, ?_, ?_, ?_, hadds.inner,
    hadds.said.trans hsaid, hleaves, fun hroot => (hroot.leaf?_events hengine hdraw).2⟩
  · refine drawDocument_svg hcalls hopened ?_ hclose
    rw [sendAll_append_eq, sendAll, sendCall_primitive, hbegun]
    change ((sendAll (sendCall Svg.primitive) begun session.calls).andThen _) = _
    rw [Reply.andThen, hfault, hdrawn]
    exact (sendAll_single drawn _).trans ((sendCall_primitive drawn _).trans hended)
  · rw [hlast, hadds.options, hoptions]
  · rw [hall, hadds.pieces, hpieces, hadds.options, hoptions]

end Documents

end Railroad
