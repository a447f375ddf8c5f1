import Railroad.Drawing.Strokes
/-!
The protocol of drawing calls: segments stand inside paths and nowhere else, paths hold nothing but
segments, and every origin pushed and every link begun is dropped or ended again, not inside a path.
-/
namespace Railroad

variable {α : Type}

/-- A shape drawn by one primitive. -/
def Primitive.isShape : Primitive α → Bool
  | rectangle .. | roundedRectangle .. | circle .. | text .. | centeredText .. => true
  | _ => false

/-- A segment of a path. -/
def Primitive.isSegment : Primitive α → Bool
  | pathHTo .. | pathVTo .. | pathArc .. | pathArrowLeft .. | pathArrowRight .. | pathArrowDown .. =>
      true
  | _ => false

/-- A segment, or an end of a path. -/
def Primitive.isPathPart (p : Primitive α) : Bool :=
  p.isSegment ||
    match p with
    | pathBegin .. | pathEnd => true
    | _ => false

theorem Primitive.isPathPart_of_isSegment {p : Primitive α} (h : p.isSegment = true) :
    p.isPathPart = true :=
  Bool.or_eq_true_iff.mpr (.inl h)

/-- One whole path. -/
inductive IsPath : List (Primitive α) → Prop
  | intro (x y : α) (style : Style) {segments : List (Primitive α)}
      (hsegments : ∀ s ∈ segments, s.isSegment = true) :
      IsPath (.pathBegin x y style :: segments ++ [.pathEnd])

theorem IsPath.single (x y : α) (style : Style) {s : Primitive α} (hs : s.isSegment = true) :
    IsPath [.pathBegin x y style, s, .pathEnd] :=
  .intro x y style (List.forall_mem_singleton.mpr hs)

theorem IsPath.isPathPart {path : List (Primitive α)} (h : IsPath path) :
    ∀ p ∈ path, p.isPathPart = true := by
  obtain ⟨x, y, style, hsegments⟩ := h
  refine List.forall_mem_append.mpr ⟨List.forall_mem_cons.mpr ⟨rfl, fun s hs => ?_⟩, ?_⟩
  · exact Primitive.isPathPart_of_isSegment (hsegments s hs)
  · exact List.forall_mem_singleton.mpr rfl

/-- Primitives that keep the protocol. -/
inductive Orderly : List (Primitive α) → Prop
  | nil : Orderly []
  | shape {p : Primitive α} {ps : List (Primitive α)} (hp : p.isShape = true) (h : Orderly ps) :
      Orderly (p :: ps)
  | path {path ps : List (Primitive α)} (hpath : IsPath path) (h : Orderly ps) : Orderly (path ++ ps)
  | frame (origin : Point α) {inner ps : List (Primitive α)} (hinner : Orderly inner)
      (h : Orderly ps) : Orderly (.pushTranslate origin :: inner ++ .popTranslate :: ps)
  | link (name : String) {inner ps : List (Primitive α)} (hinner : Orderly inner) (h : Orderly ps) :
      Orderly (.beginLink name :: inner ++ .endLink :: ps)

theorem Orderly.append {ps qs : List (Primitive α)} (h : Orderly ps) (h' : Orderly qs) :
    Orderly (ps ++ qs) := by
  induction h with
  | nil => exact h'
  | shape hp _ ih => exact .shape hp ih
  | path hpath _ ih =>
      rw [List.append_assoc]
      exact .path hpath ih
  | frame origin hinner _ _ ih =>
      rw [List.append_assoc]
      exact .frame origin hinner ih
  | link name hinner _ _ ih =>
      rw [List.append_assoc]
      exact .link name hinner ih

theorem Orderly.of_path {path : List (Primitive α)} (h : IsPath path) : Orderly path := by
  rw [← List.append_nil path]
  exact .path h .nil

/-- The pairs of directions that there is a connector for. -/
def Direction.joins : Direction → Direction → Bool
  | .none, _ | _, .none => false
  | .up, arriving => arriving = .right
  | _, _ => true

/-- Whether a composite has strokes. -/
def Composite.isSupported : Composite α → Bool
  | connector leaving _ _ arriving .. => leaving.joins arriving
  | _ => true

/-- A call that draws something by itself. -/
def Call.isMark : Call α → Bool
  | primitive p => p.isShape
  | composite c => c.isSupported

/-- Calls that keep the protocol. -/
inductive Keeps : List (Call α) → Prop
  | nil : Keeps []
  | mark {c : Call α} {cs : List (Call α)} (hc : c.isMark = true) (h : Keeps cs) : Keeps (c :: cs)
  | frame (origin : Point α) {inner cs : List (Call α)} (hinner : Keeps inner) (h : Keeps cs) :
      Keeps (.primitive (.pushTranslate origin) :: inner ++ .primitive .popTranslate :: cs)
  | link (name : String) {inner cs : List (Call α)} (hinner : Keeps inner) (h : Keeps cs) :
      Keeps (.primitive (.beginLink name) :: inner ++ .primitive .endLink :: cs)

namespace Keeps

variable {cs ds : List (Call α)}

theorem append (h : Keeps cs) (h' : Keeps ds) : Keeps (cs ++ ds) := by
  induction h with
  | nil => exact h'
  | mark hc _ ih => exact .mark hc ih
  | frame origin hinner _ _ ih =>
      rw [List.append_assoc]
      exact .frame origin hinner ih
  | link name hinner _ _ ih =>
      rw [List.append_assoc]
      exact .link name hinner ih

theorem of_marks (h : ∀ c ∈ cs, c.isMark = true) : Keeps cs := by
  induction cs with
  | nil => exact .nil
  | cons c cs ih =>
      rw [List.forall_mem_cons] at h
      exact .mark h.1 (ih h.2)

end Keeps

variable [Scalar α]

section Primitives

variable {leaving arriving : Direction} {p q : Point α} {r : α}

theorem isSome_connectorSegments? :
    (connectorSegments? leaving arriving p q r).isSome = leaving.joins arriving := by
  cases leaving <;> cases arriving <;> rfl

theorem isSegment_of_connector {segments : List (Primitive α)}
    (h : connectorSegments? leaving arriving p q r = some segments) :
    ∀ s ∈ segments, s.isSegment = true := by
  unfold connectorSegments? at h
  split at h
  all_goals cases h
  all_goals (repeat' split) <;> simp [Primitive.isSegment]

theorem Composite.exists_strokes {c : Composite α} (h : c.isSupported = true) :
    ∃ ps, c.strokes = .ok ps ∧ IsPath ps := by
  cases c with
  | connector leaving p q arriving r style =>
      rw [isSupported, ← isSome_connectorSegments? (p := p) (q := q) (r := r),
        Option.isSome_iff_exists] at h
      obtain ⟨segments, hsegments⟩ := h
      refine ⟨_, ?_, .intro p.x p.y style (isSegment_of_connector hsegments)⟩
      rw [strokes, hsegments]
  | hline | vline | arrowLeft | arrowRight | arrowDown =>
      exact ⟨_, rfl, .single _ _ _ rfl⟩

theorem Composite.isSupported_of_strokes {c : Composite α} {ps : List (Primitive α)}
    (h : c.strokes = .ok ps) : c.isSupported = true := by
  cases c with
  | connector leaving p q arriving r style =>
      rw [strokes] at h
      split at h
      · rename_i segments hsegments
        rw [isSupported, ← isSome_connectorSegments? (p := p) (q := q) (r := r), hsegments]
        rfl
      · cases h
  | hline | vline | arrowLeft | arrowRight | arrowDown => rfl

theorem Composite.isSupported_shaft {c l : Composite α} (h : c.shaft? = some l) :
    l.isSupported = true := by
  cases c with
  | arrowLeft | arrowRight | arrowDown =>
      rw [shaft?] at h
      split at h
      · cases h
        rfl
      · cases h
  | hline | vline | connector => cases h

/-- A composite is drawn by its shaft, if there is one, and then by its strokes. -/
theorem Composite.primitives_eq (c : Composite α) :
    ∃ shaft, c.primitives = c.strokes.map (shaft ++ ·) ∧ (shaft = [] ∨ IsPath shaft) := by
  rw [primitives]
  cases hshaft : c.shaft? with
  | none =>
      refine ⟨[], ?_, .inl rfl⟩
      cases c.strokes <;> rfl
  | some l =>
      obtain ⟨shaft, hline, hpath⟩ := exists_strokes (isSupported_shaft hshaft)
      refine ⟨shaft, ?_, .inr hpath⟩
      simp only [hline]
      cases c.strokes <;> rfl

/-- A supported composite is drawn by paths. -/
theorem Composite.exists_primitives {c : Composite α} (h : c.isSupported = true) :
    ∃ ps, c.primitives = .ok ps ∧ Orderly ps := by
  obtain ⟨ps, hps, hpath⟩ := exists_strokes h
  obtain ⟨shaft, hprimitives, hshaft⟩ := c.primitives_eq
  rw [hps] at hprimitives
  refine ⟨shaft ++ ps, hprimitives, ?_⟩
  obtain rfl | hshaft := hshaft
  · exact .of_path hpath
  · exact .path hshaft (.of_path hpath)

/-- A composite that is drawn at all is drawn by one path or two. -/
theorem Composite.paths_of_primitives {c : Composite α} {ps : List (Primitive α)}
    (h : c.primitives = .ok ps) : c.isSupported = true ∧
      ∃ shaft strokes, ps = shaft ++ strokes ∧ (shaft = [] ∨ IsPath shaft) ∧ IsPath strokes := by
  obtain ⟨shaft, hprimitives, hshaft⟩ := c.primitives_eq
  rw [h] at hprimitives
  cases hstrokes : c.strokes with
  | error fault =>
      rw [hstrokes] at hprimitives
      cases hprimitives
  | ok strokes =>
      rw [hstrokes] at hprimitives
      cases hprimitives
      have hsupported := isSupported_of_strokes hstrokes
      obtain ⟨_, hpath, hispath⟩ := exists_strokes hsupported
      cases hstrokes.symm.trans hpath
      exact ⟨hsupported, shaft, strokes, rfl, hshaft, hispath⟩

theorem Composite.isPathPart_of_primitives {c : Composite α} {ps : List (Primitive α)}
    (h : c.primitives = .ok ps) : ∀ p ∈ ps, p.isPathPart = true := by
  obtain ⟨-, shaft, strokes, rfl, hshaft, hstrokes⟩ := paths_of_primitives h
  refine List.forall_mem_append.mpr ⟨?_, hstrokes.isPathPart⟩
  obtain rfl | hshaft := hshaft
  · simp
  · exact hshaft.isPathPart

theorem mapM_append_eq_ok {β γ ε : Type} {f : β → Except ε γ} {xs xs' : List β} {ys ys' : List γ}
    (h : xs.mapM f = .ok ys) (h' : xs'.mapM f = .ok ys') : (xs ++ xs').mapM f = .ok (ys ++ ys') := by
  rw [List.mapM_append, h, h']
  rfl

theorem mapM_cons_eq_ok {β γ ε : Type} {f : β → Except ε γ} {x : β} {xs : List β} {y : γ}
    {ys : List γ} (h : f x = .ok y) (h' : xs.mapM f = .ok ys) : (x :: xs).mapM f = .ok (y :: ys) := by
  rw [List.mapM_cons, h, h']
  rfl

theorem exists_of_mapM_cons {β γ ε : Type} {f : β → Except ε γ} {x : β} {xs : List β} {ys : List γ}
    (h : (x :: xs).mapM f = .ok ys) : ∃ y ys', f x = .ok y ∧ xs.mapM f = .ok ys' ∧ ys = y :: ys' := by
  rw [List.mapM_cons] at h
  cases hx : f x with
  | error e =>
      rw [hx] at h
      cases h
  | ok y =>
      cases hxs : xs.mapM f with
      | error e =>
          rw [hx, hxs] at h
          cases h
      | ok ys' =>
          rw [hx, hxs] at h
          cases h
          exact ⟨y, ys', rfl, rfl, rfl⟩

/-- Calls that keep the protocol are drawn by primitives that do. -/
theorem Keeps.exists_primitives {cs : List (Call α)} (h : Keeps cs) :
    ∃ pss, cs.mapM Call.primitives = .ok pss ∧ Orderly pss.flatten := by
  induction h with
  | nil => exact ⟨[], rfl, .nil⟩
  | @mark c cs hc _ ih =>
      obtain ⟨pss, hpss, horderly⟩ := ih
      cases c with
      | primitive p => exact ⟨[p] :: pss, mapM_cons_eq_ok rfl hpss, .shape hc horderly⟩
      | composite c =>
          obtain ⟨ps, hps, hdrawn⟩ := Composite.exists_primitives hc
          exact ⟨ps :: pss, mapM_cons_eq_ok hps hpss, hdrawn.append horderly⟩
  | frame origin _ _ ih ih' =>
      obtain ⟨pss, hpss, horderly⟩ := ih
      obtain ⟨qss, hqss, horderly'⟩ := ih'
      refine ⟨[.pushTranslate origin] :: pss ++ [.popTranslate] :: qss, ?_, ?_⟩
      · exact mapM_append_eq_ok (mapM_cons_eq_ok rfl hpss) (mapM_cons_eq_ok rfl hqss)
      · rw [List.flatten_append, List.flatten_cons, List.flatten_cons]
        exact .frame origin horderly horderly'
  | link name _ _ ih ih' =>
      obtain ⟨pss, hpss, horderly⟩ := ih
      obtain ⟨qss, hqss, horderly'⟩ := ih'
      refine ⟨[.beginLink name] :: pss ++ [.endLink] :: qss, ?_, ?_⟩
      · exact mapM_append_eq_ok (mapM_cons_eq_ok rfl hpss) (mapM_cons_eq_ok rfl hqss)
      · rw [List.flatten_append, List.flatten_cons, List.flatten_cons]
        exact .link name horderly horderly'

end Primitives

namespace Strokes

open Metrics

variable {box body name expression first last : Box α} {alternatives : List (Box α)}
  {direction : Direction} {above : Bool} {s : Surroundings α}

@[simp] theorem isMark_connect (leaving : Direction) (p q : Point α) (arriving : Direction) :
    (connect leaving p q arriving).isMark = leaving.joins arriving := rfl

omit [Scalar α] in
@[simp] theorem isMark_primitive (p : Primitive α) : (Call.primitive p).isMark = p.isShape := rfl

omit [Scalar α] in
@[simp] theorem isMark_composite (c : Composite α) : (Call.composite c).isMark = c.isSupported := rfl

omit [Scalar α] in
@[simp] theorem isMark_hline (p q : Point α) : (hline p q).isMark = true := rfl

omit [Scalar α] in
@[simp] theorem isMark_vline (p q : Point α) : (vline p q).isMark = true := rfl

@[simp] theorem isMark_forwardArrow : (forwardArrow direction box).isMark = true := by
  simp only [forwardArrow]
  split <;> rfl

theorem keeps_production : Keeps (production name expression) :=
  .of_marks (by simp [production, Primitive.isShape])

omit [Scalar α] in
theorem forall_mem_mapIdx {P : Call α → Prop} {each : Nat → Box α → List (Call α)}
    (h : ∀ i, ∀ b ∈ alternatives, ∀ c ∈ each i b, P c) :
    ∀ c ∈ (alternatives.mapIdx each).flatten, P c := by
  intro c hc
  obtain ⟨cs, hcs, hc⟩ := List.mem_flatten.mp hc
  obtain ⟨i, hi, rfl⟩ := List.mem_mapIdx.mp hcs
  exact h i _ (List.getElem_mem hi) c hc

theorem keeps_fan : Keeps (fan direction above box first last alternatives) := by
  rw [fan]
  split
  · refine .append (.of_marks ?_) (.of_marks (forall_mem_mapIdx fun i b _ => ?_))
    · cases above <;> simp [Direction.joins]
    · split <;> split <;> simp [Direction.joins]
  · refine .append (.of_marks ?_) (.of_marks (forall_mem_mapIdx fun i b _ => ?_))
    · cases above <;> simp [Direction.joins]
    · split <;> split <;> simp [Direction.joins]

theorem keeps_stack : Keeps (stack s above box first last alternatives) := by
  refine .append (.append (.of_marks ?_) (.of_marks ?_)) (.of_marks ?_)
  · cases above <;> cases s.useLeft <;> cases s.useRight <;> simp [Direction.joins]
  · cases above <;> cases s.useLeft <;> cases s.useRight <;> simp [Direction.joins]
  · intro c hc
    obtain ⟨b, -, hc⟩ := List.mem_flatMap.mp hc
    simp only [List.mem_cons, List.not_mem_nil, or_false] at hc
    rcases hc with rfl | rfl <;> rfl

theorem keeps_repetition : Keeps (repetition direction above box body) := by
  cases above <;> exact .of_marks (by simp [repetition, Direction.joins])

theorem keeps_loop : Keeps (loop direction box body) := by
  refine .of_marks ?_
  simp only [loop]
  split <;> simp [Direction.joins, Composite.isSupported]

theorem keeps_separatedLoop {separator : Box α} : Keeps (separatedLoop box body separator) :=
  .of_marks (by simp [separatedLoop, Direction.joins])

theorem keeps_optional : Keeps (optional s above box body) := by
  refine .of_marks ?_
  simp only [optional]
  cases above <;> cases s.useLeft <;> cases s.useRight <;> simp [Direction.joins]

/-- The arrow before a leaf and the line behind it. -/
inductive LeafArrow : Direction → List (Call α) → Prop
  | none : LeafArrow .none []
  | up : LeafArrow .up []
  | down (p q r : Point α) (length size : α) :
      LeafArrow .down [.composite (.arrowDown p length size), vline q r]
  | left (p q r : Point α) (length size : α) :
      LeafArrow .left [.composite (.arrowLeft p length size), hline q r]
  | right (p q r : Point α) (length size : α) :
      LeafArrow .right [.composite (.arrowRight p length size), hline q r]

/-- The look of a leaf in a style: its text alone, or in an outline, which is a link if the leaf is a name with a
target. -/
inductive LeafLook (text : String) (isLinked isPlain : Bool) : Style → List (Primitive α) → Prop
  | label (x y w h : α) {style : Style} (hstyle : style = .production ∨ style = .title) :
      LeafLook text isLinked isPlain style [.text x y w h text style]
  | name (x y w h inner : α) (hlinked : isLinked = false) :
      LeafLook text isLinked isPlain .identifier
        [.rectangle x y w h .identifier, .centeredText x y w inner text .identifier]
  | link (x y w h inner : α) (hlinked : isLinked = true) :
      LeafLook text isLinked isPlain .identifier
        [.beginLink text, .rectangle x y w h .identifier, .centeredText x y w inner text .identifier,
          .endLink]
  | plain (x y w inner : α) {style : Style} (hstyle : style ≠ .production ∧ style ≠ .title)
      (hname : style ≠ .identifier) (hplain : isPlain = true) :
      LeafLook text isLinked isPlain style [.centeredText x y w inner text style]
  | word (x y w h inner : α) {style : Style} (hstyle : style ≠ .production ∧ style ≠ .title)
      (hname : style ≠ .identifier) (hplain : isPlain = false) :
      LeafLook text isLinked isPlain style
        [.roundedRectangle x y w h style, .centeredText x y w inner text style]

/-- The style of a leaf in a direction: outside the rules everything but a title looks like the name of a
rule. -/
def lookOf (direction : Direction) (style : Style) : Style :=
  if direction = .none && style != .title then .production else style

/-- All that a leaf can draw. -/
theorem exists_leaf (direction : Direction) (isLinked isPlain : Bool) (style : Style) (box : Box α)
    (text : String) : ∃ (arrow : List (Call α)) (look : List (Primitive α)),
      leaf direction isLinked isPlain style box text = arrow ++ look.map Call.primitive ∧
      LeafArrow direction arrow ∧ LeafLook text isLinked isPlain (lookOf direction style) look := by
  have hlook : ∀ (style : Style) (x y w h inner : α), ∃ look : List (Primitive α),
      (if style = .production || style = .title then [.primitive (.text (x + padH) y w inner text style)]
        else if style = .identifier then
          (if isLinked then [.primitive (.beginLink text)] else [])
            ++ [.primitive (.rectangle x y w h style), .primitive (.centeredText x y w inner text style)]
            ++ (if isLinked then [.primitive .endLink] else [])
        else if isPlain then [.primitive (.centeredText x y w inner text style)]
        else [.primitive (.roundedRectangle x y w h style),
          .primitive (.centeredText x y w inner text style)]) = look.map Call.primitive ∧
        LeafLook text isLinked isPlain style look := by
    intro style x y w h inner
    by_cases htext : (style = .production || style = .title) = true
    · exact ⟨_, if_pos htext, .label _ _ _ _ (by simpa using htext)⟩
    · rw [if_neg htext]
      by_cases hname : style = .identifier
      · subst hname
        cases isLinked with
        | false => exact ⟨_, rfl, .name x y w h inner rfl⟩
        | true => exact ⟨_, rfl, .link x y w h inner rfl⟩
      · have hstyle : style ≠ .production ∧ style ≠ .title := by simpa using htext
        rw [if_neg hname]
        cases isPlain with
        | true => exact ⟨_, rfl, .plain x y w inner hstyle hname rfl⟩
        | false => exact ⟨_, rfl, .word x y w h inner hstyle hname rfl⟩
  cases direction with
  | none =>
      obtain ⟨look, hlook, hshape⟩ := hlook (lookOf .none style) _ _ _ _ _
      exact ⟨_, look, congrArg ([] ++ ·) hlook, .none, hshape⟩
  | up =>
      obtain ⟨look, hlook, hshape⟩ := hlook style _ _ _ _ _
      exact ⟨_, look, congrArg ([] ++ ·) hlook, .up, hshape⟩
  | down =>
      obtain ⟨look, hlook, hshape⟩ := hlook style _ _ _ _ _
      exact ⟨_, look, congrArg (_ ++ ·) hlook, .down _ _ _ _ _, hshape⟩
  | left =>
      obtain ⟨look, hlook, hshape⟩ := hlook style _ _ _ _ _
      exact ⟨_, look, congrArg (_ ++ ·) hlook, .left _ _ _ _ _, hshape⟩
  | right =>
      obtain ⟨look, hlook, hshape⟩ := hlook style _ _ _ _ _
      exact ⟨_, look, congrArg (_ ++ ·) hlook, .right _ _ _ _ _, hshape⟩

theorem keeps_leaf {isLinked isPlain : Bool} {style : Style} {text : String} :
    Keeps (leaf direction isLinked isPlain style box text) := by
  obtain ⟨arrow, look, hleaf, harrow, hlook⟩ := exists_leaf direction isLinked isPlain style box text
  rw [hleaf]
  generalize lookOf direction style = style at hlook
  refine .append ?_ ?_
  · cases harrow <;> exact .of_marks (by simp [Composite.isSupported])
  · cases hlook with
    | link x y w h inner =>
        have hinner : Keeps [.primitive (.rectangle x y w h .identifier),
            .primitive (.centeredText x y w inner text .identifier)] :=
          .of_marks (by simp [Primitive.isShape])
        exact .link text hinner .nil
    | label | name | plain | word => exact .of_marks (by simp [Primitive.isShape])

end Strokes

end Railroad
