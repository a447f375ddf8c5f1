import Railroad.Drawing.Connector
/-!
Outputs as state machines: an output answers a primitive with its next state and, where something is
wrong, a fault.  An output may have changed even if it answers with a fault.
-/
namespace Railroad

/-- The answer of an output with states in `σ`. -/
structure Reply (σ : Type) where
  state : σ
  fault : Option SurfaceFault

namespace Reply

variable {σ τ : Type}

/-- Nothing is wrong. -/
def ok (state : σ) : Reply σ :=
  ⟨state, none⟩

/-- Something is wrong. -/
def wrong (state : σ) (fault : SurfaceFault) : Reply σ :=
  ⟨state, some fault⟩

/-- Goes on from a state unless something is wrong already. -/
def andThen (r : Reply σ) (next : σ → Reply σ) : Reply σ :=
  match r.fault with
  | none => next r.state
  | some _ => r

/-- The answer of a larger output that holds this one. -/
def map (f : σ → τ) (r : Reply σ) : Reply τ :=
  ⟨f r.state, r.fault⟩

end Reply

/-- Sends primitives one after another, up to the first that goes wrong. -/
def sendAll {σ β : Type} (step : σ → β → Reply σ) (state : σ) : List β → Reply σ
  | [] => .ok state
  | p :: ps => (step state p).andThen fun next => sendAll step next ps

/-- Sends the primitives of a call.  A connector that has no shape is refused before anything is sent. -/
def sendCall {α σ : Type} [Scalar α] (step : σ → Primitive α → Reply σ) (state : σ) (c : Call α) :
    Reply σ :=
  match c.primitives with
  | .ok ps => sendAll step state ps
  | .error fault => .wrong state fault

/-- The origins in force, as absolute points; the first stands below all others. -/
@[ext] structure Origins (α : Type) where
  current : Point α
  below : List (Point α)
deriving Repr, DecidableEq

namespace Origins

variable {α : Type} [Scalar α]

def start : Origins α :=
  ⟨.zero, []⟩

/-- Makes a local point the new origin. -/
def push (o : Origins α) (origin : Point α) : Origins α :=
  ⟨o.current.translate origin, o.current :: o.below⟩

omit [Scalar α] in
/-- Goes back to the origin before the last push. -/
def pop (o : Origins α) : Except SurfaceFault (Origins α) :=
  match o.below with
  | [] => .error .emptyTranslation
  | p :: ps => .ok ⟨p, ps⟩

omit [Scalar α] in
/-- The number of origins pushed. -/
def depth (o : Origins α) : Nat :=
  o.below.length

/-- The absolute `x`. -/
def toX (o : Origins α) (x : α) : α :=
  x + o.current.x

/-- The absolute `y`. -/
def toY (o : Origins α) (y : α) : α :=
  y + o.current.y

/-- The absolute point. -/
def toPoint (o : Origins α) (x y : α) : Point α :=
  ⟨o.toX x, o.toY y⟩

end Origins

end Railroad
