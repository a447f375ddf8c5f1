import Railroad.Surface.Reply
import Railroad.Trace.Record
/-!
A recorder in front of another output: it keeps a record of every call and passes the primitives on.
Composites are recorded, and so are the primitives that draw them, as nested calls.
-/
namespace Railroad

/-- What a recorder has seen: the origins in force, the records so far, and the number of composites
that it is inside of. -/
structure Recorder (α : Type) where
  origins : Origins α
  records : Array (Record α)
  depth : Nat

namespace Recorder

variable {α : Type}

def start [Scalar α] : Recorder α :=
  ⟨.start, #[], 0⟩

/-- Records a primitive. -/
def note (r : Recorder α) (p : Primitive α) : Recorder α :=
  { r with records := r.records.push (p.record r.origins.current (0 < r.depth)) }

/-- Records a composite and goes inside. -/
def enter (r : Recorder α) (c : Composite α) : Recorder α :=
  { r with
    records := r.records.push (c.record r.origins.current (0 < r.depth))
    depth := r.depth + 1 }

/-- Leaves a composite. -/
def leave (r : Recorder α) : Recorder α :=
  { r with depth := r.depth - 1 }

end Recorder

/-- A recorder in front of an output with states in `σ`. -/
structure Traced (α σ : Type) where
  recorder : Recorder α
  inner : σ

namespace Traced

variable {α σ : Type} [Scalar α] (step : σ → Primitive α → Reply σ)

/-- Records a primitive and passes it on. -/
def forward (t : Traced α σ) (p : Primitive α) : Reply (Traced α σ) :=
  let recorder := t.recorder.note p
  (step t.inner p).map fun inner => ⟨recorder, inner⟩

/-- Answers a primitive.  The recorder has origins of its own: a pushed one is recorded first and
dropped ones last, and one that is not there is not recorded at all. -/
def primitive (t : Traced α σ) (p : Primitive α) : Reply (Traced α σ) :=
  match p with
  | .pushTranslate origin =>
      (forward step t p).andThen fun t =>
        .ok { t with recorder := { t.recorder with origins := t.recorder.origins.push origin } }
  | .popTranslate =>
      match t.recorder.origins.pop with
      | .error fault => .wrong t fault
      | .ok origins => forward step { t with recorder := { t.recorder with origins } } p
  | _ => forward step t p

/-- Sends the primitives of a composite that has no shaft. -/
def stroke (t : Traced α σ) (c : Composite α) : Reply (Traced α σ) :=
  match c.strokes with
  | .ok ps => sendAll (primitive step) t ps
  | .error fault => .wrong t fault

omit [Scalar α] in
/-- Leaves the composite last entered. -/
def leave (t : Traced α σ) : Traced α σ :=
  { t with recorder := t.recorder.leave }

omit [Scalar α] in
/-- Enters a composite. -/
def enter (t : Traced α σ) (c : Composite α) : Traced α σ :=
  { t with recorder := t.recorder.enter c }

/-- Draws a line inside a composite.  If that goes wrong, the line is not left. -/
def line (t : Traced α σ) (c : Composite α) : Reply (Traced α σ) :=
  (stroke step (t.enter c) c).andThen fun t => .ok t.leave

/-- Answers a composite.  A connector is left however it ends, lines and arrows only if nothing goes
wrong. -/
def composite (t : Traced α σ) (c : Composite α) : Reply (Traced α σ) :=
  match c with
  | .connector .. => (stroke step (t.enter c) c).map leave
  | _ =>
      let shaft := match c.shaft? with
        | some l => line step (t.enter c) l
        | none => .ok (t.enter c)
      (shaft.andThen fun t => stroke step t c).andThen fun t => .ok t.leave

/-- Answers a call. -/
def call (t : Traced α σ) : Call α → Reply (Traced α σ)
  | .primitive p => primitive step t p
  | .composite c => composite step t c

end Traced

end Railroad
