import Railroad.Surface.Png
import Railroad.Surface.Recorder
import Railroad.Surface.Svg
import Railroad.Surface.Tikz
/-!
All outputs, each by itself or behind a recorder.
-/
namespace Railroad

/-- An output. -/
inductive Surface (α : Type) where
  /-- Keeps track of origins and draws nothing. -/
  | blank (origins : Origins α)
  /-- Records calls and draws nothing. -/
  | recording (r : Traced α Unit)
  /-- An SVG document, or an HTML page if its options name one. -/
  | svg (s : Svg α)
  | tikz (s : Tikz α)
  | png (s : Png α)

namespace Surface

variable {α : Type} [Scalar α]

/-- Takes every primitive and does nothing. -/
def ignore (u : Unit) (_ : Primitive α) : Reply Unit :=
  .ok u

/-- An output that has no answer to the primitives that draw. -/
def blankPrimitive (o : Origins α) (p : Primitive α) : Reply (Origins α) :=
  match p with
  | .openDocument | .closeDocument => .ok o
  | .pushTranslate origin => .ok (o.push origin)
  | .popTranslate =>
      match o.pop with
      | .ok o => .ok o
      | .error fault => .wrong o fault
  | _ => .wrong o .unanswered

/-- Answers a primitive. -/
def primitive (s : Surface α) (p : Primitive α) : Reply (Surface α) :=
  match s with
  | blank o => (blankPrimitive o p).map blank
  | recording r => (r.primitive ignore p).map recording
  | svg s => (s.primitive p).map svg
  | tikz s => (s.primitive p).map tikz
  | png s => (s.primitive p).map png

/-- Answers a call. -/
def call (s : Surface α) (c : Call α) : Reply (Surface α) :=
  match s with
  | recording r => (r.call ignore c).map recording
  | _ => sendCall primitive s c

omit [Scalar α] in
/-- The origins in force. -/
def origins : Surface α → Origins α
  | blank o => o
  | recording r => r.recorder.origins
  | svg s => s.origins
  | tikz s => s.origins
  | png s => s.origins

end Surface

/-- An output, with or without a recorder in front of it. -/
inductive Output (α : Type) where
  | direct (s : Surface α)
  | traced (t : Traced α (Surface α))

namespace Output

variable {α : Type} [Scalar α]

/-- Answers a call. -/
def call (o : Output α) (c : Call α) : Reply (Output α) :=
  match o with
  | direct s => (s.call c).map direct
  | traced t => (t.call Surface.primitive c).map traced

omit [Scalar α] in
/-- The output behind the recorder. -/
def surface : Output α → Surface α
  | direct s => s
  | traced t => t.inner

omit [Scalar α] in
/-- The origins in force in front. -/
def origins : Output α → Origins α
  | direct s => s.origins
  | traced t => t.recorder.origins

omit [Scalar α] in
/-- What was recorded, if anything records. -/
def records : Output α → Array (Record α)
  | direct (.recording r) => r.recorder.records
  | direct _ => #[]
  | traced t => t.recorder.records

end Output

/-- A coordinate in a drawing; both zeros are written alike. -/
def svgNumber (x : Float) : String :=
  if x == 0 then "0" else Decimal.compact x

/-- A length in units of the text size. -/
def tikzLength (x : Float) : String :=
  svgNumber (x / Metrics.textSize) ++ "em"

/-- The text pieces written so far. -/
def Surface.written : Surface Float → List String
  | .svg s => s.pieces.toList.map (·.print svgNumber s.options.inlineStyle)
  | .tikz s => s.pieces.toList.map (·.print tikzLength)
  | _ => []

/-- The document written so far. -/
def Surface.document (s : Surface Float) : String :=
  String.join s.written

end Railroad
