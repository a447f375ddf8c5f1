import Railroad.Surface.Surface
/-!
Outputs made to order: the kinds of outputs and the settings that each of them knows.
-/
namespace Railroad

inductive SurfaceKind where
  | blank
  | recording
  | svg
  | html
  | tikz
  | png
deriving Repr, DecidableEq

/-- The value of a setting. -/
inductive SettingValue where
  | nothing
  | text (s : String)
  | flag (b : Bool)
  | integer (n : Int)
deriving Repr, DecidableEq

/-- Whether a value switches something on: nothing, zero and the empty text do not. -/
def SettingValue.isOn : SettingValue → Bool
  | nothing => false
  | text s => s ≠ ""
  | flag b => b
  | integer n => n ≠ 0

structure Setting where
  name : String
  value : SettingValue
deriving Repr, DecidableEq

/-- A setting that an output does not have. -/
structure UnknownSetting where
  name : String
deriving Repr, DecidableEq

/-- The options of SVG documents, `page` being that of an HTML page. -/
def SvgOptions.set (o : SvgOptions) (s : Setting) : Except UnknownSetting SvgOptions :=
  match s.name, s.value, o.page with
  | "stylesheet", .nothing, _ => .ok { o with stylesheet := none }
  | "stylesheet", .text t, _ => .ok { o with stylesheet := some t }
  | "inline_style", value, _ => .ok { o with inlineStyle := value.isOn }
  | "title", .text t, some _ => .ok { o with page := some t }
  | _, _, _ => .error ⟨s.name⟩

def TikzOptions.set (o : TikzOptions) (s : Setting) : Except UnknownSetting TikzOptions :=
  match s.name, s.value with
  | "caption", .text t => .ok { o with caption := t }
  | "label", .text t => .ok { o with label := t }
  | _, _ => .error ⟨s.name⟩

/-- The file of the font is taken and bears on nothing. -/
def PngOptions.set (o : PngOptions) (s : Setting) : Except UnknownSetting PngOptions :=
  match s.name, s.value with
  | "scale", .integer n => .ok { o with scale := n }
  | "margin", .integer n => .ok { o with margin := n }
  | "line_width", .integer n => .ok { o with lineWidth := n }
  | "font_size", .integer n => .ok { o with fontSize := n }
  | "font_path", .text _ | "font_path", .nothing => .ok o
  | _, _ => .error ⟨s.name⟩

namespace SurfaceKind

/-- Options before any settings. -/
def svgOptions : SvgOptions :=
  ⟨some "svg.css", true, none⟩

def htmlOptions : SvgOptions :=
  ⟨some "svg.css", true, some "Grammar"⟩

def tikzOptions : TikzOptions :=
  ⟨"Figure", "fig:picture"⟩

def pngOptions : PngOptions :=
  ⟨2, 10, 2, 20⟩

/-- A fresh output of a kind.  Outputs that draw nothing take any settings. -/
def create {α : Type} [Scalar α] (kind : SurfaceKind) (settings : List Setting) :
    Except UnknownSetting (Surface α) :=
  match kind, settings with
  | blank, _ => .ok (.blank .start)
  | recording, _ => .ok (.recording ⟨.start, ()⟩)
  | svg, _ => return .svg (.start (← settings.foldlM SvgOptions.set svgOptions))
  | html, _ => return .svg (.start (← settings.foldlM SvgOptions.set htmlOptions))
  | tikz, _ => return .tikz (.start (← settings.foldlM TikzOptions.set tikzOptions))
  | png, _ => return .png (.start (← settings.foldlM PngOptions.set pngOptions))

end SurfaceKind

end Railroad
