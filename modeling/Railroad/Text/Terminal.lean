/-!
The sequences by which a text sets colours and moves the cursor of a terminal.
-/
namespace Railroad.Text

/-- A character of a sequence's parameters. -/
def isParameter (c : Char) : Bool :=
  c.isDigit || c = ';' || c = '?'

/-- What follows the control sequence that a text starts with: an escape character, an opening bracket,
parameters and an ASCII letter. -/
def afterControl? : List Char → Option (List Char)
  | '\x1b' :: '[' :: cs =>
      match cs.dropWhile isParameter with
      | [] => none
      | c :: rest => if c.isAlpha then some rest else none
  | _ => none

theorem afterControl?_length_lt {cs rest : List Char} (h : afterControl? cs = some rest) :
    rest.length < cs.length := by
  unfold afterControl? at h
  split at h
  · rename_i cs
    have hle := (List.dropWhile_sublist isParameter (l := cs)).length_le
    split at h
    · simp at h
    · rename_i c after hdrop
      rw [hdrop] at hle
      split at h
      · obtain rfl := Option.some.inj h
        simp only [List.length_cons] at hle ⊢
        omega
      · simp at h
  · simp at h

/-- A text without its control sequences. -/
def withoutControls (cs : List Char) : List Char :=
  match _h : afterControl? cs with
  | some rest => withoutControls rest
  | none =>
      match cs with
      | [] => []
      | c :: cs => c :: withoutControls cs
termination_by cs.length
decreasing_by
  · exact afterControl?_length_lt _h
  · simp

/-- A text as it is printed to something else than a terminal. -/
def plain (text : String) : String :=
  String.ofList (withoutControls text.toList)

end Railroad.Text
