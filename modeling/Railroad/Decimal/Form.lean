/-!
How a decimal number is written down: positional between two exponents and scientific outside them.
-/
namespace Railroad.Decimal

/-- A decimal number, `coefficient · 10 ^ exponent`. -/
structure Digits where
  coefficient : Nat
  exponent : Int
deriving Repr, DecidableEq, Inhabited

/-- The choices that two otherwise equal ways of writing numbers differ in. -/
structure Form where
  /-- The exponent of the leading digit from which on the number is written scientifically. -/
  scientificFrom : Int
  /-- Whether a whole number in positional form keeps a point and a zero. -/
  wholePoint : Bool
deriving Repr, DecidableEq

namespace Form

private def dropZeros (ds : List Char) : List Char :=
  (ds.reverse.dropWhile (· == '0')).reverse

/-- The exponent's sign and at least two digits. -/
private def exponentText (x : Int) : String :=
  let digits := toString x.natAbs
  (if x < 0 then "-" else "+") ++ (if digits.length < 2 then "0" ++ digits else digits)

/-- Positive numbers, without trailing zeros: positional if the leading digit stands for at least
`10 ^ -4` and less than `10 ^ scientificFrom`. -/
def text (form : Form) (d : Digits) : String :=
  let all := Nat.toDigits 10 d.coefficient
  let leading : Int := d.exponent + all.length - 1
  let kept := dropZeros all
  if leading < -4 || form.scientificFrom ≤ leading then
    let tail := kept.drop 1
    String.ofList (kept.take 1) ++ (if tail.isEmpty then "" else "." ++ String.ofList tail)
      ++ "e" ++ exponentText leading
  else if leading < 0 then
    "0." ++ String.ofList (List.replicate (-leading - 1).toNat '0' ++ kept)
  else
    let places := leading.toNat + 1
    let whole := kept.take places
    let rest := kept.drop places
    String.ofList (whole ++ List.replicate (places - whole.length) '0')
      ++ (if rest.isEmpty then (if form.wholePoint then ".0" else "") else "." ++ String.ofList rest)

/-- Zero has no leading digit; it is written on its own. -/
def zero (form : Form) : String :=
  if form.wholePoint then "0.0" else "0"

end Form

/-- The characters that numbers are written with: digits, points, signs, the letter before an exponent, and
those of the words for what is no finite number. -/
def isNumeral (c : Char) : Bool :=
  c.isAlphanum || c = '.' || c = '+' || c = '-'

/-- A text that is made of such characters. -/
def IsNumeral (text : String) : Prop :=
  ∀ c ∈ text.toList, isNumeral c = true

instance (text : String) : Decidable (IsNumeral text) :=
  List.decidableBAll (fun c => isNumeral c = true) text.toList

theorem IsNumeral.append {s t : String} (h : IsNumeral s) (h' : IsNumeral t) : IsNumeral (s ++ t) := by
  intro c hc
  rw [String.toList_append] at hc
  exact (List.mem_append.mp hc).elim (h c) (h' c)

theorem IsNumeral.of_list {cs : List Char} (h : ∀ c ∈ cs, isNumeral c = true) :
    IsNumeral (String.ofList cs) := by
  rwa [IsNumeral, String.toList_ofList]

namespace Form

private theorem isNumeral_of_mem_toDigits {n : Nat} {c : Char} (h : c ∈ Nat.toDigits 10 n) :
    isNumeral c = true := by
  simp [isNumeral, Char.isAlphanum, Nat.isDigit_of_mem_toDigits (by decide) (by decide) h]

private theorem isNumeral_exponentText (x : Int) : IsNumeral (exponentText x) := by
  have hdigits : IsNumeral (toString x.natAbs) := .of_list fun _ => isNumeral_of_mem_toDigits
  refine .append ?_ ?_
  · split <;> decide
  · split
    · exact .append (by decide) hdigits
    · exact hdigits

private theorem mem_of_mem_dropZeros {ds : List Char} {c : Char} (h : c ∈ dropZeros ds) : c ∈ ds :=
  List.mem_reverse.mp ((List.dropWhile_sublist _).subset (List.mem_reverse.mp h))

theorem isNumeral_text (form : Form) (d : Digits) : IsNumeral (form.text d) := by
  have hkept : ∀ c ∈ dropZeros (Nat.toDigits 10 d.coefficient), isNumeral c = true := fun c hc =>
    isNumeral_of_mem_toDigits (mem_of_mem_dropZeros hc)
  have hzeros : ∀ n, ∀ c ∈ List.replicate n '0', isNumeral c = true := fun n c hc => by
    rw [List.eq_of_mem_replicate hc]
    decide
  rw [text]
  dsimp only
  generalize dropZeros (Nat.toDigits 10 d.coefficient) = kept at hkept ⊢
  have htake : ∀ n, ∀ c ∈ kept.take n, isNumeral c = true := fun n c hc =>
    hkept c (List.mem_of_mem_take hc)
  have hdrop : ∀ n, IsNumeral (String.ofList (kept.drop n)) := fun n =>
    .of_list fun c hc => hkept c (List.mem_of_mem_drop hc)
  split
  · refine .append (.append (.append (.of_list (htake 1)) ?_) (by decide)) (isNumeral_exponentText _)
    split
    · decide
    · exact .append (by decide) (hdrop 1)
  · split
    · exact .append (by decide) (.of_list fun c hc => (List.mem_append.mp hc).elim (hzeros _ c) (hkept c))
    · refine .append (.of_list fun c hc => (List.mem_append.mp hc).elim (htake _ c) (hzeros _ c)) ?_
      split
      · split <;> decide
      · exact .append (by decide) (hdrop _)

theorem isNumeral_zero (form : Form) : IsNumeral form.zero := by
  rw [zero]
  split <;> decide

end Form

end Railroad.Decimal
