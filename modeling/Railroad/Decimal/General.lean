import Railroad.Decimal.Binary
import Railroad.Decimal.Form
/-!
Numbers to a fixed count of significant digits, without trailing zeros: the general form of drawing
coordinates and of recorded calls.
-/
namespace Railroad.Decimal

/-- The fraction to `precision` significant digits; a tie goes to the even last digit. -/
def Fraction.significant (q : Fraction) (precision : Nat) : Digits :=
  let last := q.decimalExponent - precision + 1
  ⟨(q.dropTens last).round, last⟩

private def signed (negative : Bool) (text : String) : String :=
  if negative then "-" ++ text else text

/-- General form of a binary number: scientific if the rounded number's exponent is below `-4` or at
least the precision. -/
def Binary.general (precision : Nat) : Binary → String
  | .nan => "nan"
  | .infinite negative => signed negative "inf"
  | .finite negative significand exponent =>
      let form : Form := ⟨precision, false⟩
      signed negative <|
        if significand = 0 then form.zero
        else form.text ((Fraction.scaled significand exponent).significant precision)

private theorem isNumeral_signed {text : String} (h : IsNumeral text) (negative : Bool) :
    IsNumeral (signed negative text) := by
  cases negative with
  | false => exact h
  | true => exact .append (by decide) h

theorem Binary.isNumeral_general (precision : Nat) (b : Binary) : IsNumeral (b.general precision) := by
  cases b with
  | nan => exact (by decide : IsNumeral "nan")
  | infinite negative => exact isNumeral_signed (by decide) negative
  | finite negative significand exponent =>
      refine isNumeral_signed ?_ negative
      split
      · exact Form.isNumeral_zero _
      · exact Form.isNumeral_text _ _

/-- General form of a double. -/
def general (precision : Nat) (x : Float) : String :=
  (Binary.ofFloat x).general precision

/-- The six digits that recorded calls and drawings are written with. -/
def compact (x : Float) : String :=
  general 6 x

theorem isNumeral_compact (x : Float) : IsNumeral (compact x) :=
  Binary.isNumeral_general 6 _

end Railroad.Decimal
