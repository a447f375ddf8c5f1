import Railroad.Text.Blank
/-!
Whole numbers as people type them: with blanks around, a sign, zeros in front, single underscores
between the digits, or decimals that are all zero.
-/
namespace Railroad.Text

/-- The number that decimal digits stand for. -/
def digitsValue (digits : List Char) : Nat :=
  digits.foldl (fun n c => 10 * n + (c.toNat - '0'.toNat)) 0

/-- A number in its plain form: a minus sign, if any, and digits that start with a zero only if that is
all, at most 4300 of them. -/
def plainInteger? (cs : List Char) : Option Int :=
  let digits := if cs.head? = some '-' then cs.drop 1 else cs
  if digits.isEmpty || !digits.all Char.isDigit then none
  else if digits.head? = some '0' && digits.length ≠ 1 then none
  else if 4300 < digits.length then none
  else if cs.head? = some '-' then some (-(digitsValue digits : Int))
  else some (digitsValue digits)

/-- What follows leading zeros, of which `last` was the last character.  One is kept if nothing follows
or only decimals do. -/
def afterZeros (last : Char) : List Char → Option (List Char)
  | [] => some [last]
  | c :: cs =>
      if c = '0' || c = '_' then afterZeros c cs
      else if c.isDigit || c = '-' then some (c :: cs)
      else if c = '.' then some (last :: c :: cs)
      else none

/-- An unsigned number without leading zeros, among which there may be underscores. -/
def withoutZeros? : List Char → Option (List Char)
  | [] => none
  | c :: cs =>
      if c = '0' then afterZeros c cs
      else if c.isDigit then some (c :: cs)
      else none

/-- A number without its decimals if they are all zero. -/
def withoutDecimals (cs : List Char) : List Char :=
  let decimals := (cs.dropWhile (· ≠ '.')).drop 1
  if decimals.isEmpty || !decimals.all (· = '0') then cs else cs.takeWhile (· ≠ '.')

/-- Whether every underscore stands alone between other characters. -/
def spacedOut : List Char → Bool
  | [] => true
  | ['_'] => false
  | '_' :: '_' :: _ => false
  | _ :: cs => spacedOut cs

/-- A number without underscores; those that do not stand between other characters are left in it. -/
def withoutUnderscores (cs : List Char) : List Char :=
  if cs.head? = some '_' || !spacedOut cs then cs else cs.filter (· ≠ '_')

/-- Blanks around a number; the four ASCII information separators are none. -/
def isPadding (c : Char) : Bool :=
  isBlank c && !(0x1c ≤ c.toNat && c.toNat ≤ 0x1f)

/-- The plain form of an unsigned number. -/
def plainDigits? (cs : List Char) : Option (List Char) :=
  (withoutZeros? cs).map fun cs => withoutUnderscores (withoutDecimals cs)

/-- The plain form of the number in a text.  The sign is no part of what is made plain: a plus sign is
dropped, and a minus sign is put back in front. -/
def plainForm? (cs : List Char) : Option (List Char) :=
  match ((cs.dropWhile isPadding).reverse.dropWhile isPadding).reverse with
  | '-' :: cs => (plainDigits? cs).map ('-' :: ·)
  | '+' :: cs => plainDigits? cs
  | cs => plainDigits? cs

/-- The number in a text. -/
def integer? (text : String) : Option Int :=
  (plainForm? text.toList).bind plainInteger?

end Railroad.Text
