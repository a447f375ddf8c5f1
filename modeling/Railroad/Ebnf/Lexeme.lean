import Railroad.Text.Blank
/-!
The pieces that grammar text is cut into: tokens, and the blanks and comments between them.

`lexemes` cuts a text from left to right; what it could not cut is returned as the rest.
-/
namespace Railroad.Ebnf

inductive TokenKind where
  | string
  | special
  | define
  | ident
  | punct
deriving Repr, DecidableEq, Inhabited

/-- The word for a kind of token. -/
def TokenKind.word : TokenKind → String
  | .string => "string"
  | .special => "special"
  | .define => "define"
  | .ident => "ident"
  | .punct => "punct"

inductive LexemeKind where
  | blank
  | comment
  | token (kind : TokenKind)
deriving Repr, DecidableEq, Inhabited

structure Lexeme where
  kind : LexemeKind
  text : List Char
deriving Repr, DecidableEq, Inhabited

/-- Letters and the underscore. -/
def isIdentStart (c : Char) : Bool :=
  ('A' ≤ c && c ≤ 'Z') || ('a' ≤ c && c ≤ 'z') || c = '_'

/-- Letters, digits, the underscore and the hyphen. -/
def isIdentPart (c : Char) : Bool :=
  isIdentStart c || ('0' ≤ c && c ≤ '9') || c = '-'

/-- The characters that are tokens of their own. -/
def isPunct (c : Char) : Bool :=
  ['|', ',', '.', ';', '(', ')', '[', ']', '\x7b', '\x7d', '<', '>', '/'].contains c

/-- The number of characters up to the end of the first `*)`. -/
def commentEnd? : List Char → Option Nat
  | '*' :: ')' :: _ => some 2
  | _ :: cs => (commentEnd? cs).map (· + 1)
  | [] => none

/-- The number of characters up to the first closing mark, that mark included, if only characters that
may stand inside come before it. -/
def closedBy? (mark : Char) (inside : Char → Bool) (cs : List Char) : Option Nat :=
  let body := cs.takeWhile fun c => c != mark && inside c
  if cs[body.length]? = some mark then some (body.length + 1) else none

/-- The kind of the lexeme that starts with a character, and how many characters follow in it. -/
def extent? (c : Char) (cs : List Char) : Option (LexemeKind × Nat) :=
  if c = '(' && cs.head? = some '*' then
    (commentEnd? cs.tail).map fun n => (.comment, n + 1)
  else if Text.isBlank c then
    some (.blank, (cs.takeWhile Text.isBlank).length)
  else if c = '"' || c = '\'' then
    (closedBy? c (· != '\n') cs).map fun n => (.token .string, n)
  else if c = '?' then
    (closedBy? c (fun _ => true) cs).map fun n => (.token .special, n)
  else if c = ':' && cs.take 2 = [':', '='] then
    some (.token .define, 2)
  else if c = ':' || c = '=' then
    some (.token .define, 0)
  else if isIdentStart c then
    some (.token .ident, (cs.takeWhile isIdentPart).length)
  else if isPunct c then
    some (.token .punct, 0)
  else
    none

/-- The lexemes of a text, and the rest at which none starts. -/
def lexemes (cs : List Char) : List Lexeme × List Char :=
  match cs with
  | [] => ([], [])
  | c :: cs =>
      match extent? c cs with
      | none => ([], c :: cs)
      | some (kind, n) =>
          let (ls, rest) := lexemes (cs.drop n)
          (⟨kind, c :: cs.take n⟩ :: ls, rest)
termination_by cs.length
decreasing_by simp only [List.length_drop, List.length_cons]; omega

end Railroad.Ebnf
