import Railroad.Ebnf.Lexeme
import Railroad.Text.Quoted
import Railroad.Geometry.Metrics
/-!
Tokens with their places in the text, and the errors of reading a grammar.
-/
namespace Railroad.Ebnf

/-- A place in a text; lines and columns count from one. -/
structure Position where
  line : Nat
  column : Nat
deriving Repr, DecidableEq, Inhabited

/-- The first place of a text. -/
def Position.start : Position :=
  ⟨1, 1⟩

/-- The place after a character; only a line feed ends a line. -/
def Position.next (p : Position) (c : Char) : Position :=
  if c = '\n' then ⟨p.line + 1, 1⟩ else ⟨p.line, p.column + 1⟩

/-- The place after some characters. -/
def Position.after (p : Position) (cs : List Char) : Position :=
  cs.foldl Position.next p

structure Token where
  kind : TokenKind
  text : String
  position : Position
deriving Repr, DecidableEq, Inhabited

/-- What a reader of a grammar looked for and did not find. -/
inductive Expectation where
  | expression
  | productionName
  | definition (name : String)
  | terminator (name : String)
  | symbol (text : String)
  | endOfInput
deriving Repr, DecidableEq

/-- Why a text is no grammar. -/
inductive ParseFault where
  | unterminatedComment
  | unterminatedSequence (mark : Char)
  | unexpectedCharacter (c : Char)
  /-- Another token was found, or the end of the text. -/
  | expected (what : Expectation) (found : Option String)
  | tooDeep
deriving Repr, DecidableEq

structure ParseError where
  fault : ParseFault
  position : Position
deriving Repr, DecidableEq

def Expectation.message : Expectation → String
  | expression => "Expected an expression"
  | productionName => "Expected a production name"
  | definition name => "Expected '=' after " ++ Text.quoted name
  | terminator name => "Expected '.' or ';' to end " ++ Text.quoted name
  | symbol text => "Expected " ++ Text.quoted text
  | endOfInput => "Expected end of input"

def ParseFault.message : ParseFault → String
  | unterminatedComment => "Unterminated comment"
  | unterminatedSequence mark => "Unterminated " ++ mark.toString ++ " sequence"
  | unexpectedCharacter c => "Unexpected character " ++ Text.quoted c.toString
  | expected what none => what.message ++ ", found end of input"
  | expected what (some text) => what.message ++ ", found " ++ Text.quoted text
  | tooDeep => s!"Nesting deeper than {Metrics.maxDepth} levels"

def ParseError.message (e : ParseError) : String :=
  s!"Line {e.position.line}, column {e.position.column}: " ++ e.fault.message

/-- The tokens among some lexemes that start at a place, and the place after the last lexeme. -/
def tokensFrom (start : Position) : List Lexeme → List Token × Position
  | [] => ([], start)
  | l :: ls =>
      let (tokens, stop) := tokensFrom (start.after l.text) ls
      match l.kind with
      | .token kind => (⟨kind, String.ofList l.text, start⟩ :: tokens, stop)
      | _ => (tokens, stop)

/-- Why no lexeme starts with a character: only an open comment keeps a parenthesis from being one. -/
def unreadable (c : Char) : ParseFault :=
  if c = '(' then .unterminatedComment
  else if c = '"' || c = '\'' || c = '?' then .unterminatedSequence c
  else .unexpectedCharacter c

/-- The tokens of a text, without blanks and comments. -/
def tokenize (text : String) : Except ParseError (List Token) :=
  let (ls, rest) := lexemes text.toList
  let (tokens, stop) := tokensFrom .start ls
  match rest with
  | [] => .ok tokens
  | c :: _ => .error ⟨unreadable c, stop⟩

end Railroad.Ebnf
