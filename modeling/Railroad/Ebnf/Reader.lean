import Railroad.Ebnf.Token
import Railroad.Grammar.Node
/-!
Reads a grammar from its tokens, by descent through the rules

    grammar    = [ title ] "{" { production } "}" [ comment ] | { production } .
    production = identifier ( "=" | "::=" | ":" ) expression ( "." | ";" ) .
    expression = term { "|" term } .
    term       = factor { [ "," ] factor } .
    factor     = identifier | string | special | "(" expression ")" | "[" expression "]"
               | "\x7b" expression "\x7d" | "<" expression [ "/" expression ] ">" .

An expression is read within a budget of brackets that may still be opened; the budget and the number
of open brackets add up to the deepest nesting allowed.
-/
namespace Railroad.Ebnf

/-- How far reading has come. -/
structure Cursor where
  /-- The tokens not read yet. -/
  rest : List Token
  /-- The number of tokens read. -/
  read : Nat
  /-- The number of brackets that are open. -/
  depth : Nat
  /-- The id of the next node. -/
  nextId : Nat
deriving Repr, DecidableEq

/-- A reading stopped at a token, or at the end of the text. -/
structure Stop where
  fault : ParseFault
  token : Option Token
deriving Repr, DecidableEq

/-- A step of reading: it moves the cursor, also when it stops. -/
abbrev Reading (β : Type) := EStateM Stop Cursor β

namespace Reading

/-- The next token. -/
def peek : Reading (Option Token) :=
  return (← get).rest.head?

/-- Stops because the next token is not what was expected. -/
def expected {β : Type} (what : Expectation) : Reading β := do
  let token ← peek
  throw ⟨.expected what (token.map Token.text), token⟩

/-- Steps over the next token. -/
def advance : Reading Unit :=
  modify fun c => { c with rest := c.rest.tail, read := c.read + 1 }

/-- A new node, with the next free id. -/
def node (make : Nat → Node) : Reading Node := do
  let c ← get
  set { c with nextId := c.nextId + 1 }
  return make c.nextId

/-- The number of tokens left, which bounds every loop over them. -/
def left : Reading Nat :=
  return (← get).rest.length

end Reading

open Reading

/-- Whether a token is the given symbol. -/
def Token.isSymbol (t : Token) (text : String) : Bool :=
  t.kind = .punct && t.text = text

/-- The text of a string or special token without its marks. -/
def Token.inner (t : Token) : List Char :=
  (t.text.toList.drop 1).dropLast

/-- Whether the next token is the given symbol. -/
def atSymbol (text : String) : Reading Bool :=
  return (← peek).any (·.isSymbol text)

/-- Steps over the given symbol. -/
def symbol (text : String) : Reading Unit := do
  if ← atSymbol text then advance else expected (.symbol text)

/-- Whether a token opens a bracket. -/
def Token.isOpening (t : Token) : Bool :=
  ["(", "[", "\x7b", "<"].any (t.isSymbol ·)

/-- Whether a token ends a term. -/
def Token.endsTerm (t : Token) : Bool :=
  t.kind = .define || ["|", ")", "]", "\x7d", ">", "/", ".", ";"].any (t.isSymbol ·)

/-- A factor; what stands in brackets is left to `bracket`. -/
def factor (bracket : Token → Reading Node) : Reading Node := do
  match ← peek with
  | none => expected .expression
  | some t =>
      match t.kind with
      | .ident => do
          advance
          node (.identifier · t.text)
      | .string => do
          advance
          node (.literal · (String.ofList t.inner) .quoted)
      | .special => do
          advance
          node (.literal · (String.ofList (Text.strip t.inner)) .special)
      | _ => if t.isOpening then bracket t else expected .expression

/-- The factors that follow one another up to the end of a term, each of them after an optional comma. -/
def moreFactors (one : Reading Node) : Nat → Reading (List Node)
  | 0 => return []
  | bound + 1 => do
      match ← peek with
      | none => return []
      | some t =>
          if t.isSymbol "," then
            advance
            let item ← one
            return item :: (← moreFactors one bound)
          else if t.endsTerm then
            return []
          else
            let item ← one
            return item :: (← moreFactors one bound)

/-- A term; a single factor stands for itself. -/
def term (one : Reading Node) : Reading Node := do
  let first ← one
  match ← moreFactors one (← left) with
  | [] => return first
  | items => node (.sequence · (first :: items))

/-- The terms after bars. -/
def moreTerms (one : Reading Node) : Nat → Reading (List Node)
  | 0 => return []
  | bound + 1 => do
      if ← atSymbol "|" then
        advance
        let t ← term one
        return t :: (← moreTerms one bound)
      else
        return []

/-- An expression; a single term stands for itself. -/
def alternatives (one : Reading Node) : Reading Node := do
  let first ← term one
  match ← moreTerms one (← left) with
  | [] => return first
  | terms => node (.alternation · (first :: terms))

/-- The rest of a bracketed factor after its opening token. -/
def bracketed (expression : Reading Node) (t : Token) : Reading Node := do
  let body ← expression
  if t.text = "(" then
    symbol ")"
    return body
  else if t.text = "[" then
    symbol "]"
    node (.optional · (some body))
  else if t.text = "\x7b" then
    symbol "\x7d"
    node (.repetition · (some body))
  else
    let separator ← if ← atSymbol "/" then do
        advance
        some <$> expression
      else pure none
    symbol ">"
    node (.oneOrMore · (some body) separator)

/-- Counts a bracket as open while it is read, however that ends. -/
def nested (inside : Reading Node) : Reading Node := fun c =>
  match inside { c with depth := c.depth + 1 } with
  | .ok n c => .ok n { c with depth := c.depth - 1 }
  | .error e c => .error e { c with depth := c.depth - 1 }

/-- An expression that opens at most `budget` brackets inside one another. -/
def expressionWithin : Nat → Reading Node
  | 0 => alternatives <| factor fun t => throw ⟨.tooDeep, some t⟩
  | budget + 1 => alternatives <| factor fun t => do
      advance
      nested (bracketed (expressionWithin budget) t)

def expression : Reading Node :=
  expressionWithin Metrics.maxDepth

def production : Reading Node := do
  match ← peek with
  | none => expected .productionName
  | some t =>
      if t.kind = .ident then
        advance
        if (← peek).any (·.kind = .define) then
          advance
          let body ← expression
          if (← atSymbol ".") || (← atSymbol ";") then
            advance
            let name ← node (.identifier · t.text)
            node (.production · (some name) (some body))
          else
            expected (.terminator t.text)
        else
          expected (.definition t.text)
      else
        expected .productionName

/-- Productions up to a closing brace, if they stand in a block, or to the end of the text. -/
def productions (inBlock : Bool) : Nat → Reading (List Node)
  | 0 => return []
  | bound + 1 => do
      match ← peek with
      | none => return []
      | some t =>
          if inBlock && t.isSymbol "\x7d" then
            return []
          else
            let p ← production
            return p :: (← productions inBlock bound)

def productionList (inBlock : Bool) : Reading Node := do
  let ps ← productions inBlock (← left)
  node (.productionList · ps)

/-- The title before a block. -/
def title : Reading (Option Node) := do
  match (← get).rest with
  | first :: second :: _ =>
      if first.kind = .string && second.isSymbol "\x7b" then
        advance
        some <$> node (.literal · (String.ofList first.inner) .title)
      else
        return none
  | _ => return none

/-- The comment after a block. -/
def closingComment : Reading (Option Node) := do
  match ← peek with
  | some t =>
      if t.kind = .string then
        let comment ← node (.other · (String.ofList t.inner))
        advance
        return some comment
      else
        return none
  | none => return none

/-- A whole grammar. -/
def grammar : Reading Node := do
  let heading ← title
  if ← atSymbol "\x7b" then
    advance
    let list ← productionList true
    symbol "\x7d"
    let comment ← closingComment
    if (← peek).isSome then
      expected .endOfInput
    node (.grammar · heading (some list) comment)
  else
    let list ← productionList false
    node (.grammar · none (some list) none)

/-- The place of a stop: that of its token, or the end of the last token of the text. -/
def Stop.position (s : Stop) (tokens : List Token) : Position :=
  match s.token, tokens.getLast? with
  | some t, _ => t.position
  | none, some last => ⟨last.position.line, last.position.column + last.text.length⟩
  | none, none => .start

/-- A reader that is used for one text after another, as the last text left it. -/
structure Reader where
  tokens : List Token
  /-- The number of tokens read. -/
  pos : Nat
  /-- The number of brackets that are open. -/
  depth : Nat
deriving Repr, DecidableEq

def Reader.new : Reader :=
  ⟨[], 0, 0⟩

/-- The outcome of reading a text: a tree or an error, the reader afterwards, and the next free id. -/
structure Read where
  result : Except ParseError Node
  reader : Reader
  nextId : Nat

/-- Reads a text.  A text that cannot be cut into tokens leaves the reader as it was. -/
def Reader.read (reader : Reader) (nextId : Nat) (text : String) : Read :=
  match tokenize text with
  | .error e => ⟨.error e, reader, nextId⟩
  | .ok tokens =>
      match grammar ⟨tokens, 0, 0, nextId⟩ with
      | .ok n c => ⟨.ok n, ⟨tokens, c.read, c.depth⟩, c.nextId⟩
      | .error s c =>
          ⟨.error ⟨s.fault, s.position tokens⟩, ⟨tokens, c.read, c.depth⟩, c.nextId⟩

/-- The tree of a grammar text, with ids counted from zero. -/
def parse (text : String) : Except ParseError Node :=
  (Reader.new.read 0 text).result

end Railroad.Ebnf
