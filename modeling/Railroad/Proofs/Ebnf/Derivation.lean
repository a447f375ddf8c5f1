import Railroad.Ebnf.Reader
import Railroad.Proofs.Grammar.Unnumbered
/-!
The documented grammar as a derivation relation on tokens without their places.

A derivation determines the tree of what it derives, up to numbering.  Its first argument bounds how
deep brackets nest inside the expressions.
-/
namespace Railroad.Ebnf

/-- A token without its place. -/
structure Word where
  kind : TokenKind
  text : String
deriving Repr, DecidableEq

def Token.word (t : Token) : Word :=
  ⟨t.kind, t.text⟩

namespace Word

/-- The word of a punctuation mark. -/
def punct (text : String) : Word :=
  ⟨.punct, text⟩

/-- The text of a string or special sequence without its marks. -/
def unmarked (text : String) : List Char :=
  (text.toList.drop 1).dropLast

/-- Whether a word ends a term. -/
def endsTerm (w : Word) : Prop :=
  w.kind = .define ∨ w ∈ ["|", ")", "]", "\x7d", ">", "/", ".", ";"].map punct

/-- Whether a word opens a bracket. -/
def opens (w : Word) : Prop :=
  w ∈ ["(", "[", "\x7b", "<"].map punct

theorem opens_punct {text : String} (h : text ∈ ["(", "[", "\x7b", "<"]) : (punct text).opens :=
  List.mem_map_of_mem h

end Word

namespace Derivation

open Word

/-- What stands for some nodes: the only one of them, or a node made of all. -/
def bundle (make : List Node → Node) : List Node → Node
  | [n] => n
  | ns => make ns

mutual
/-- `factor = identifier | string | special | "(" expression ")" | "[" expression "]"`
`| "\x7b" expression "\x7d" | "<" expression [ "/" expression ] ">"`; parentheses leave no node. -/
inductive Factor : Nat → List Word → Node → Prop
  | identifier {k : Nat} (text : String) : Factor k [⟨.ident, text⟩] (.identifier 0 text)
  | string {k : Nat} (text : String) :
      Factor k [⟨.string, text⟩] (.literal 0 (String.ofList (unmarked text)) .quoted)
  | special {k : Nat} (text : String) :
      Factor k [⟨.special, text⟩]
        (.literal 0 (String.ofList (Text.strip (unmarked text))) .special)
  | group {k : Nat} {ws : List Word} {n : Node} (body : Expression k ws n) :
      Factor (k + 1) (punct "(" :: ws ++ [punct ")"]) n
  | optional {k : Nat} {ws : List Word} {n : Node} (body : Expression k ws n) :
      Factor (k + 1) (punct "[" :: ws ++ [punct "]"]) (.optional 0 (some n))
  | repetition {k : Nat} {ws : List Word} {n : Node} (body : Expression k ws n) :
      Factor (k + 1) (punct "\x7b" :: ws ++ [punct "\x7d"]) (.repetition 0 (some n))
  | loop {k : Nat} {ws : List Word} {n : Node} (body : Expression k ws n) :
      Factor (k + 1) (punct "<" :: ws ++ [punct ">"]) (.oneOrMore 0 (some n) none)
  | separatedLoop {k : Nat} {ws us : List Word} {n m : Node} (body : Expression k ws n)
      (separator : Expression k us m) :
      Factor (k + 1) (punct "<" :: ws ++ punct "/" :: us ++ [punct ">"])
        (.oneOrMore 0 (some n) (some m))

/-- `{ [ "," ] factor }` -/
inductive Factors : Nat → List Word → List Node → Prop
  | nil {k : Nat} : Factors k [] []
  | next {k : Nat} {ws us : List Word} {n : Node} {ns : List Node} (first : Factor k ws n)
      (rest : Factors k us ns) : Factors k (ws ++ us) (n :: ns)
  | comma {k : Nat} {ws us : List Word} {n : Node} {ns : List Node} (first : Factor k ws n)
      (rest : Factors k us ns) : Factors k (punct "," :: ws ++ us) (n :: ns)

/-- `term = factor { [ "," ] factor }`; one factor stands for itself. -/
inductive Term : Nat → List Word → Node → Prop
  | intro {k : Nat} {ws us : List Word} {n : Node} {ns : List Node} (first : Factor k ws n)
      (rest : Factors k us ns) : Term k (ws ++ us) (bundle (.sequence 0) (n :: ns))

/-- `{ "|" term }` -/
inductive Terms : Nat → List Word → List Node → Prop
  | nil {k : Nat} : Terms k [] []
  | bar {k : Nat} {ws us : List Word} {n : Node} {ns : List Node} (first : Term k ws n)
      (rest : Terms k us ns) : Terms k (punct "|" :: ws ++ us) (n :: ns)

/-- `expression = term { "|" term }`; one term stands for itself. -/
inductive Expression : Nat → List Word → Node → Prop
  | intro {k : Nat} {ws us : List Word} {n : Node} {ns : List Node} (first : Term k ws n)
      (rest : Terms k us ns) : Expression k (ws ++ us) (bundle (.alternation 0) (n :: ns))
end

/-- `production = identifier ( "=" | "::=" | ":" ) expression ( "." | ";" )` -/
inductive Production (k : Nat) : List Word → Node → Prop
  | intro {ws : List Word} {n : Node} (name sign stop : String) (body : Expression k ws n)
      (hstop : stop = "." ∨ stop = ";") :
      Production k (⟨.ident, name⟩ :: ⟨.define, sign⟩ :: ws ++ [punct stop])
        (.production 0 (some (.identifier 0 name)) (some n))

/-- `{ production }` -/
inductive Productions (k : Nat) : List Word → List Node → Prop
  | nil : Productions k [] []
  | next {ws us : List Word} {n : Node} {ns : List Node} (first : Production k ws n)
      (rest : Productions k us ns) : Productions k (ws ++ us) (n :: ns)

/-- A title or a comment, which may be missing: a string whose leaf is made of its text. -/
inductive Caption (make : String → Node) : List Word → Option Node → Prop
  | missing : Caption make [] none
  | present (text : String) :
      Caption make [⟨.string, text⟩] (some (make (String.ofList (unmarked text))))

/-- `grammar = [ title ] "\x7b" { production } "\x7d" [ comment ] | { production }` -/
inductive Grammar (k : Nat) : List Word → Node → Prop
  | block {ts ws us : List Word} {title comment : Option Node} {ps : List Node}
      (heading : Caption (.literal 0 · .title) ts title) (rules : Productions k ws ps)
      (closing : Caption (.other 0) us comment) :
      Grammar k (ts ++ punct "\x7b" :: ws ++ punct "\x7d" :: us)
        (.grammar 0 title (some (.productionList 0 ps)) comment)
  | bare {ws : List Word} {ps : List Node} (rules : Productions k ws ps) :
      Grammar k ws (.grammar 0 none (some (.productionList 0 ps)) none)

end Derivation

end Railroad.Ebnf
