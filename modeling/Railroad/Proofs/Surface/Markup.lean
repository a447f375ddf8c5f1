import Railroad.Text.Markup
/-!
Reading markup: the tags of a document with their attributes, and the characters between them.

The reader takes a document character by character and undoes entities as it goes.  It is strict: an angle
bracket in character data, an angle bracket that opens or a quote of either kind in the value of an
attribute, and an ampersand that does not begin an entity are refused, and so is a document that ends inside
a tag or an entity.  What is written tag by tag and character by character is read as that.
-/
namespace Railroad.Markup

inductive TagKind where
  | start
  | stop
  /-- Start and end at once; `spaced` says whether there is a blank before the end. -/
  | empty (spaced : Bool)
  | instruction
deriving Repr, DecidableEq

/-- A tag, with the names and the values of its attributes. -/
structure Tag where
  kind : TagKind
  name : String
  attributes : List (String × String)
deriving Repr, DecidableEq

/-- A tag, or a character between tags. -/
inductive Token where
  | tag (t : Tag)
  | data (c : Char)
deriving Repr, DecidableEq

/-- The characters of names. -/
def isNameChar (c : Char) : Bool :=
  c.isAlphanum || c = '-' || c = ':'

/-- The character that an entity stands for. -/
def dataEntity? : List Char → Option Char
  | ['a', 'm', 'p'] => some '&'
  | ['l', 't'] => some '<'
  | ['g', 't'] => some '>'
  | _ => none

/-- The character that an entity in the value of an attribute stands for. -/
def valueEntity? : List Char → Option Char
  | ['q', 'u', 'o', 't'] => some '"'
  | ['#', 'x', '2', '7'] => some '\''
  | name => dataEntity? name

/-- What is being read. -/
inductive Mode where
  | content
  | entity (name : List Char)
  /-- A tag of which nothing but its opening is known. -/
  | opening (kind : TagKind)
  | naming (kind : TagKind) (name : List Char)
  /-- A tag, right behind the value of an attribute. -/
  | after (t : Tag)
  /-- A tag, behind a blank. -/
  | between (t : Tag)
  | attributeName (t : Tag) (name : List Char)
  | equals (t : Tag) (name : List Char)
  | value (t : Tag) (name value : List Char)
  | valueEntity (t : Tag) (name value entity : List Char)
  /-- A tag that lacks nothing but its last bracket. -/
  | closing (t : Tag)
deriving Repr, DecidableEq

/-- Goes on with the end of a tag. -/
def stepEnd (t : Tag) (spaced : Bool) (c : Char) : Option (Mode × Option Token) :=
  match t.kind, c with
  | .start, '>' => some (.content, some (.tag t))
  | .stop, '>' => if t.attributes.isEmpty then some (.content, some (.tag t)) else none
  | .start, '/' => some (.closing { t with kind := .empty spaced }, none)
  | .instruction, '?' => some (.closing t, none)
  | _, _ => none

/-- Goes on behind the name of a tag or the value of an attribute. -/
def stepAfter (t : Tag) (c : Char) : Option (Mode × Option Token) :=
  if c = ' ' then some (.between t, none) else stepEnd t false c

/-- Goes on by one character, which may be the last one of a token. -/
def step (m : Mode) (c : Char) : Option (Mode × Option Token) :=
  match m with
  | .content =>
      if c = '<' then some (.opening .start, none)
      else if c = '&' then some (.entity [], none)
      else if c = '>' then none
      else some (.content, some (.data c))
  | .entity name =>
      if c = ';' then (dataEntity? name).map fun d => (.content, some (.data d))
      else some (.entity (name ++ [c]), none)
  | .opening kind =>
      if isNameChar c then some (.naming kind [c], none)
      else if kind = .start ∧ c = '/' then some (.opening .stop, none)
      else if kind = .start ∧ c = '?' then some (.opening .instruction, none)
      else none
  | .naming kind name =>
      if isNameChar c then some (.naming kind (name ++ [c]), none)
      else stepAfter ⟨kind, String.ofList name, []⟩ c
  | .after t => stepAfter t c
  | .between t =>
      if isNameChar c then some (.attributeName t [c], none)
      else if c = ' ' then some (.between t, none)
      else stepEnd t true c
  | .attributeName t name =>
      if isNameChar c then some (.attributeName t (name ++ [c]), none)
      else if c = '=' then some (.equals t name, none)
      else none
  | .equals t name => if c = '"' then some (.value t name [], none) else none
  | .value t name value =>
      if c = '"' then
        let found := (String.ofList name, String.ofList value)
        some (.after { t with attributes := t.attributes ++ [found] }, none)
      else if c = '&' then some (.valueEntity t name value [], none)
      else if c = '<' ∨ c = '\'' then none
      else some (.value t name (value ++ [c]), none)
  | .valueEntity t name value entity =>
      if c = ';' then (valueEntity? entity).map fun d => (.value t name (value ++ [d]), none)
      else some (.valueEntity t name value (entity ++ [c]), none)
  | .closing t => if c = '>' then some (.content, some (.tag t)) else none

/-- Reads some characters. -/
def run (m : Mode) : List Char → Option (Mode × List Token)
  | [] => some (m, [])
  | c :: cs => do
      let (m, token) ← step m c
      let (m, tokens) ← run m cs
      return (m, token.toList ++ tokens)

/-- The tokens of a whole document. -/
def scan (text : String) : Option (List Token) :=
  match run .content text.toList with
  | some (.content, tokens) => some tokens
  | _ => none

/-- Whether every start tag has its end tag, the last one that was started first; `opened` are the names of
the elements that are open, the innermost first. -/
def nests (opened : List String) : List Token → Bool
  | [] => opened.isEmpty
  | .tag ⟨.start, name, _⟩ :: tokens => nests (name :: opened) tokens
  | .tag ⟨.stop, name, _⟩ :: tokens =>
      match opened with
      | [] => false
      | top :: opened => top = name && nests opened tokens
  | _ :: tokens => nests opened tokens

/-- The characters between the tags of each element of a name; `inside` are those that stand in such an
element that is open. -/
def contents (name : String) (inside : Option (List Char)) : List Token → List String
  | [] => []
  | .data c :: tokens => contents name (inside.map (· ++ [c])) tokens
  | .tag t :: tokens =>
      match inside with
      | none => contents name (if t.kind = .start ∧ t.name = name then some [] else none) tokens
      | some cs =>
          if t.kind = .stop ∧ t.name = name then String.ofList cs :: contents name none tokens
          else contents name (some cs) tokens

/-- The value of an attribute, if a token starts an element of a name. -/
def Token.value? (element key : String) : Token → Option String
  | tag t => if t.kind = .start ∧ t.name = element then t.attributes.lookup key else none
  | data _ => none

/-- The values that an attribute has in the elements of a name. -/
def values (element key : String) (tokens : List Token) : List String :=
  tokens.filterMap (Token.value? element key)

/-- What of a tag is not text: its kind, its name and the names of its attributes. -/
def Token.outline? : Token → Option (TagKind × String × List String)
  | tag t => some (t.kind, t.name, t.attributes.map Prod.fst)
  | data _ => none

/-- How an attribute is written. -/
def attributeChars (a : String × String) : List Char :=
  ' ' :: a.1.toList ++ ('=' :: '"' :: a.2.toList.flatMap Text.attributeChar ++ ['"'])

def TagKind.openingChars : TagKind → List Char
  | start | empty _ => ['<']
  | stop => ['<', '/']
  | instruction => ['<', '?']

def TagKind.endingChars : TagKind → List Char
  | start | stop => ['>']
  | empty false => ['/', '>']
  | empty true => [' ', '/', '>']
  | instruction => ['?', '>']

/-- How a token is written. -/
def Token.chars : Token → List Char
  | tag t =>
      t.kind.openingChars ++ t.name.toList ++ t.attributes.flatMap attributeChars ++ t.kind.endingChars
  | data c => Text.dataChar c

/-- How a document is written. -/
def render (tokens : List Token) : List Char :=
  tokens.flatMap Token.chars

/-- A name has some characters, and no others than names have. -/
def isName (name : String) : Bool :=
  !name.toList.isEmpty && name.toList.all isNameChar

/-- A tag that can be written: it and its attributes have names, and an end tag has no attributes. -/
def Tag.isSound (t : Tag) : Bool :=
  isName t.name && t.attributes.all (isName ·.1) && (t.kind != .stop || t.attributes.isEmpty)

/-- All tags can be written. -/
def Sound (tokens : List Token) : Prop :=
  ∀ t, .tag t ∈ tokens → t.isSound = true

section Reading

variable {m m' m'' : Mode} {xs ys cs : List Char} {ts ts' : List Token} {t : Tag} {c : Char}

theorem run_nil (m : Mode) : run m [] = some (m, []) := rfl

theorem run_cons (m : Mode) (c : Char) (cs : List Char) : run m (c :: cs) = (step m c).bind fun next =>
    (run next.1 cs).bind fun rest => some (rest.1, next.2.toList ++ rest.2) := rfl

theorem run_append (h : run m xs = some (m', ts)) (h' : run m' ys = some (m'', ts')) :
    run m (xs ++ ys) = some (m'', ts ++ ts') := by
  induction xs generalizing m ts with
  | nil =>
      cases h
      exact h'
  | cons x xs ih =>
      simp only [run_cons, Option.bind_eq_some_iff] at h
      obtain ⟨⟨next, token⟩, hstep, ⟨last, tokens⟩, hrun, h⟩ := h
      cases h
      rw [List.cons_append, run_cons, hstep]
      simp only [Option.bind_some, ih hrun, List.append_assoc]

theorem run_single (h : step m c = some (m', none)) : run m [c] = some (m', []) := by
  simp [run_cons, run_nil, h]

/-- What a mode becomes after some characters that are kept in it one by one. -/
theorem run_eq_of_forall {keep : List Char → Mode} (hstep : ∀ cs, ∀ c ∈ xs, step (keep cs) c =
    some (keep (cs ++ [c]), none)) (cs : List Char) : run (keep cs) xs = some (keep (cs ++ xs), []) := by
  induction xs generalizing cs with
  | nil => rw [List.append_nil, run_nil]
  | cons x xs ih =>
      have hrest := ih (fun cs c hc => hstep cs c (List.mem_cons_of_mem _ hc)) (cs ++ [x])
      rw [run_cons, hstep cs x List.mem_cons_self]
      simp [hrest]

theorem run_dataChar (c : Char) : run .content (Text.dataChar c) = some (.content, [.data c]) := by
  rw [Text.dataChar]
  split
  · subst c
    rfl
  split
  · subst c
    rfl
  split
  · subst c
    rfl
  rename_i hamp hlt hgt
  simp [run_cons, run_nil, step, hamp, hlt, hgt]

theorem run_attributeChar (t : Tag) (name value : List Char) (c : Char) :
    run (.value t name value) (Text.attributeChar c) = some (.value t name (value ++ [c]), []) := by
  rw [Text.attributeChar]
  split
  · subst c
    rfl
  split
  · subst c
    rfl
  rw [Text.dataChar]
  split
  · subst c
    rfl
  split
  · subst c
    rfl
  split
  · subst c
    rfl
  rename_i hquot hapos hamp hlt hgt
  simp [run_cons, run_nil, step, hquot, hapos, hamp, hlt]

theorem run_flatMap_attributeChar (t : Tag) (name value cs : List Char) :
    run (.value t name value) (cs.flatMap Text.attributeChar) =
      some (.value t name (value ++ cs), []) := by
  induction cs generalizing value with
  | nil => rw [List.append_nil, List.flatMap_nil, run_nil]
  | cons c cs ih =>
      rw [List.flatMap_cons]
      simpa using run_append (run_attributeChar t name value c) (ih (value ++ [c]))

/-- The tag that has been read if it ends here. -/
def Mode.tag? : Mode → Option Tag
  | naming kind name => some ⟨kind, String.ofList name, []⟩
  | after t => some t
  | _ => none

theorem step_of_tag? (h : m.tag? = some t) (hc : isNameChar c = false) : step m c = stepAfter t c := by
  cases m with
  | naming kind name =>
      cases h
      rw [step, if_neg (by simp [hc])]
  | after =>
      cases h
      rfl
  | _ => cases h

theorem exists_of_isName {name : String} (h : isName name = true) :
    ∃ c cs, name.toList = c :: cs ∧ isNameChar c = true ∧ ∀ c ∈ cs, isNameChar c = true := by
  simp only [isName, Bool.and_eq_true, List.all_eq_true] at h
  cases hname : name.toList with
  | nil => simp [hname] at h
  | cons c cs =>
      rw [hname, List.forall_mem_cons] at h
      exact ⟨c, cs, rfl, h.2⟩

theorem run_attributeChars (h : m.tag? = some t) {a : String × String} (ha : isName a.1 = true) :
    run m (attributeChars a) = some (.after { t with attributes := t.attributes ++ [a] }, []) := by
  obtain ⟨c, cs, hname, hc, hcs⟩ := exists_of_isName ha
  have hblank : run m [' '] = some (.between t, []) :=
    run_single ((step_of_tag? h (by decide)).trans rfl)
  have hfirst : run (.between t) [c] = some (.attributeName t [c], []) := run_single (by simp [step, hc])
  have hkept : run (.attributeName t [c]) cs = some (.attributeName t (c :: cs), []) :=
    run_eq_of_forall (fun _ c hc => by simp [step, hcs c hc]) [c]
  have hequals : run (.attributeName t (c :: cs)) ['=', '"'] = some (.value t (c :: cs) [], []) := rfl
  have hvalue := run_flatMap_attributeChar t (c :: cs) [] a.2.toList
  have hlast : run (.value t (c :: cs) a.2.toList) ['"'] =
      some (.after { t with attributes := t.attributes ++ [a] }, []) := by
    refine run_single ?_
    simp [step, ← hname]
  have hall := run_append (run_append (run_append (run_append (run_append hblank hfirst) hkept) hequals)
    hvalue) hlast
  simpa [attributeChars, hname] using hall

theorem exists_run_attributes {as : List (String × String)} (has : as.all (isName ·.1) = true)
    (h : m.tag? = some t) : ∃ m', run m (as.flatMap attributeChars) = some (m', []) ∧
      m'.tag? = some { t with attributes := t.attributes ++ as } := by
  induction as generalizing m t with
  | nil => exact ⟨m, rfl, by simpa using h⟩
  | cons a as ih =>
      rw [List.all_cons, Bool.and_eq_true] at has
      obtain ⟨m', hrun, htag⟩ := ih has.2 (m := .after { t with attributes := t.attributes ++ [a] }) rfl
      refine ⟨m', ?_, by simpa using htag⟩
      rw [List.flatMap_cons]
      exact run_append (run_attributeChars h has.1) hrun

/-- The kind of a tag as far as its opening tells. -/
def TagKind.opened : TagKind → TagKind
  | empty _ => start
  | kind => kind

theorem run_openingChars (kind : TagKind) :
    run .content kind.openingChars = some (.opening kind.opened, []) := by
  cases kind <;> rfl

theorem run_name {name : String} (h : isName name = true) (kind : TagKind) :
    run (.opening kind) name.toList = some (.naming kind name.toList, []) := by
  obtain ⟨c, cs, hname, hc, hcs⟩ := exists_of_isName h
  have hfirst : run (.opening kind) [c] = some (.naming kind [c], []) := run_single (by simp [step, hc])
  have hkept : run (.naming kind [c]) cs = some (.naming kind (c :: cs), []) :=
    run_eq_of_forall (fun _ c hc => by simp [step, hcs c hc]) [c]
  rw [hname]
  exact run_append hfirst hkept

theorem run_endingChars {kind : TagKind} {name : String} {attributes : List (String × String)}
    (h : m.tag? = some ⟨kind.opened, name, attributes⟩) (hstop : kind = .stop → attributes = []) :
    run m kind.endingChars = some (.content, [.tag ⟨kind, name, attributes⟩]) := by
  have hstep := fun {c : Char} (hc : isNameChar c = false) => step_of_tag? h hc
  cases kind with
  | start | instruction =>
      rw [TagKind.endingChars, run_cons, hstep (by decide)]
      rfl
  | stop =>
      obtain rfl := hstop rfl
      rw [TagKind.endingChars, run_cons, hstep (by decide)]
      rfl
  | empty spaced =>
      cases spaced
      all_goals
        rw [TagKind.endingChars, run_cons, hstep (by decide)]
        rfl

/-- A token is read as what was written. -/
theorem run_token {token : Token} (h : ∀ t, token = .tag t → t.isSound = true) :
    run .content token.chars = some (.content, [token]) := by
  cases token with
  | data c => exact run_dataChar c
  | tag t =>
      obtain ⟨kind, name, attributes⟩ := t
      obtain ⟨⟨hname, hattributes⟩, hstop⟩ := by simpa only [Tag.isSound, Bool.and_eq_true] using h _ rfl
      have hnamed := run_append (run_openingChars kind) (run_name hname kind.opened)
      obtain ⟨m, hrun, htag⟩ := exists_run_attributes hattributes
        (m := .naming kind.opened name.toList) rfl
      refine run_append (run_append hnamed hrun) (run_endingChars (by simpa using htag) ?_)
      rintro rfl
      exact List.isEmpty_iff.mp hstop

theorem run_render {tokens : List Token} (h : Sound tokens) :
    run .content (render tokens) = some (.content, tokens) := by
  induction tokens with
  | nil => rfl
  | cons token tokens ih =>
      have hhead : run .content token.chars = some (.content, [token]) :=
        run_token fun t ht => h t (ht ▸ List.mem_cons_self)
      exact run_append hhead (ih fun t ht => h t (List.mem_cons_of_mem _ ht))

/-- What is written token by token is read as these tokens. -/
theorem scan_of_render {text : String} {tokens : List Token} (h : Sound tokens)
    (htext : text.toList = render tokens) : scan text = some tokens := by
  rw [scan, htext, run_render h]

example : scan "<b c=\"&lt;\">&gt;</b>" =
    some [.tag ⟨.start, "b", [("c", "<")]⟩, .data '>', .tag ⟨.stop, "b", []⟩] := by decide

example : scan "<b c=\"<\">" = none ∧ scan "a > b" = none ∧ scan "a & b" = none := by decide

end Reading

/-- Character data. -/
def plain (text : String) : List Token :=
  text.toList.map .data

def start (name : String) (attributes : List (String × String)) : List Token :=
  [.tag ⟨.start, name, attributes⟩]

def stop (name : String) : List Token :=
  [.tag ⟨.stop, name, []⟩]

/-- A start tag that ends its element, with a blank before its end or without. -/
def single (spaced : Bool) (name : String) (attributes : List (String × String)) : List Token :=
  [.tag ⟨.empty spaced, name, attributes⟩]

def instruction (name : String) (attributes : List (String × String)) : List Token :=
  [.tag ⟨.instruction, name, attributes⟩]

/-- An element without content. -/
def hollow (name : String) (attributes : List (String × String)) : List Token :=
  start name attributes ++ stop name

section Building

variable {name : String} {attributes : List (String × String)} {opened : List String} {ts : List Token}

@[simp] theorem render_append (ts ts' : List Token) : render (ts ++ ts') = render ts ++ render ts' :=
  List.flatMap_append

@[simp] theorem render_plain (text : String) : render (plain text) = (Text.markupData text).toList := by
  simp [render, plain, Text.markupData, List.flatMap_map, Token.chars]

@[simp] theorem render_start (name : String) (attributes : List (String × String)) :
    render (start name attributes) = '<' :: name.toList ++ attributes.flatMap attributeChars ++ ['>'] := by
  simp [render, start, Token.chars, TagKind.openingChars, TagKind.endingChars]

@[simp] theorem render_stop (name : String) :
    render (stop name) = '<' :: '/' :: name.toList ++ ['>'] := by
  simp [render, stop, Token.chars, TagKind.openingChars, TagKind.endingChars]

@[simp] theorem render_single (spaced : Bool) (name : String)
    (attributes : List (String × String)) : render (single spaced name attributes) =
      '<' :: name.toList ++ attributes.flatMap attributeChars ++
        (if spaced then [' ', '/', '>'] else ['/', '>']) := by
  cases spaced <;> simp [render, single, Token.chars, TagKind.openingChars, TagKind.endingChars]

@[simp] theorem render_instruction (name : String) (attributes : List (String × String)) :
    render (instruction name attributes) =
      '<' :: '?' :: name.toList ++ attributes.flatMap attributeChars ++ ['?', '>'] := by
  simp [render, instruction, Token.chars, TagKind.openingChars, TagKind.endingChars]

@[simp] theorem sound_nil : Sound [] :=
  fun _ => by simp

@[simp] theorem sound_append {ts ts' : List Token} : Sound (ts ++ ts') ↔ Sound ts ∧ Sound ts' := by
  simp only [Sound, List.mem_append, or_imp, forall_and]

@[simp] theorem sound_plain (text : String) : Sound (plain text) := by
  simp [Sound, plain]

@[simp] theorem sound_start : Sound (start name attributes) ↔
    isName name = true ∧ attributes.all (isName ·.1) = true := by
  simp [Sound, start, Tag.isSound]

@[simp] theorem sound_stop : Sound (stop name) ↔ isName name = true := by
  simp [Sound, stop, Tag.isSound]

@[simp] theorem sound_single {spaced : Bool} : Sound (single spaced name attributes) ↔
    isName name = true ∧ attributes.all (isName ·.1) = true := by
  simp [Sound, single, Tag.isSound]

@[simp] theorem sound_instruction : Sound (instruction name attributes) ↔
    isName name = true ∧ attributes.all (isName ·.1) = true := by
  simp [Sound, instruction, Tag.isSound]

theorem nests_data (opened : List String) (cs : List Char) (ts : List Token) :
    nests opened (cs.map .data ++ ts) = nests opened ts := by
  induction cs with
  | nil => rfl
  | cons c cs ih => exact ih

@[simp] theorem nests_plain (opened : List String) (text : String) (ts : List Token) :
    nests opened (plain text ++ ts) = nests opened ts :=
  nests_data opened text.toList ts

@[simp] theorem nests_plain_only (opened : List String) (text : String) :
    nests opened (plain text) = opened.isEmpty := by
  rw [← List.append_nil (plain text), nests_plain]
  rfl

@[simp] theorem nests_start : nests opened (start name attributes ++ ts) = nests (name :: opened) ts := rfl

@[simp] theorem nests_stop : nests (name :: opened) (stop name ++ ts) = nests opened ts := by
  have htop : nests (name :: opened) (stop name ++ ts) = (decide (name = name) && nests opened ts) := rfl
  simp [htop]

@[simp] theorem nests_single {spaced : Bool} :
    nests opened (single spaced name attributes ++ ts) = nests opened ts := rfl

@[simp] theorem nests_instruction : nests opened (instruction name attributes ++ ts) = nests opened ts := rfl

theorem contents_cons_tag_outside (element : String) (t : Tag) (ts : List Token) :
    contents element none (.tag t :: ts) =
      contents element (if t.kind = .start ∧ t.name = element then some [] else none) ts := rfl

theorem contents_cons_tag_inside (element : String) (cs : List Char) (t : Tag) (ts : List Token) :
    contents element (some cs) (.tag t :: ts) =
      if t.kind = .stop ∧ t.name = element then String.ofList cs :: contents element none ts
      else contents element (some cs) ts := rfl

theorem contents_cons_data (element : String) (inside : Option (List Char)) (c : Char)
    (ts : List Token) : contents element inside (.data c :: ts) =
      contents element (inside.map (· ++ [c])) ts := rfl

theorem contents_data (element : String) (inside : Option (List Char)) (cs : List Char) (ts : List Token) :
    contents element inside (cs.map .data ++ ts) = contents element (inside.map (· ++ cs)) ts := by
  induction cs generalizing inside with
  | nil => cases inside <;> simp
  | cons c cs ih => cases inside <;> simp [contents_cons_data, ih]

variable {element : String}

@[simp] theorem contents_plain_outside (text : String) :
    contents element none (plain text ++ ts) = contents element none ts :=
  contents_data element none text.toList ts

@[simp] theorem contents_start : contents element none (start name attributes ++ ts) =
    contents element (if name = element then some [] else none) ts := by
  simp [contents_cons_tag_outside, start]

/-- The characters of an element are those between its tags. -/
@[simp] theorem contents_element (text : String) :
    contents element (some []) (plain text ++ (stop element ++ ts)) = text :: contents element none ts := by
  rw [plain, contents_data]
  simp [contents_cons_tag_inside, stop]

@[simp] theorem contents_stop : contents element none (stop name ++ ts) = contents element none ts := by
  simp [contents_cons_tag_outside, stop]

@[simp] theorem contents_single {spaced : Bool} :
    contents element none (single spaced name attributes ++ ts) = contents element none ts := by
  simp [contents_cons_tag_outside, single]

@[simp] theorem contents_instruction :
    contents element none (instruction name attributes ++ ts) = contents element none ts := by
  simp [contents_cons_tag_outside, instruction]

variable {key : String}

@[simp] theorem values_append (ts ts' : List Token) : values element key (ts ++ ts') =
    values element key ts ++ values element key ts' :=
  List.filterMap_append

@[simp] theorem values_plain (text : String) : values element key (plain text) = [] := by
  simp [values, plain, Token.value?, List.filterMap_map]

@[simp] theorem values_start : values element key (start name attributes) =
    if name = element then (attributes.lookup key).toList else [] := by
  by_cases hname : name = element
  · cases h : attributes.lookup key <;> simp [values, start, Token.value?, hname, h]
  · simp [values, start, Token.value?, hname]

@[simp] theorem values_stop : values element key (stop name) = [] := by
  simp [values, stop, Token.value?]

@[simp] theorem values_single {spaced : Bool} :
    values element key (single spaced name attributes) = [] := by
  simp [values, single, Token.value?]

@[simp] theorem values_instruction : values element key (instruction name attributes) = [] := by
  simp [values, instruction, Token.value?]

@[simp] theorem outline_plain (text : String) : (plain text).filterMap Token.outline? = [] := by
  simp [plain, Token.outline?, List.filterMap_map]

@[simp] theorem outline_start : (start name attributes).filterMap Token.outline? =
    [(.start, name, attributes.map Prod.fst)] := rfl

@[simp] theorem outline_instruction : (instruction name attributes).filterMap Token.outline? =
    [(.instruction, name, attributes.map Prod.fst)] := rfl

end Building

end Railroad.Markup
