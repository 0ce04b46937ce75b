import QuorumStore.Yaml.Scalar
/-! # YAML tokens

Indentation becomes brackets here: where a block collection starts or ends there is a token for it.
A colon makes a key of what stood before it, so the token for a key is put in after the fact, at the
place where the key began.
-/

namespace QuorumStore.Yaml

inductive Token where
  | directive
  | documentStart
  | documentEnd
  | sequenceStart
  | mappingStart
  /-- The end of a block collection. -/
  | blockEnd
  | openBracket
  | closeBracket
  | openBrace
  | closeBrace
  /-- The dash before an item. -/
  | item
  | comma
  | key
  | value
  | alias (name : List Char)
  | anchor (name : List Char)
  | tag
  | scalar (text : List Char) (plain : Bool)
  deriving Repr, DecidableEq

/-- A place where a key may have begun. -/
structure Candidate where
  /-- Nothing but a key can stand here. -/
  required : Bool
  /-- How many tokens stand before it. -/
  place : Nat
  index : Nat
  line : Nat
  column : Nat
  deriving Repr

/-- How far the tokens of a text are found. -/
structure Scan where
  cursor : Cursor
  /-- The tokens so far, in order. -/
  tokens : List Token
  /-- The candidates, one for each open flow collection and one for the block around them. -/
  candidates : List (Option Candidate)
  /-- The column of the innermost block collection; none has minus one. -/
  indent : Int
  /-- The columns of the collections around it. -/
  outer : List Int
  /-- Whether a key may begin here. -/
  keyAllowed : Bool

namespace Scan

def start (text : List Char) : Scan := ⟨.start text, [], [.none], -1, [], true⟩

def inFlow (s : Scan) : Bool := 1 < s.candidates.length

def add (t : Token) (s : Scan) : Scan := { s with tokens := s.tokens ++ [t] }

/-- Adds a token before those from a place on. -/
def addAt (place : Nat) (t : Token) (s : Scan) : Scan :=
  { s with tokens := s.tokens.take place ++ t :: s.tokens.drop place }

/-- Gives up the innermost candidate; `none` if it had to become a key. -/
def dropCandidate (s : Scan) : Option Scan :=
  match s.candidates with
  | some k :: rest => if k.required then .none else some { s with candidates := .none :: rest }
  | _ => some s

/-- A key lies on one line and is not too long, so older candidates are given up. -/
def dropStale (s : Scan) : Option Scan :=
  let stale (k : Candidate) : Bool :=
    k.line < s.cursor.line || k.index + 1024 < s.cursor.index
  if s.candidates.any fun k => k.any fun k => stale k && k.required then .none
  else some { s with candidates := s.candidates.map fun k => k.filter fun k => !stale k }

def noteCandidate (s : Scan) : Option Scan :=
  if s.keyAllowed then
    s.dropCandidate.map fun s =>
      let c := s.cursor
      let candidate : Candidate :=
        ⟨!s.inFlow && s.indent == c.column, s.tokens.length, c.index, c.line, c.column⟩
      { s with candidates := some candidate :: s.candidates.drop 1 }
  else some s

/-- Opens a block collection at a column that lies deeper than the innermost one. -/
def roll (column : Nat) (place : Nat) (t : Token) (s : Scan) : Scan :=
  if s.inFlow then s
  else if s.indent < column then
    { s with outer := s.indent :: s.outer, indent := column }.addAt place t
  else s

/-- Closes the block collections that lie deeper than a column. -/
def unroll (column : Int) (s : Scan) : Scan :=
  if s.inFlow then s
  else
    let rec close : List Int → Int → List Token → List Token × Int × List Int
      | [], indent, closed => (closed, indent, [])
      | o :: outer, indent, closed =>
        if column < indent then close outer o (.blockEnd :: closed)
        else (closed, indent, o :: outer)
    let (closed, indent, outer) := close s.outer s.indent []
    { s with tokens := s.tokens ++ closed, indent, outer }

/-- Moves over blanks, comments and line ends between tokens. -/
def skipBetween : Nat → Scan → Scan
  | 0, s => s
  | fuel + 1, s =>
    let c := s.cursor.skipWhile fun d => d == ' ' || (d == '\t' && (s.inFlow || !s.keyAllowed))
    let c := if c.ahead 0 == some '#' then c.skipToBreak else c
    if (c.ahead 0).any isBreak then
      skipBetween fuel
        { s with cursor := c.skipLine.2, keyAllowed := s.keyAllowed || !s.inFlow }
    else { s with cursor := c }

/-- Takes a mark of some length that ends what was before it. -/
def mark (length : Nat) (t : Token) (keyAllowed : Bool) (s : Scan) : Option Scan :=
  s.dropCandidate.map fun s =>
    { s.add t with cursor := s.cursor.skip length, keyAllowed }

/-- Takes a directive; the version is the only one there is. -/
def directive (s : Scan) : Option Scan :=
  (s.unroll (-1)).dropCandidate.bind fun s =>
    let text := s.cursor.rest.takeWhile fun d => !isBreak d
    let version (v : List Char) : Bool :=
      let front := ['%', 'Y', 'A', 'M', 'L', ' '] ++ v
      let after := (text.drop front.length).dropWhile isBlank
      front.isPrefixOf text && endsWord text[front.length]? &&
        (after.isEmpty || after.head? == some '#')
    if version ['1', '.', '1'] || version ['1', '.', '2'] then
      some { s.add .directive with cursor := s.cursor.skip text.length, keyAllowed := false }
    else .none

/-- Takes the mark of a document boundary. -/
def boundary (t : Token) (s : Scan) : Option Scan := (s.unroll (-1)).mark 3 t false

def openFlow (t : Token) (s : Scan) : Option Scan :=
  s.noteCandidate.map fun s =>
    { s.add t with
      candidates := .none :: s.candidates
      cursor := s.cursor.skip 1
      keyAllowed := true }

def closeFlow (t : Token) (s : Scan) : Option Scan :=
  s.dropCandidate.map fun s =>
    { s.add t with
      candidates := if s.inFlow then s.candidates.drop 1 else s.candidates
      cursor := s.cursor.skip 1
      keyAllowed := false }

def item (s : Scan) : Option Scan :=
  if !s.inFlow && !s.keyAllowed then .none
  else (s.roll s.cursor.column s.tokens.length .sequenceStart).mark 1 .item true

def explicitKey (s : Scan) : Option Scan :=
  if !s.inFlow && !s.keyAllowed then .none
  else (s.roll s.cursor.column s.tokens.length .mappingStart).mark 1 .key (!s.inFlow)

def colon (s : Scan) : Option Scan :=
  match s.candidates with
  | some k :: rest =>
    let s := (s.addAt k.place .key).roll k.column k.place .mappingStart
    some { s.add .value with
      candidates := .none :: rest
      cursor := s.cursor.skip 1
      keyAllowed := false }
  | _ =>
    if !s.inFlow && !s.keyAllowed then .none
    else
      let s := s.roll s.cursor.column s.tokens.length .mappingStart
      some { s.add .value with cursor := s.cursor.skip 1, keyAllowed := !s.inFlow }

/-- The characters of the name of an anchor. -/
def isNameChar (c : Char) : Bool := c.isAlphanum || c == '_' || c == '-'

def reference (make : List Char → Token) (s : Scan) : Option Scan :=
  s.noteCandidate.bind fun s =>
    let name := (s.cursor.rest.drop 1).takeWhile isNameChar
    let c := s.cursor.skip (name.length + 1)
    let closed := endsWord (c.ahead 0) ||
      (c.ahead 0).any fun d => ['?', ':', ',', ']', '\x7d', '%', '@'].contains d
    if name.isEmpty || !closed then .none
    else some { s.add (make name) with cursor := c, keyAllowed := false }

/-- Takes a tag. What it names does not matter, but a shorthand needs a known handle. -/
def tag (s : Scan) : Option Scan :=
  s.noteCandidate.bind fun s =>
    let flow := s.inFlow
    let body := (s.cursor.rest.drop 1).takeWhile fun d =>
      !isBlank d && !isBreak d && !(flow && isFlowMark d)
    let known := match body with
      | '<' :: uri => uri.getLast? == some '>'
      | '!' :: suffix => !suffix.isEmpty && !suffix.contains '!'
      | _ => !body.contains '!'
    if known then
      some { s.add .tag with cursor := s.cursor.skip (body.length + 1), keyAllowed := false }
    else .none

def block (literal : Bool) (s : Scan) : Option Scan :=
  s.dropCandidate.bind fun s =>
    (blockScalar literal s.indent (s.cursor.skip 1)).map fun (text, c) =>
      { s.add (.scalar text false) with cursor := c, keyAllowed := true }

def quoted (single : Bool) (s : Scan) : Option Scan :=
  s.noteCandidate.bind fun s =>
    (quotedFrom single (s.cursor.rest.length + 1) [] (s.cursor.skip 1)).map fun (text, c) =>
      { s.add (.scalar text false) with cursor := c, keyAllowed := false }

def plain (s : Scan) : Option Scan :=
  s.noteCandidate.bind fun s =>
    let indent := (s.indent + 1).toNat
    (plainFrom s.inFlow indent (s.cursor.rest.length + 1) [] .none s.cursor).map
      fun (text, lineEnded, c) =>
        { s.add (.scalar text true) with cursor := c, keyAllowed := lineEnded }

/-- Whether a plain scalar can begin with a character, given the one after it. -/
def beginsPlain (flow : Bool) (c : Char) (next : Option Char) : Bool :=
  !(isBlank c || isBreak c ||
    ['-', '?', ':', ',', '[', ']', '\x7b', '\x7d', '#', '&', '*', '!', '|', '>', '\'', '"', '%',
      '@', Char.ofNat 0x60].contains c) ||
  (c == '-' && !(next.all isBlank)) ||
  (!flow && (c == '?' || c == ':') && !endsWord next)

/-- Takes the next token, which begins with the given character. -/
def token (d : Char) (s : Scan) : Option Scan :=
  let c := s.cursor
  let next := c.ahead 1
  if c.column == 0 && d == '%' then s.directive
  else if c.atMarker '-' then s.boundary .documentStart
  else if c.atMarker '.' then s.boundary .documentEnd
  else if d == '[' then s.openFlow .openBracket
  else if d == '\x7b' then s.openFlow .openBrace
  else if d == ']' then s.closeFlow .closeBracket
  else if d == '\x7d' then s.closeFlow .closeBrace
  else if d == ',' then s.mark 1 .comma true
  else if d == '-' && endsWord next then s.item
  else if d == '?' && (s.inFlow || endsWord next) then s.explicitKey
  else if d == ':' && (s.inFlow || endsWord next) then s.colon
  else if d == '*' then s.reference .alias
  else if d == '&' then s.reference .anchor
  else if d == '!' then s.tag
  else if d == '|' && !s.inFlow then s.block true
  else if d == '>' && !s.inFlow then s.block false
  else if d == '\'' then s.quoted true
  else if d == '"' then s.quoted false
  else if beginsPlain s.inFlow d next then s.plain
  else .none

/-- Takes tokens until the text is at its end. Every token takes at least one character. -/
def run : Nat → Scan → Option (List Token)
  | 0, _ => .none
  | fuel + 1, s =>
    let s := s.skipBetween (s.cursor.rest.length + 1)
    match s.dropStale with
    | .none => .none
    | some s =>
      match s.cursor.rest with
      | [] => (s.unroll (-1)).dropCandidate.map Scan.tokens
      | d :: _ => ((s.unroll s.cursor.column).token d).bind (run fuel)

end Scan

/-- The tokens of a text. A byte order mark in front of it is skipped. -/
def tokens? (text : List Char) : Option (List Token) :=
  let text := if text.head? == some '\ufeff' then text.drop 1 else text
  if text.all isAllowed then (Scan.start text).run (text.length + 1) else .none

end QuorumStore.Yaml
