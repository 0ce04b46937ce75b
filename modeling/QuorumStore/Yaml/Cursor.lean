/-! # A place in a YAML text

YAML is read by lines and columns: indentation is meaning. A cursor keeps what is left of the text
together with where it stands.
-/

namespace QuorumStore.Yaml

/-- What is left of a text, and how many characters and line ends stand before it. -/
structure Cursor where
  rest : List Char
  index : Nat
  line : Nat
  column : Nat
  deriving Repr

def isBreak (c : Char) : Bool :=
  c == '\n' || c == '\r' || c == '\u0085' || c == '\u2028' || c == '\u2029'

def isBlank (c : Char) : Bool := c == ' ' || c == '\t'

/-- Whether a line ends here. -/
def endsLine : Option Char → Bool
  | none => true
  | some c => isBreak c

/-- Whether a token ends here. -/
def endsWord : Option Char → Bool
  | none => true
  | some c => isBlank c || isBreak c

/-- The characters a text may hold. -/
def isAllowed (c : Char) : Bool :=
  let n := c.toNat
  n == 0x09 || n == 0x0A || n == 0x0D || (0x20 ≤ n && n ≤ 0x7E) || n == 0x85 ||
    (0xA0 ≤ n && n ≤ 0xD7FF) || (0xE000 ≤ n && n ≤ 0xFFFD) || 0x10000 ≤ n

namespace Cursor

def start (text : List Char) : Cursor := ⟨text, 0, 0, 0⟩

/-- The character `n` places ahead. -/
def ahead (c : Cursor) (n : Nat) : Option Char := c.rest[n]?

/-- Moves over some characters of one line. -/
def skip (n : Nat) (c : Cursor) : Cursor :=
  ⟨c.rest.drop n, c.index + n, c.line, c.column + n⟩

/-- Moves over a line end and tells what it stands for: a line feed, unless it is one of the
    separators that stand for themselves. -/
def skipLine (c : Cursor) : List Char × Cursor :=
  match c.rest with
  | '\r' :: '\n' :: rest => (['\n'], ⟨rest, c.index + 2, c.line + 1, 0⟩)
  | d :: rest =>
    if d == '\u2028' || d == '\u2029' then ([d], ⟨rest, c.index + 1, c.line + 1, 0⟩)
    else if isBreak d then (['\n'], ⟨rest, c.index + 1, c.line + 1, 0⟩)
    else ([], c)
  | [] => ([], c)

def startsWith (word : List Char) (c : Cursor) : Bool := word.isPrefixOf c.rest

/-- Whether a line starts here with three given marks and nothing attached to them. -/
def atMarker (mark : Char) (c : Cursor) : Bool :=
  c.column == 0 && c.startsWith [mark, mark, mark] && endsWord (c.ahead 3)

/-- Whether a document starts or ends here. -/
def atBoundary (c : Cursor) : Bool := c.atMarker '-' || c.atMarker '.'

def skipWhile (p : Char → Bool) (c : Cursor) : Cursor :=
  c.skip (c.rest.takeWhile p).length

def skipToBreak (c : Cursor) : Cursor := c.skipWhile fun d => !isBreak d

end Cursor

end QuorumStore.Yaml
