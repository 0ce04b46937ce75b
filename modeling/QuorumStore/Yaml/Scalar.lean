import QuorumStore.Yaml.Cursor
import QuorumStore.Json.Reader
/-! # YAML scalars

A scalar may run over several lines. The line ends inside it are folded: a single one becomes a
blank, and each further one is kept.
-/

namespace QuorumStore.Yaml

/-- Blanks and line ends inside a scalar, as they are passed. -/
structure Gap where
  /-- The blanks on the first line. -/
  blanks : List Char
  /-- The first line end, once there is one. -/
  first : Option (List Char)
  /-- The line ends after it. -/
  others : List Char

def Gap.none : Gap := ⟨[], .none, []⟩

/-- What a gap stands for in the scalar. -/
def Gap.fold (g : Gap) : List Char :=
  match g.first with
  | .none => g.blanks
  | some ['\n'] => if g.others.isEmpty then [' '] else g.others
  | some first => first ++ g.others

/-- Passes blanks and line ends. A tab is refused where it would stand for indentation. -/
def skipGap (strict : Nat → Bool) : Nat → Gap → Cursor → Option (Gap × Cursor)
  | 0, _, _ => .none
  | fuel + 1, g, c =>
    match c.ahead 0 with
    | .none => some (g, c)
    | some d =>
      if isBlank d then
        match g.first with
        | .none => skipGap strict fuel { g with blanks := g.blanks ++ [d] } (c.skip 1)
        | some _ =>
          if d == '\t' && strict c.column then .none else skipGap strict fuel g (c.skip 1)
      else if isBreak d then
        let (text, c) := c.skipLine
        match g.first with
        | .none => skipGap strict fuel ⟨[], some text, []⟩ c
        | some _ => skipGap strict fuel { g with others := g.others ++ text } c
      else some (g, c)

/-! ## Plain scalars -/

/-- The brackets, braces and commas of flow collections. -/
def isFlowMark (c : Char) : Bool :=
  c == ',' || c == '[' || c == ']' || c == '\x7b' || c == '\x7d'

/-- Takes a run of a plain scalar up to a blank, a line end or its end. A colon that touches a
    mark of a flow collection is refused. -/
def plainRun (flow : Bool) : List Char → Option (List Char)
  | [] => some []
  | c :: rest =>
    if isBlank c || isBreak c then some []
    else if c == ':' && flow && (rest.head?.any fun d => d == '?' || isFlowMark d) then .none
    else if c == ':' && endsWord rest.head? then some []
    else if flow && isFlowMark c then some []
    else (plainRun flow rest).map (c :: ·)

/-- Takes a plain scalar; tells also whether a line ended after it. -/
def plainFrom (flow : Bool) (indent : Nat) :
    Nat → List Char → Gap → Cursor → Option (List Char × Bool × Cursor)
  | 0, _, _, _ => .none
  | fuel + 1, text, gap, c =>
    if c.atBoundary || c.ahead 0 == some '#' then some (text, gap.first.isSome, c)
    else
      match plainRun flow c.rest with
      | .none => .none
      | some run =>
        let text := if run.isEmpty then text else text ++ gap.fold ++ run
        let gap := if run.isEmpty then gap else .none
        let c := c.skip run.length
        match c.ahead 0 with
        | .none => some (text, gap.first.isSome, c)
        | some d =>
          if isBlank d || isBreak d then
            match skipGap (· < indent) (c.rest.length + 1) .none c with
            | .none => .none
            | some (gap, c) =>
              if !flow && c.column < indent then some (text, gap.first.isSome, c)
              else plainFrom flow indent fuel text gap c
          else some (text, gap.first.isSome, c)

/-! ## Quoted scalars -/

/-- What a single character after a backslash stands for. -/
def escaped? (c : Char) : Option Char :=
  match c with
  | '0' => some '\x00'
  | 'a' => some '\x07'
  | 'b' => some '\x08'
  | 't' | '\t' => some '\t'
  | 'n' => some '\n'
  | 'v' => some '\x0b'
  | 'f' => some '\x0c'
  | 'r' => some '\r'
  | 'e' => some '\x1b'
  | ' ' => some ' '
  | '"' => some '"'
  | '/' => some '/'
  | '\\' => some '\\'
  | 'N' => some '\u0085'
  | '_' => some '\u00a0'
  | 'L' => some '\u2028'
  | 'P' => some '\u2029'
  | _ => .none

/-- How many hexadecimal digits follow an escape. -/
def hexLength? (c : Char) : Option Nat :=
  match c with
  | 'x' => some 2
  | 'u' => some 4
  | 'U' => some 8
  | _ => .none

/-- The character of a run of hexadecimal digits. -/
def hexChar? (digits : List Char) : Option Char :=
  (digits.mapM Json.hexValue?).bind fun ns =>
    Utf8.ofCode? (ns.foldl (fun n d => n * 16 + d) 0)

/-- Takes a run of a quoted scalar up to a blank, a line end or its closing quote. The flag tells
    that a backslash ended the line. -/
def quotedRun (single : Bool) : Nat → List Char → Cursor → Option (List Char × Bool × Cursor)
  | 0, _, _ => .none
  | fuel + 1, text, c =>
    match c.ahead 0 with
    | .none => .none
    | some d =>
      if isBlank d || isBreak d then some (text, false, c)
      else if single then
        if d == '\'' then
          if c.ahead 1 == some '\'' then quotedRun single fuel (text ++ ['\'']) (c.skip 2)
          else some (text, false, c)
        else quotedRun single fuel (text ++ [d]) (c.skip 1)
      else if d == '"' then some (text, false, c)
      else if d == '\\' then
        match c.ahead 1 with
        | .none => .none
        | some e =>
          if isBreak e then some (text, true, ((c.skip 1).skipLine).2)
          else
            match escaped? e, hexLength? e with
            | some ch, _ => quotedRun single fuel (text ++ [ch]) (c.skip 2)
            | .none, some n =>
              let digits := (c.rest.drop 2).take n
              match digits.length == n, hexChar? digits with
              | true, some ch => quotedRun single fuel (text ++ [ch]) (c.skip (2 + n))
              | _, _ => .none
            | .none, .none => .none
      else quotedRun single fuel (text ++ [d]) (c.skip 1)

/-- Takes a quoted scalar whose opening quote is already passed. -/
def quotedFrom (single : Bool) : Nat → List Char → Cursor → Option (List Char × Cursor)
  | 0, _, _ => .none
  | fuel + 1, text, c =>
    if c.atBoundary then .none
    else
      match quotedRun single (c.rest.length + 1) text c with
      | .none => .none
      | some (text, broken, c) =>
        match c.ahead 0 with
        | .none => .none
        | some d =>
          if !broken && !isBlank d && !isBreak d then some (text, c.skip 1)
          else
            let gap : Gap := if broken then ⟨[], some [], []⟩ else .none
            match skipGap (fun _ => false) (c.rest.length + 1) gap c with
            | .none => .none
            | some (gap, c) => quotedFrom single fuel (text ++ gap.fold) c

/-! ## Block scalars -/

/-- What becomes of the line ends after a block scalar. -/
inductive Chomp where
  | strip
  | clip
  | keep
  deriving DecidableEq

/-- The header of a block scalar: what becomes of its end, and its indentation if that is given. -/
def blockHeader (c : Cursor) : Option (Chomp × Option Nat × Cursor) :=
  let chomp? : Option Char → Option Chomp
    | some '+' => some .keep
    | some '-' => some .strip
    | _ => .none
  let indent? : Option Char → Option Nat := fun d =>
    d.bind fun d => if d.isDigit then some (d.toNat - '0'.toNat) else .none
  let found : Chomp × Option Nat × Cursor :=
    match chomp? (c.ahead 0), indent? (c.ahead 0) with
    | some chomp, _ =>
      match indent? (c.ahead 1) with
      | some n => (chomp, some n, c.skip 2)
      | .none => (chomp, .none, c.skip 1)
    | .none, some n =>
      match chomp? (c.ahead 1) with
      | some chomp => (chomp, some n, c.skip 2)
      | .none => (.clip, some n, c.skip 1)
    | .none, .none => (.clip, .none, c)
  let (chomp, indent, c) := found
  let c := c.skipWhile isBlank
  let c := if c.ahead 0 == some '#' then c.skipToBreak else c
  if indent == some 0 || !endsLine (c.ahead 0) then .none
  else some (chomp, indent, (c.skipLine).2)

/-- Passes indentation and empty lines before a line of a block scalar. Without an indentation to
    go by, the deepest one seen is told. -/
def blockBreaks (indent : Option Nat) :
    Nat → Nat → List Char → Cursor → Option (Nat × List Char × Cursor)
  | 0, _, _, _ => .none
  | fuel + 1, deepest, breaks, c =>
    let within (column : Nat) : Bool := indent.all (column < ·)
    match c.ahead 0 with
    | .none => some (max deepest c.column, breaks, c)
    | some d =>
      if d == ' ' && within c.column then
        blockBreaks indent fuel deepest breaks (c.skip 1)
      else
        let deepest := max deepest c.column
        if d == '\t' && within c.column then .none
        else if isBreak d then
          let (text, c) := c.skipLine
          blockBreaks indent fuel deepest (breaks ++ text) c
        else some (deepest, breaks, c)

/-- Takes the lines of a block scalar. -/
def blockLines (literal : Bool) (indent : Nat) :
    Nat → List Char → List Char → List Char → Bool → Cursor →
      Option (List Char × List Char × List Char × Cursor)
  | 0, _, _, _, _, _ => .none
  | fuel + 1, text, lead, trail, wasBlank, c =>
    match c.ahead 0 with
    | .none => some (text, lead, trail, c)
    | some d =>
      if c.column != indent then some (text, lead, trail, c)
      else
        let blank := isBlank d
        let joint :=
          if !literal && lead == ['\n'] && !wasBlank && !blank then
            if trail.isEmpty then [' '] else []
          else lead
        let line := c.rest.takeWhile fun d => !isBreak d
        let (lead, c) := (c.skip line.length).skipLine
        match blockBreaks (some indent) (c.rest.length + 1) 0 [] c with
        | .none => .none
        | some (_, breaks, c) =>
          blockLines literal indent fuel (text ++ joint ++ trail ++ line) lead breaks blank c

/-- Takes a block scalar whose indicator is already passed. -/
def blockScalar (literal : Bool) (parent : Int) (c : Cursor) : Option (List Char × Cursor) :=
  match blockHeader c with
  | .none => .none
  | some (chomp, given, c) =>
    let base := if 0 ≤ parent then parent.toNat else 0
    let given := given.map (base + ·)
    match blockBreaks given (c.rest.length + 1) 0 [] c with
    | .none => .none
    | some (deepest, breaks, c) =>
      let indent := given.getD (max deepest (max (parent + 1).toNat 1))
      match blockLines literal indent (c.rest.length + 1) [] [] breaks false c with
      | .none => .none
      | some (text, lead, trail, c) =>
        let tail := match chomp with
          | .strip => []
          | .clip => lead
          | .keep => lead ++ trail
        some (text ++ tail, c)

end QuorumStore.Yaml
