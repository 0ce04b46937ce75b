import QuorumStore.Json.Written
/-! # Reading JSON

The grammar is the strict one: no comments, no trailing commas, no leading zeros, four blank
characters, and nothing after the value.
-/

namespace QuorumStore.Json

/-- A text to be read; `none` stands for a byte that belongs to no character. -/
abbrev Source := List (Option Char)

def skipBlanks : Source → Source
  | some c :: rest =>
    if c = ' ' ∨ c = '\t' ∨ c = '\n' ∨ c = '\r' then skipBlanks rest else some c :: rest
  | s => s

def takeDigits : Source → List Char × Source
  | some c :: rest =>
    if c.isDigit then
      let (ds, after) := takeDigits rest
      (c :: ds, after)
    else ([], some c :: rest)
  | s => ([], s)

def hexValue? (c : Char) : Option Nat :=
  if c.isDigit then some (c.toNat - '0'.toNat)
  else if 'a' ≤ c ∧ c ≤ 'f' then some (c.toNat - 'a'.toNat + 10)
  else if 'A' ≤ c ∧ c ≤ 'F' then some (c.toNat - 'A'.toNat + 10)
  else none

/-- The value of four hexadecimal digits. -/
def hexUnit? (a b c d : Option Char) : Option Nat :=
  match a.bind hexValue?, b.bind hexValue?, c.bind hexValue?, d.bind hexValue? with
  | some w, some x, some y, some z => some (((w * 16 + x) * 16 + y) * 16 + z)
  | _, _, _, _ => none

/-- The character of a short escape. -/
def unescape? (c : Char) : Option Char :=
  if c = '"' ∨ c = '\\' ∨ c = '/' then some c
  else if c = 'b' then some '\x08'
  else if c = 'f' then some '\x0c'
  else if c = 'n' then some '\n'
  else if c = 'r' then some '\r'
  else if c = 't' then some '\t'
  else none

/-- Reads a string whose opening quote is already read. -/
def stringTail : Source → Option (List Piece × Source)
  | [] => none
  | none :: rest => (stringTail rest).map fun (ps, after) => (.stray :: ps, after)
  | some c :: rest =>
    if c = '"' then some ([], rest)
    else if c = '\\' then
      match rest with
      | some e :: rest₂ =>
        if e = 'u' then
          match rest₂ with
          | h₁ :: h₂ :: h₃ :: h₄ :: rest₃ =>
            match hexUnit? h₁ h₂ h₃ h₄, stringTail rest₃ with
            | some n, some (ps, after) => some (.unit n :: ps, after)
            | _, _ => none
          | _ => none
        else
          match unescape? e, stringTail rest₂ with
          | some ch, some (ps, after) => some (.char ch :: ps, after)
          | _, _ => none
      | _ => none
    else if c.toNat < 0x20 then none
    else (stringTail rest).map fun (ps, after) => (.char c :: ps, after)

/-- Reads the digits before the point: a zero alone, or digits without a zero in front. -/
def wholePart (s : Source) : Option (List Char × Source) :=
  match takeDigits s with
  | ([], _) => none
  | ('0' :: _ :: _, _) => none
  | (ds, rest) => some (ds, rest)

/-- Reads the digits after a point, if there is one. -/
def fractionPart (s : Source) : Option (List Char × Source) :=
  match s with
  | some '.' :: rest =>
    match takeDigits rest with
    | ([], _) => none
    | (ds, rest₂) => some (ds, rest₂)
  | _ => some ([], s)

/-- Reads an exponent, if there is one. -/
def exponentPart (s : Source) : Option (Option (Bool × List Char) × Source) :=
  match s with
  | some c :: rest =>
    if c = 'e' ∨ c = 'E' then
      let (below, rest₂) := match rest with
        | some '+' :: after => (false, after)
        | some '-' :: after => (true, after)
        | _ => (false, rest)
      match takeDigits rest₂ with
      | ([], _) => none
      | (ds, rest₃) => some (some (below, ds), rest₃)
    else some (none, s)
  | _ => some (none, s)

/-- Reads a number whose sign is already read. -/
def numeralTail (negative : Bool) (s : Source) : Option (Numeral × Source) :=
  match wholePart s with
  | none => none
  | some (whole, s₁) =>
    match fractionPart s₁ with
    | none => none
    | some (fraction, s₂) =>
      match exponentPart s₂ with
      | none => none
      | some (exponent, s₃) => some (⟨negative, whole, fraction, exponent⟩, s₃)

/-- Reads a word of which the first letter is already read. -/
def word (letters : List Char) (result : Written) (s : Source) : Option (Written × Source) :=
  match letters, s with
  | [], s => some (result, s)
  | l :: ls, some c :: rest => if c = l then word ls result rest else none
  | _ :: _, _ => none

mutual

/-- Reads a value. Every call inside has less fuel; twice the length of the text is enough. -/
def value : Nat → Source → Option (Written × Source)
  | 0, _ => none
  | fuel + 1, s =>
    match skipBlanks s with
    | some c :: rest =>
      if c = '"' then (stringTail rest).map fun (ps, after) => (.string ps, after)
      else if c = '[' then
        match skipBlanks rest with
        | some ']' :: after => some (.array [], after)
        | _ => (items fuel rest).map fun (xs, after) => (.array xs, after)
      else if c = '\x7b' then
        match skipBlanks rest with
        | some '\x7d' :: after => some (.object [], after)
        | _ => (members fuel rest).map fun (ms, after) => (.object ms, after)
      else if c = 'n' then word ['u', 'l', 'l'] .null rest
      else if c = 't' then word ['r', 'u', 'e'] (.bool true) rest
      else if c = 'f' then word ['a', 'l', 's', 'e'] (.bool false) rest
      else if c = '-' then
        (numeralTail true rest).map fun (n, after) => (.number n, after)
      else (numeralTail false (some c :: rest)).map fun (n, after) => (.number n, after)
    | _ => none

/-- Reads the items of an array up to its bracket; there is at least one. -/
def items : Nat → Source → Option (List Written × Source)
  | 0, _ => none
  | fuel + 1, s =>
    match value fuel s with
    | none => none
    | some (x, s₁) =>
      match skipBlanks s₁ with
      | some c :: rest =>
        if c = ']' then some ([x], rest)
        else if c = ',' then (items fuel rest).map fun (xs, after) => (x :: xs, after)
        else none
      | _ => none

/-- Reads the members of an object up to its brace; there is at least one. -/
def members : Nat → Source → Option (List (List Piece × Written) × Source)
  | 0, _ => none
  | fuel + 1, s =>
    match skipBlanks s with
    | some '"' :: s₁ =>
      match stringTail s₁ with
      | none => none
      | some (key, s₂) =>
        match skipBlanks s₂ with
        | some ':' :: s₃ =>
          match value fuel s₃ with
          | none => none
          | some (x, s₄) =>
            match skipBlanks s₄ with
            | some c :: rest =>
              if c = '\x7d' then some ([(key, x)], rest)
              else if c = ',' then
                (members fuel rest).map fun (ms, after) => ((key, x) :: ms, after)
              else none
            | _ => none
        | _ => none
    | _ => none

end

/-- What a text writes, if it is one JSON value with nothing after it. -/
def read? (s : Source) : Option Written :=
  match value (2 * s.length + 2) s with
  | some (w, rest) => if skipBlanks rest = [] then some w else none
  | none => none

def parse? (s : Source) : Option Json := (read? s).bind (Written.json? Written.maxDepth)

def ofString (s : String) : Option Json := parse? (s.toList.map some)

def ofBytes (bytes : List UInt8) : Option Json := parse? (Utf8.scan bytes)

end QuorumStore.Json
