/-! # Options

How the words of a command line divide into options and plain words. An option has a long name and
perhaps a letter, and takes one value, which follows it or is attached to it. After two dashes alone
every word is plain. The line is read from left to right, and the first thing that is wrong, or that
asks for help, decides.
-/

namespace QuorumStore.CommandLine

/-- Why a command line does not lead to a run. -/
inductive Usage where
  /-- It is not one that the program understands. -/
  | wrong
  | help
  | version
  deriving Repr, DecidableEq

/-- What a word looks like. -/
inductive Word where
  | plain (s : String)
  /-- Two dashes alone. -/
  | dashes
  /-- A long name, perhaps with a value attached by an equals sign. -/
  | long (name : String) (value : Option String)
  /-- A letter, perhaps with a value attached. -/
  | short (letter : Char) (value : Option String)
  deriving Repr, DecidableEq

/-- What follows the first equals sign. -/
def attached? (cs : List Char) : Option String :=
  match cs.dropWhile (· != '=') with
  | _ :: value => some (String.ofList value)
  | [] => none

/-- The value attached to a letter; an equals sign before it does not belong to it. -/
def Word.rest? : List Char → Option String
  | [] => none
  | '=' :: value => some (String.ofList value)
  | value => some (String.ofList value)

/-- The look of a word. A single dash is a plain word. -/
def Word.ofString (s : String) : Word :=
  match s.toList with
  | ['-', '-'] => .dashes
  | '-' :: '-' :: cs => .long (String.ofList (cs.takeWhile (· != '='))) (attached? cs)
  | '-' :: letter :: cs => .short letter (Word.rest? cs)
  | _ => .plain s

structure Flag where
  name : String
  letter : Option Char := none
  repeats : Bool := false
  /-- The values it takes. -/
  admits : String → Bool := fun _ => true

/-- What a command line may consist of. -/
structure Grammar where
  flags : List Flag
  /-- How many plain words there are. -/
  words : Nat
  /-- Whether the last plain word leaves what follows it to another grammar. -/
  hands : Bool := false
  versioned : Bool := false

structure Line where
  values : List (String × String)
  words : List String
  /-- What is left to another grammar. -/
  rest : List String
  deriving Repr, DecidableEq

namespace Line

def empty : Line := ⟨[], [], []⟩

def all (l : Line) (name : String) : List String :=
  (l.values.filter (·.1 == name)).map (·.2)

/-- The value of an option that is given once at most. -/
def value? (l : Line) (name : String) : Option String := (l.all name).head?

end Line

namespace Grammar

/-- The meaning of an option: one of the grammar's own, or something that ends the reading. -/
def flag (g : Grammar) (word : Word) : Except Usage Flag :=
  match word with
  | .long name value =>
    match g.flags.find? (·.name == name) with
    | some f => .ok f
    | none =>
      if value.isSome then .error .wrong
      else if name = "help" then .error .help
      else if name = "version" ∧ g.versioned then .error .version
      else .error .wrong
  | .short letter _ =>
    match g.flags.find? (·.letter == some letter) with
    | some f => .ok f
    | none =>
      if letter = 'h' then .error .help
      else if letter = 'V' ∧ g.versioned then .error .version
      else .error .wrong
  | _ => .error .wrong

/-- Takes in an option with its value. -/
def give (f : Flag) (value : String) (l : Line) : Except Usage Line :=
  if !f.repeats && (l.value? f.name).isSome then .error .wrong
  else if f.admits value then .ok { l with values := l.values ++ [(f.name, value)] }
  else .error .wrong

/-- Takes in a plain word, unless there are enough of them. -/
def say (g : Grammar) (word : String) (l : Line) : Except Usage Line :=
  if l.words.length < g.words then .ok { l with words := l.words ++ [word] } else .error .wrong

/-- Takes in words one after the other. -/
def scan (g : Grammar) (literal : Bool) (l : Line) : List String → Except Usage Line
  | [] => if l.words.length = g.words then .ok l else .error .wrong
  | word :: rest =>
    let look := if literal then .plain word else Word.ofString word
    match look with
    | .dashes => if g.hands then .error .wrong else g.scan true l rest
    | .plain s =>
      match g.say s l with
      | .error e => .error e
      | .ok l =>
        if g.hands && l.words.length == g.words then .ok { l with rest }
        else g.scan literal l rest
    | .long _ value | .short _ value =>
      match g.flag look with
      | .error e => .error e
      | .ok f =>
        match value, rest with
        | some value, rest =>
          match give f value l with
          | .error e => .error e
          | .ok l => g.scan literal l rest
        | none, [] => .error .wrong
        | none, value :: rest =>
          match Word.ofString value with
          | .plain value =>
            match give f value l with
            | .error e => .error e
            | .ok l => g.scan literal l rest
          | _ => .error .wrong

def parse (g : Grammar) (words : List String) : Except Usage Line := g.scan false .empty words

end Grammar

end QuorumStore.CommandLine
