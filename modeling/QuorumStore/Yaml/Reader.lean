import QuorumStore.Yaml.Token
/-! # YAML documents

A text holds one document. What a document holds is a tree; an alias stands for the tree its anchor
was set on before.
-/

namespace QuorumStore.Yaml

/-- A tree. Of a scalar is kept how it was written, since only a plain one can be a number. -/
inductive Tree where
  | scalar (text : String) (plain tagged : Bool)
  | sequence (items : List Tree)
  | mapping (entries : List (Tree × Tree))
  deriving Repr

/-- What stands where nothing is written. -/
def Tree.empty : Tree := .scalar "" true false

/-- The trees that anchors were set on, the latest first. -/
abbrev Anchors := List (List Char × Tree)

/-- What is read, the tokens after it, and the anchors known by then. -/
abbrev Step (α : Type) := Option (α × List Token × Anchors)

/-- The anchor and the tag in front of a tree, in either order. -/
def properties : List Token → Option (List Char) × Bool × List Token
  | .anchor a :: .tag :: rest => (some a, true, rest)
  | .tag :: .anchor a :: rest => (some a, true, rest)
  | .anchor a :: rest => (some a, false, rest)
  | .tag :: rest => (none, true, rest)
  | rest => (none, false, rest)

/-- Whether the next token is one of these. -/
def next (ts : List Token) (ends : List Token) : Bool :=
  match ts with
  | [] => true
  | t :: _ => ends.contains t

def setAnchor (name : Option (List Char)) (t : Tree) (anchors : Anchors) : Anchors :=
  match name with
  | some a => (a, t) :: anchors
  | none => anchors

mutual

/-- Reads a tree. A block collection can stand only inside blocks, and items without indentation
    only as the value of a key. -/
def tree (block loose : Bool) : Nat → List Token → Anchors → Step Tree
  | 0, _, _ => none
  | _ + 1, .alias a :: rest, anchors => (anchors.lookup a).map (·, rest, anchors)
  | fuel + 1, ts, anchors =>
    let (anchor, tagged, ts) := properties ts
    let read : Step Tree :=
      match ts with
      | .item :: _ => if loose then looseItems fuel [] ts anchors else none
      | .scalar text plain :: rest =>
        some (.scalar (String.ofList text) plain tagged, rest, anchors)
      | .openBracket :: rest => flowItems fuel [] rest anchors
      | .openBrace :: rest => flowEntries fuel [] rest anchors
      | .sequenceStart :: rest => if block then items fuel [] rest anchors else none
      | .mappingStart :: rest => if block then entries fuel [] rest anchors else none
      | _ => none
    match read with
    | some (t, rest, anchors) => some (t, rest, setAnchor anchor t anchors)
    | none =>
      let opened := match ts with
        | .item :: _ => loose
        | .scalar .. :: _ | .openBracket :: _ | .openBrace :: _ => true
        | .sequenceStart :: _ | .mappingStart :: _ => block
        | _ => false
      if !opened && (anchor.isSome || tagged) then
        let t : Tree := .scalar "" true tagged
        some (t, ts, setAnchor anchor t anchors)
      else none

/-- Reads a tree unless one of the given tokens is next, where nothing is written. -/
def treeUnless (ends : List Token) (block loose : Bool) :
    Nat → List Token → Anchors → Step Tree
  | 0, _, _ => none
  | fuel + 1, ts, anchors =>
    if next ts ends then some (.empty, ts, anchors) else tree block loose fuel ts anchors

def items : Nat → List Tree → List Token → Anchors → Step Tree
  | 0, _, _, _ => none
  | fuel + 1, done, .item :: rest, anchors =>
    match treeUnless [.item, .blockEnd] true false fuel rest anchors with
    | some (t, rest, anchors) => items fuel (t :: done) rest anchors
    | none => none
  | _ + 1, done, .blockEnd :: rest, anchors => some (.sequence done.reverse, rest, anchors)
  | _, _, _, _ => none

/-- Reads items that are not indented; they end where no dash follows. -/
def looseItems : Nat → List Tree → List Token → Anchors → Step Tree
  | 0, _, _, _ => none
  | fuel + 1, done, .item :: rest, anchors =>
    match treeUnless [.item, .key, .value, .blockEnd] true false fuel rest anchors with
    | some (t, rest, anchors) => looseItems fuel (t :: done) rest anchors
    | none => none
  | _ + 1, done, rest, anchors => some (.sequence done.reverse, rest, anchors)

def entries : Nat → List (Tree × Tree) → List Token → Anchors → Step Tree
  | 0, _, _, _ => none
  | fuel + 1, done, .key :: rest, anchors =>
    match treeUnless [.key, .value, .blockEnd] true true fuel rest anchors with
    | none => none
    | some (k, .value :: rest, anchors) =>
      match treeUnless [.key, .value, .blockEnd] true true fuel rest anchors with
      | some (v, rest, anchors) => entries fuel ((k, v) :: done) rest anchors
      | none => none
    | some (k, rest, anchors) => entries fuel ((k, .empty) :: done) rest anchors
  | _ + 1, done, .blockEnd :: rest, anchors => some (.mapping done.reverse, rest, anchors)
  | _, _, _, _ => none

/-- Reads the items of a flow sequence. A pair among them is a mapping of its own. -/
def flowItems : Nat → List Tree → List Token → Anchors → Step Tree
  | 0, _, _, _ => none
  | _ + 1, done, .closeBracket :: rest, anchors => some (.sequence done.reverse, rest, anchors)
  | fuel + 1, done, .key :: rest, anchors =>
    match flowPair [.comma, .closeBracket] fuel rest anchors with
    | some (pair, rest, anchors) => flowItemsGoOn fuel (.mapping [pair] :: done) rest anchors
    | none => none
  | fuel + 1, done, ts, anchors =>
    match tree false false fuel ts anchors with
    | some (t, rest, anchors) => flowItemsGoOn fuel (t :: done) rest anchors
    | none => none

/-- Goes on after an item of a flow sequence. -/
def flowItemsGoOn : Nat → List Tree → List Token → Anchors → Step Tree
  | 0, _, _, _ => none
  | fuel + 1, done, .comma :: rest, anchors => flowItems fuel done rest anchors
  | _ + 1, done, .closeBracket :: rest, anchors => some (.sequence done.reverse, rest, anchors)
  | _, _, _, _ => none

/-- Reads a key, whose mark is already read, and its value, up to one of the given tokens. -/
def flowPair (ends : List Token) : Nat → List Token → Anchors → Step (Tree × Tree)
  | 0, _, _ => none
  | fuel + 1, ts, anchors =>
    match treeUnless (.value :: ends) false false fuel ts anchors with
    | none => none
    | some (k, .value :: rest, anchors) =>
      match treeUnless ends false false fuel rest anchors with
      | some (v, rest, anchors) => some ((k, v), rest, anchors)
      | none => none
    | some (k, rest, anchors) => some ((k, .empty), rest, anchors)

/-- Reads the entries of a flow mapping. A tree that is not marked as a key has no value. -/
def flowEntries : Nat → List (Tree × Tree) → List Token → Anchors → Step Tree
  | 0, _, _, _ => none
  | _ + 1, done, .closeBrace :: rest, anchors => some (.mapping done.reverse, rest, anchors)
  | fuel + 1, done, .key :: rest, anchors =>
    match flowPair [.comma, .closeBrace] fuel rest anchors with
    | some (pair, rest, anchors) => flowEntriesGoOn fuel (pair :: done) rest anchors
    | none => none
  | fuel + 1, done, ts, anchors =>
    match tree false false fuel ts anchors with
    | some (k, rest, anchors) => flowEntriesGoOn fuel ((k, .empty) :: done) rest anchors
    | none => none

/-- Goes on after an entry of a flow mapping. -/
def flowEntriesGoOn : Nat → List (Tree × Tree) → List Token → Anchors → Step Tree
  | 0, _, _, _ => none
  | fuel + 1, done, .comma :: rest, anchors => flowEntries fuel done rest anchors
  | _ + 1, done, .closeBrace :: rest, anchors => some (.mapping done.reverse, rest, anchors)
  | _, _, _, _ => none

end

/-- The directives in front of a document, which then has to start explicitly. -/
def skipDirectives : List Token → Option (List Token)
  | .directive :: .documentStart :: rest => some rest
  | .directive :: _ => none
  | .documentStart :: rest => some rest
  | ts => some ts

/-- The tree of the only document of a text. -/
def document? (text : List Char) : Option Tree :=
  match (tokens? text).bind skipDirectives with
  | none => none
  | some ts =>
    let ends : List Token := [.directive, .documentStart, .documentEnd]
    match treeUnless ends true false (4 * ts.length + 4) ts [] with
    | some (t, rest, _) => if rest.all (· == .documentEnd) then some t else none
    | none => none

end QuorumStore.Yaml
