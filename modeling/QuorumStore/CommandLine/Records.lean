import QuorumStore.Client
import QuorumStore.CommandLine.Options
import QuorumStore.Config.Membership
/-! # Reading and writing records from a command line

A command names the servers to talk to, a token, and one thing to do: to print the value of a key,
to store a JSON object under it, or to delete it.
-/

namespace QuorumStore.CommandLine

/-- How a program ended: what it printed, what it complained of, and its exit code. -/
structure Ending where
  code : Nat
  output : String
  complaint : String
  deriving Repr, DecidableEq

def Ending.complain (code : Nat) (complaint : String) : Ending := ⟨code, "", complaint⟩

/-- What to do with a record. -/
inductive Task where
  | get (key : String)
  /-- The value is the text of a JSON object. -/
  | put (key value : String) (version : Nat)
  | delete (key : String)
  deriving Repr, DecidableEq

namespace Task

def isVersion (s : String) : Bool := (Decimal.below? Decimal.limit64 s.toList).isSome

/-- What belongs to the storing of an object. -/
def putOptions : Grammar := { flags := [{ name := "version", admits := isVersion }], words := 2 }

/-- What belongs to a task that needs nothing but a key. -/
def keyOnly : Grammar := { flags := [], words := 1 }

/-- A task by its name and what follows it. -/
def ofWords (name : String) (words : List String) : Except Usage Task :=
  match name with
  | "get" => keyed .get
  | "delete" => keyed .delete
  | "put" =>
    match putOptions.parse words with
    | .error e => .error e
    | .ok l =>
      match l.words with
      | [key, value] =>
        .ok (.put key value (((l.value? "version").bind fun s =>
          Decimal.below? Decimal.limit64 s.toList).getD 0))
      | _ => .error .wrong
  | "help" =>
    match words with
    | [] => .error .help
    | [about] => if about ∈ ["get", "put", "delete", "help"] then .error .help else .error .wrong
    | _ => .error .wrong
  | _ => .error .wrong
where
  keyed (make : String → Task) : Except Usage Task :=
    match keyOnly.parse words with
    | .error e => .error e
    | .ok l =>
      match l.words with
      | [key] => .ok (make key)
      | _ => .error .wrong

end Task

/-- A command for the servers. -/
structure Records where
  servers : List String
  /-- The file that lists the servers if none are named. -/
  file : Option String
  token : String
  task : Task
  deriving Repr, DecidableEq

namespace Records

def options : Grammar :=
  { flags := [{ name := "servers", repeats := true }, { name := "servers-file" },
      { name := "token" }]
    words := 1
    hands := true }

/-- The parts of a text between commas. -/
def betweenCommas (s : String) : List String := s.splitOn ","

/-- The command of a line. A token that is not given is taken from the environment. -/
def ofWords (environment : Option String) (words : List String) : Except Usage Records :=
  match options.parse words with
  | .error e => .error e
  | .ok l =>
    match Task.ofWords (l.words.headD "") l.rest with
    | .error e => .error e
    | .ok task =>
      match (l.value? "token").or environment with
      | none => .error .wrong
      | some token =>
        .ok ⟨(l.all "servers").flatMap betweenCommas, l.value? "servers-file", token, task⟩

/-- The servers of the command. They are read from the file only if none are named. -/
def servers? {m : Type → Type} [Monad m] (read : String → m (Option (List UInt8)))
    (c : Records) : m (Except String (List String)) := do
  match c.file, c.servers with
  | some path, [] =>
    let text := (BootstrapError.unreadable path).text
    match ← read path with
    | none => return .error (text ++ ": No such file or directory (os error 2)")
    | some bytes =>
      match membersOfFile? bytes with
      | none => return .error (text ++ ": stream did not contain valid UTF-8")
      | some servers => return .ok servers
  | _, servers => return .ok servers

/-- The request of a task. An object can only be stored if its text is one. -/
def request (c : Client) : Task → Except String HttpRequest
  | .get key => .ok (c.getRequest key)
  | .delete key => .ok (c.deleteRequest key)
  | .put key value version =>
    match Json.ofString value with
    | none => .error "value is not valid JSON"
    | some (.object document) => .ok (c.putRequest key document version)
    | some _ => .error "value must be a JSON object"

/-- The text of an error with the fault behind it. -/
def errorText : ClientError → String
  | .noLeader attempts (some fault) =>
    (ClientError.noLeader attempts (some fault)).text ++ ": " ++ fault.text
  | e => e.text

def ending : Except ClientError ClientOutcome → Ending
  | .error e => .complain 2 ("error: " ++ errorText e)
  | .ok (.granted record) => ⟨0, record.key ++ "\t" ++ record.value ++ "\n", ""⟩
  | .ok (.refused error message) => .complain 1 (error ++ ": " ++ message)

def run {m : Type → Type} [Monad m] (read : String → m (Option (List UInt8))) (wire : Wire m)
    (sleep : Nat → m Unit) (c : Records) : m Ending := do
  match ← c.servers? read with
  | .error e => return .complain 2 ("error: " ++ e)
  | .ok servers =>
    match Client.new servers c.token with
    | .error e => return .complain 2 ("error: " ++ errorText e)
    | .ok client =>
      match request client c.task with
      | .error e => return .complain 2 ("error: " ++ e)
      | .ok r => return ending (← client.send wire sleep r)

end Records

end QuorumStore.CommandLine
