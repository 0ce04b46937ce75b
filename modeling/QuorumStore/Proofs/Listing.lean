import QuorumStore.Config.Membership
import QuorumStore.Proofs.Trimming
import QuorumStore.Proofs.Utf8Text
/-! # Lists of members

A member's position counts the addresses of a list, so a line too many or too few would give two
members one place. What a text lists is said here without a word on how it is read: there are lines
with an address, blank lines and comments, each with its end. Reading finds the list of a text, and
every text has just one.
-/

namespace QuorumStore

/-- An address that a line may hold. -/
structure IsAddress (address : String) : Prop where
  filled : address ≠ ""
  trimmed : Text.trim address.toList = address.toList
  oneLine : '\n' ∉ address.toList
  noComment : address.toList.head? ≠ some '#'

/-- What a line lists. -/
inductive ListingLine : List Char → List String → Prop where
  | address {before after : List Char} {address : String} (front : Text.Blanks before)
      (valid : IsAddress address) (back : Text.Blanks after) :
      ListingLine (before ++ address.toList ++ after) [address]
  | blank {line : List Char} (blank : Text.Blanks line) : ListingLine line []
  | comment {before : List Char} (front : Text.Blanks before) (text : List Char) :
      ListingLine (before ++ '#' :: text) []

/-- A line feed ends a line, alone or after a carriage return. -/
inductive LineEnd : List Char → Prop where
  | feed : LineEnd ['\n']
  | returnFeed : LineEnd ['\r', '\n']

/-- What a text lists, line by line. -/
inductive Listing : List Char → List String → Prop where
  /-- No end follows the last line, which is empty where the text ends with a line end. -/
  | last {line : List Char} {members : List String} (one : '\n' ∉ line)
      (lists : ListingLine line members) : Listing line members
  | line {line ending rest : List Char} {members others : List String} (one : '\n' ∉ line)
      (lists : ListingLine line members) (ends : LineEnd ending) (later : Listing rest others) :
      Listing (line ++ ending ++ rest) (members ++ others)

variable {line text : List Char} {members : List String}

/-! ## One line -/

/-- A trimmed line that holds an address. -/
def holdsAddress (line : List Char) : Bool := !line.isEmpty && line.head? != some '#'

theorem holdsAddress_of_address {address : String} (valid : IsAddress address) :
    holdsAddress address.toList = true := by
  have filled : address.toList ≠ [] := fun empty => valid.filled (String.toList_eq_nil_iff.mp empty)
  simp [holdsAddress, filled, valid.noComment]

theorem not_holdsAddress_cases (nobody : holdsAddress line = false) :
    line = [] ∨ line.head? = some '#' := by
  simpa [holdsAddress, imp_iff_not_or] using nobody

theorem listedMembers_eq_filter (text : List Char) : listedMembers text =
    (((Text.lines text).map Text.trim).filter holdsAddress).map String.ofList := rfl

theorem listedMembers_of_one (one : '\n' ∉ line) : listedMembers line =
    if holdsAddress (Text.trim line) then [String.ofList (Text.trim line)] else [] := by
  rw [listedMembers_eq_filter, Text.lines_of_one one]
  by_cases empty : line = []
  · rw [empty]
    rfl
  · rw [if_neg empty, List.map_singleton, List.filter_cons]
    by_cases holds : holdsAddress (Text.trim line)
    · rw [if_pos holds, if_pos holds]
      rfl
    · rw [if_neg holds, if_neg holds]
      rfl

theorem listedMembers_append (one : '\n' ∉ line) (rest : List Char) :
    listedMembers (line ++ '\n' :: rest) = listedMembers line ++ listedMembers rest := by
  rw [listedMembers_of_one one, listedMembers_eq_filter, listedMembers_eq_filter,
    Text.trim_lines_append one, List.filter_cons]
  by_cases holds : holdsAddress (Text.trim line)
  · rw [if_pos holds, if_pos holds]
    rfl
  · rw [if_neg holds, if_neg holds]
    rfl

theorem ListingLine.listedMembers_eq (lists : ListingLine line members) (one : '\n' ∉ line) :
    listedMembers line = members := by
  rw [listedMembers_of_one one]
  cases lists with
  | address front valid back =>
      rw [Text.trim_surround front back, valid.trimmed, if_pos (holdsAddress_of_address valid),
        String.ofList_toList]
  | blank blank =>
      rw [Text.trim_eq_nil_iff.mpr blank]
      rfl
  | @comment before front text =>
      have mark : (Text.trim (before ++ '#' :: text)).head? = some '#' :=
        Text.head?_trim front (by decide)
      have nobody : ¬ holdsAddress (Text.trim (before ++ '#' :: text)) := by
        simp [holdsAddress, mark]
      exact if_neg nobody

theorem isAddress_trim (one : '\n' ∉ line) (holds : holdsAddress (Text.trim line) = true) :
    IsAddress (String.ofList (Text.trim line)) := by
  obtain ⟨before, after, _, _, whole⟩ := Text.exists_surround line
  rw [holdsAddress, Bool.and_eq_true, Bool.not_eq_true', List.isEmpty_eq_false_iff, bne_iff_ne]
    at holds
  obtain ⟨filled, noComment⟩ := holds
  refine ⟨fun empty => filled ?_, ?_, ?_, ?_⟩
  · exact String.ofList_eq_empty_iff.mp empty
  · rw [String.toList_ofList, Text.trim_trim]
  · rw [String.toList_ofList]
    intro feed
    apply one
    rw [← whole]
    exact List.mem_append_left after (List.mem_append_right before feed)
  · rw [String.toList_ofList]
    exact noComment

/-- Every line lists an address or nothing. -/
theorem listingLine_listedMembers (one : '\n' ∉ line) : ListingLine line (listedMembers line) := by
  obtain ⟨before, after, front, back, whole⟩ := Text.exists_surround line
  rw [listedMembers_of_one one]
  by_cases holds : holdsAddress (Text.trim line)
  · rw [if_pos holds]
    have lists := ListingLine.address front (isAddress_trim one holds) back
    rw [String.toList_ofList, whole] at lists
    exact lists
  · rw [if_neg holds]
    cases not_holdsAddress_cases (Bool.eq_false_iff.mpr holds) with
    | inl nothing => exact .blank (Text.trim_eq_nil_iff.mp nothing)
    | inr mark =>
        obtain ⟨text, comment⟩ := List.head?_eq_some_iff.mp mark
        have lists := ListingLine.comment front (text ++ after)
        rw [← List.cons_append, ← List.append_assoc, ← comment, whole] at lists
        exact lists

/-! ## All lines -/

theorem listedMembers_return (one : '\n' ∉ line) :
    listedMembers (line ++ ['\r']) = listedMembers line := by
  have one' : '\n' ∉ line ++ ['\r'] := by simp [one]
  rw [listedMembers_of_one one', listedMembers_of_one one,
    Text.trim_append_blanks Text.blanks_return]

theorem Listing.listedMembers_eq (listing : Listing text members) :
    listedMembers text = members := by
  induction listing with
  | last one lists => exact lists.listedMembers_eq one
  | @line line ending rest members others one lists ends _ ih =>
      cases ends with
      | feed =>
          calc
            listedMembers (line ++ ['\n'] ++ rest) = listedMembers (line ++ '\n' :: rest) := by
              rw [List.append_assoc, List.singleton_append]
            _ = members ++ others := by
              rw [listedMembers_append one, lists.listedMembers_eq one, ih]
      | returnFeed =>
          have one' : '\n' ∉ line ++ ['\r'] := by simp [one]
          calc
            listedMembers (line ++ ['\r', '\n'] ++ rest) =
                listedMembers (line ++ ['\r'] ++ '\n' :: rest) := by
              simp only [List.append_assoc, List.cons_append, List.nil_append]
            _ = members ++ others := by
              rw [listedMembers_append one', listedMembers_return one, lists.listedMembers_eq one,
                ih]

/-- Every text lists something: its lines can be cut at the line feeds, and a carriage return before
    one is a blank like others. -/
theorem listing_listedMembers (text : List Char) : Listing text (listedMembers text) := by
  by_cases ends : '\n' ∈ text
  · obtain ⟨line, rest, parts, one⟩ := List.eq_append_cons_of_mem ends
    have later : Listing rest (listedMembers rest) := listing_listedMembers rest
    have whole := Listing.line one (listingLine_listedMembers one) .feed later
    rw [List.append_assoc, List.singleton_append, ← listedMembers_append one, ← parts] at whole
    exact whole
  · exact .last ends (listingLine_listedMembers ends)
termination_by text.length
decreasing_by
  rw [parts, List.length_append, List.length_cons]
  omega

theorem listedMembers_eq_iff : listedMembers text = members ↔ Listing text members := by
  constructor
  · intro found
    exact found ▸ listing_listedMembers text
  · intro listing
    exact listing.listedMembers_eq

/-! ## Files -/

/-- A file that lists some members is as good as the members themselves. -/
theorem Membership.bootstrap_of_file {read : String → Option (List UInt8)} {path : String}
    (found : (read path).bind membersOfFile? = some members) (fallback : String) (index : Nat) :
    bootstrap read fallback ⟨[], some path, index⟩ =
      bootstrap read fallback ⟨members, none, index⟩ := by
  have file : resolve read ⟨[], some path, index⟩ = .ok members := by
    simp only [resolve, found]
    rfl
  have given : resolve read ⟨members, none, index⟩ = .ok members := by
    cases members with
    | nil => rfl
    | cons first others => rfl
  rw [bootstrap, bootstrap, file, given]

/-- Reading the text of a file finds what the text lists and nothing else, whatever blanks, empty
    lines, comments and line ends there are in between. So a member that is configured with the file
    takes the place it has in the list. -/
theorem listed_members_are_read_in_order (text : List Char) (members : List String) :
    (membersOfFile? (Utf8.encode text) = some members ↔ Listing text members) ∧
    (Listing text members → ∀ (read : String → Option (List UInt8)) (path : String),
      read path = some (Utf8.encode text) → ∀ (fallback : String) (index : Nat),
        Membership.bootstrap read fallback ⟨[], some path, index⟩ =
          Membership.bootstrap read fallback ⟨members, none, index⟩) := by
  have found : membersOfFile? (Utf8.encode text) = some members ↔ Listing text members := by
    rw [membersOfFile?, Utf8.decode?_encode, Option.map_some, Option.some.injEq]
    exact listedMembers_eq_iff
  refine ⟨found, ?_⟩
  intro listing read path holds fallback index
  have readable : (read path).bind membersOfFile? = some members := by
    rw [holds, Option.bind_some]
    exact found.mpr listing
  exact Membership.bootstrap_of_file readable fallback index

/-- A list with comments before and between, an address with blanks around and inside, both line
    ends, and none at the last line. -/
def mixedList : List Char :=
  "# members\r\n\u2003http://a:5000 #1\t\r\n\n \r\n  #http://c:5002\nhttp://b:5001\r".toList

theorem listed_members_are_read_in_order_of_a_mixed_list :
    Listing mixedList ["http://a:5000 #1", "http://b:5001"] ∧
    Membership.bootstrap (fun _ => some (Utf8.encode mixedList)) "x" ⟨[], some "members", 1⟩ =
      .ok ⟨"http://b:5001", ["http://a:5000 #1"]⟩ := by
  obtain ⟨found, placed⟩ :=
    listed_members_are_read_in_order mixedList ["http://a:5000 #1", "http://b:5001"]
  have listing : Listing mixedList ["http://a:5000 #1", "http://b:5001"] :=
    found.mp (by decide +kernel)
  refine ⟨listing, ?_⟩
  rw [placed listing (fun _ => some (Utf8.encode mixedList)) "members" rfl "x" 1]
  rfl

end QuorumStore
