/-
  Documents read back from their text.

  What a layout writes for a value is read in front of any text that does not go on with it.  The
  reader drops the blanks itself, so a value is read behind any of them, and one proof serves both
  layouts.

    1. `reread` says what a value is read back as.  Only numbers and depth can change it: an integer
       outside of 64 bits becomes a floating-point number, an infinity becomes null, and a value that
       stands too deep is refused.
    2. Fuel is spent on characters.  Every bracket, every item and every member takes at least one
       character off the text, so a text shorter than the fuel is read to its end (`reads`, by
       induction on the fuel).
    3. The crux is where two texts meet.  A value never begins with a blank or a bracket that closes
       (`Opening`), and what stands behind it never goes on with a number (`stops_writtenItems`).

  Main statements: `parseWithin_written`, `parse_written_eq_self_iff`.
-/
import LibrarySpec.Proofs.Json.Numerals
import LibrarySpec.Proofs.Json.Strings

namespace LibrarySpec.Json

variable {c : Char} {blank rest more text : List Char}

/-! ## Blanks -/

/-- Blanks in front of a text are dropped. -/
theorem skipSpaces_append (spaces : ∀ c ∈ blank, isSpace c = true) (text : List Char) :
    skipSpaces (blank ++ text) = skipSpaces text :=
  List.dropWhile_append_of_pos spaces

theorem skipSpaces_cons (visible : isSpace c = false) : skipSpaces (c :: more) = c :: more :=
  List.dropWhile_cons_of_neg (by simp [visible])

/-- A text that begins with neither a blank nor the bracket that closes an array. -/
def Opening (text : List Char) : Prop :=
  ∃ c more, text = c :: more ∧ isSpace c = false ∧ c ≠ ']'

theorem Opening.skipSpaces (opening : Opening text) (rest : List Char) :
    skipSpaces (text ++ rest) = text ++ rest := by
  obtain ⟨c, more, rfl, visible, _⟩ := opening
  exact skipSpaces_cons visible

/-- A blank neither begins a number nor goes on with one. -/
theorem goesOn_of_isSpace (space : isSpace c = true) : goesOn c = false ∧ c ≠ '-' := by
  simp only [isSpace, Bool.or_eq_true, beq_iff_eq] at space
  rcases space with ((rfl | rfl) | rfl) | rfl <;> decide

/-- Neither a blank nor a closing bracket begins a number. -/
theorem Numeral.opening (numeral : Numeral text) : Opening text := by
  obtain ⟨c, more, rfl, head⟩ := numeral
  refine ⟨c, more, rfl, ?_, ?_⟩
  · rw [Bool.eq_false_iff]
    intro space
    obtain ⟨stop, minus⟩ := goesOn_of_isSpace space
    rcases head with rfl | digit
    · exact minus rfl
    · simp [goesOn, digit] at stop
  · rintro rfl
    simp at head

/-- A number is not mistaken for another value. -/
theorem valueWithin?_number {fuel depth : Nat} (numeral : Numeral text) (rest : List Char) :
    valueWithin? (fuel + 1) depth (text ++ rest) = number? (text ++ rest) := by
  rw [valueWithin?, numeral.opening.skipSpaces]
  obtain ⟨c, more, rfl, head⟩ := numeral
  have other : ∀ d, d ≠ '-' → d.isDigit = false → c ≠ d := by
    rintro d minus digit rfl
    simp [minus, digit] at head
  split
  -- every other value begins with a letter, a quote or a bracket
  all_goals first
    | rfl
    | (rename_i h; exact absurd (List.cons.inj h).1 (other _ (by decide) (by decide)))

/-! ## What is read back -/

mutual

/-- What the text of a value is read as, at most `depth` brackets deep. -/
def reread : (depth : Nat) → Json → Option Json
  | _, null => some null
  | _, bool value => some (bool value)
  | _, integer value => integerOf? (value < 0) (Nat.toDigits 10 value.natAbs)
  | _, float value =>
    if value.isInfinite then some null else (number? (floatText value).toList).map Prod.fst
  | _, string value => some (string value)
  | 0, array _ => none
  | depth + 1, array items => (rereadItems depth items).map array
  | 0, object _ => none
  | depth + 1, object members => (rereadMembers depth members).map object

/-- What the texts of the items are read as. -/
def rereadItems (depth : Nat) : List Json → Option (List Json)
  | [] => some []
  | item :: items => do return (← reread depth item) :: (← rereadItems depth items)

/-- What the texts of the members are read as. -/
def rereadMembers (depth : Nat) : List (String × Json) → Option (List (String × Json))
  | [] => some []
  | (name, value) :: members => do
    return (name, ← reread depth value) :: (← rereadMembers depth members)

end

/-! ## Where two texts meet -/

section

variable (layout : Layout) (level : Nat)

/-- A value never begins with a blank or a bracket that closes. -/
theorem opening_written (json : Json) : Opening (written layout level json) := by
  cases json with
  | null => exact ⟨'n', _, rfl, by decide⟩
  | bool value =>
    cases value with
    | true => exact ⟨'t', _, rfl, by decide⟩
    | false => exact ⟨'f', _, rfl, by decide⟩
  | integer value =>
    rw [written]
    exact (numeral_integer value).opening
  | float value =>
    rw [written]
    cases finite : value.isInfinite with
    | false =>
      obtain ⟨_, _, _, _, numeral, _⟩ := exists_parts finite
      exact numeral.opening
    | true =>
      rw [floatText, if_pos finite]
      exact ⟨'n', _, rfl, by decide⟩
  | string value =>
    rw [written]
    exact ⟨'"', _, rfl, by decide⟩
  | array items =>
    cases items with
    | nil => exact ⟨'[', _, rfl, by decide⟩
    | cons item items =>
      rw [written]
      exact ⟨'[', _, rfl, by decide⟩
  | object members =>
    cases members with
    | nil => exact ⟨'\x7b', _, rfl, by decide⟩
    | cons member members =>
      rw [written]
      exact ⟨'\x7b', _, rfl, by decide⟩

/-- No blank goes on with a number. -/
theorem stops_blank (spaces : ∀ c ∈ blank, isSpace c = true) (stop : goesOn c = false)
    (more : List Char) : Stops (blank ++ c :: more) := by
  cases blank with
  | nil =>
    rintro _ ⟨⟩
    exact stop
  | cons b blank =>
    rintro _ ⟨⟩
    exact (goesOn_of_isSpace (spaces b List.mem_cons_self)).1

theorem stops_writtenItems (items : List Json) (rest : List Char) :
    Stops (writtenItems layout level items ++ rest) := by
  cases items with
  | nil =>
    rw [writtenItems, List.append_assoc]
    exact stops_blank (layout.blank_margin level) rfl rest
  | cons item items =>
    rw [writtenItems]
    rintro _ ⟨⟩
    rfl

theorem stops_writtenMembers (members : List (String × Json)) (rest : List Char) :
    Stops (writtenMembers layout level members ++ rest) := by
  cases members with
  | nil =>
    rw [writtenMembers, List.append_assoc]
    exact stops_blank (layout.blank_margin level) rfl rest
  | cons member members =>
    rw [writtenMembers]
    rintro _ ⟨⟩
    rfl

end

/-! ## One step of the reader -/

variable {layout : Layout} {level fuel depth : Nat}

theorem valueWithin?_blank (spaces : ∀ c ∈ blank, isSpace c = true) (text : List Char) :
    valueWithin? fuel depth (blank ++ text) = valueWithin? fuel depth text := by
  cases fuel with
  | zero => rfl
  | succ fuel => rw [valueWithin?, valueWithin?, skipSpaces_append spaces]

theorem itemsWithin?_blank (spaces : ∀ c ∈ blank, isSpace c = true) (text : List Char) :
    itemsWithin? fuel depth (blank ++ text) = itemsWithin? fuel depth text := by
  cases fuel with
  | zero => rfl
  | succ fuel => rw [itemsWithin?, itemsWithin?, valueWithin?_blank spaces]

theorem membersWithin?_blank (spaces : ∀ c ∈ blank, isSpace c = true) (text : List Char) :
    membersWithin? fuel depth (blank ++ text) = membersWithin? fuel depth text := by
  cases fuel with
  | zero => rfl
  | succ fuel => rw [membersWithin?, membersWithin?, skipSpaces_append spaces]

/-- An array with items in it. -/
theorem valueWithin?_array (spaces : ∀ c ∈ blank, isSpace c = true) (opening : Opening text)
    (rest : List Char) :
    valueWithin? (fuel + 1) (depth + 1) ('[' :: (blank ++ (text ++ rest)))
      = (itemsWithin? fuel depth (text ++ rest)).map fun read => (.array read.1, read.2) := by
  have first : skipSpaces (blank ++ (text ++ rest)) = text ++ rest := by
    rw [skipSpaces_append spaces, opening.skipSpaces]
  obtain ⟨c, more, rfl, _, other⟩ := opening
  rw [valueWithin?, skipSpaces_cons rfl]
  simp only [first]
  split
  · rename_i h
    exact absurd (List.cons.inj h).1 other
  · rfl

/-- An object with members in it. -/
theorem valueWithin?_object (spaces : ∀ c ∈ blank, isSpace c = true) (text : List Char) :
    valueWithin? (fuel + 1) (depth + 1) ('\x7b' :: (blank ++ '"' :: text))
      = (membersWithin? fuel depth ('"' :: text)).map fun read => (.object read.1, read.2) := by
  have first : skipSpaces (blank ++ '"' :: text) = '"' :: text := by
    rw [skipSpaces_append spaces, skipSpaces_cons rfl]
  rw [valueWithin?, skipSpaces_cons rfl]
  simp only [first]
  rfl

section

variable {item value : Json} {name : String} {after : List Char}

theorem itemsWithin?_none (read : valueWithin? fuel depth text = none) :
    itemsWithin? (fuel + 1) depth text = none := by
  simp [itemsWithin?, read]

theorem itemsWithin?_last (read : valueWithin? fuel depth text = some (item, rest))
    (stop : skipSpaces rest = ']' :: after) :
    itemsWithin? (fuel + 1) depth text = some ([item], after) := by
  simp [itemsWithin?, read, stop]

theorem itemsWithin?_more (read : valueWithin? fuel depth text = some (item, rest))
    (comma : skipSpaces rest = ',' :: after) :
    itemsWithin? (fuel + 1) depth text
      = (itemsWithin? fuel depth after).map fun others => (item :: others.1, others.2) := by
  cases found : itemsWithin? fuel depth after with
  | none => simp [itemsWithin?, read, comma, found]
  | some others => simp [itemsWithin?, read, comma, found]

theorem membersWithin?_none (named : quotedWithin? fuel text = some (name, ':' :: rest))
    (read : valueWithin? fuel depth rest = none) :
    membersWithin? (fuel + 1) depth ('"' :: text) = none := by
  simp [membersWithin?, skipSpaces_cons, isSpace, named, read]

theorem membersWithin?_last (named : quotedWithin? fuel text = some (name, ':' :: rest))
    (read : valueWithin? fuel depth rest = some (value, more))
    (stop : skipSpaces more = '\x7d' :: after) :
    membersWithin? (fuel + 1) depth ('"' :: text) = some ([(name, value)], after) := by
  simp [membersWithin?, skipSpaces_cons, isSpace, named, read, stop]

theorem membersWithin?_more (named : quotedWithin? fuel text = some (name, ':' :: rest))
    (read : valueWithin? fuel depth rest = some (value, more))
    (comma : skipSpaces more = ',' :: after) :
    membersWithin? (fuel + 1) depth ('"' :: text)
      = (membersWithin? fuel depth after).map fun others => ((name, value) :: others.1, others.2) := by
  cases found : membersWithin? fuel depth after with
  | none => simp [membersWithin?, skipSpaces_cons, isSpace, named, read, comma, found]
  | some others => simp [membersWithin?, skipSpaces_cons, isSpace, named, read, comma, found]

end

/-- What reading with so much fuel makes of the texts that are shorter. -/
structure Reads (layout : Layout) (fuel : Nat) : Prop where
  value : ∀ {level depth : Nat} {json : Json} {rest : List Char}, Stops rest →
    (written layout level json).length < fuel →
    valueWithin? fuel depth (written layout level json ++ rest) = (reread depth json).map (·, rest)
  items : ∀ {level depth : Nat} {item : Json} {items : List Json} {rest : List Char},
    (written layout (level + 1) item).length + (writtenItems layout level items).length < fuel →
    itemsWithin? fuel depth (written layout (level + 1) item
        ++ (writtenItems layout level items ++ rest))
      = (rereadItems depth (item :: items)).map (·, rest)
  members : ∀ {level depth : Nat} {name : String} {value : Json} {members : List (String × Json)}
      {rest : List Char},
    (quoted name).length + (written layout (level + 1) value).length
      + (writtenMembers layout level members).length < fuel →
    membersWithin? fuel depth (quoted name ++ ':' :: (layout.gap
        ++ (written layout (level + 1) value ++ (writtenMembers layout level members ++ rest))))
      = (rereadMembers depth ((name, value) :: members)).map (·, rest)

/-- One more unit of fuel for the items. -/
theorem Reads.items_succ (ih : Reads layout fuel) {item : Json} {items : List Json}
    (enough : (written layout (level + 1) item).length + (writtenItems layout level items).length
      < fuel + 1) :
    itemsWithin? (fuel + 1) depth (written layout (level + 1) item
        ++ (writtenItems layout level items ++ rest))
      = (rereadItems depth (item :: items)).map (·, rest) := by
  have behind : 0 < (writtenItems layout level items).length := by
    cases items with
    | nil => simp [writtenItems]
    | cons next more => simp [writtenItems]
  have first := @ih.value (level + 1) depth item _ (stops_writtenItems layout level items rest)
    (by omega)
  rw [rereadItems]
  cases known : reread depth item with
  | none =>
    rw [known] at first
    exact itemsWithin?_none first
  | some read =>
    rw [known] at first
    cases items with
    | nil =>
      have stop : skipSpaces (writtenItems layout level [] ++ rest) = ']' :: rest := by
        rw [writtenItems, List.append_assoc, skipSpaces_append (layout.blank_margin level)]
        rfl
      exact itemsWithin?_last first stop
    | cons next more =>
      rw [writtenItems] at enough
      simp only [List.length_cons, List.length_append] at enough
      have comma : skipSpaces (writtenItems layout level (next :: more) ++ rest)
          = ',' :: (layout.margin (level + 1) ++ (written layout (level + 1) next
            ++ (writtenItems layout level more ++ rest))) := by
        rw [writtenItems, List.cons_append, List.append_assoc, List.append_assoc,
          skipSpaces_cons rfl]
      rw [itemsWithin?_more first comma, itemsWithin?_blank (layout.blank_margin _),
        ih.items (by omega)]
      cases rereadItems depth (next :: more) with
      | none => rfl
      | some others => rfl

/-- One more unit of fuel for the members. -/
theorem Reads.members_succ (ih : Reads layout fuel) {name : String} {value : Json}
    {members : List (String × Json)}
    (enough : (quoted name).length + (written layout (level + 1) value).length
      + (writtenMembers layout level members).length < fuel + 1) :
    membersWithin? (fuel + 1) depth (quoted name ++ ':' :: (layout.gap
        ++ (written layout (level + 1) value ++ (writtenMembers layout level members ++ rest))))
      = (rereadMembers depth ((name, value) :: members)).map (·, rest) := by
  have marks : 2 ≤ (quoted name).length := by simp [quoted]
  have behind : 0 < (writtenMembers layout level members).length := by
    cases members with
    | nil => simp [writtenMembers]
    | cons next more => simp [writtenMembers]
  have named := @quotedWithin?_escaped name fuel (by omega) (':' :: (layout.gap
    ++ (written layout (level + 1) value ++ (writtenMembers layout level members ++ rest))))
  have first := @ih.value (level + 1) depth value _
    (stops_writtenMembers layout level members rest) (by omega)
  rw [← valueWithin?_blank layout.blank_gap] at first
  rw [quoted_append, rereadMembers]
  cases known : reread depth value with
  | none =>
    rw [known] at first
    exact membersWithin?_none named first
  | some read =>
    rw [known] at first
    cases members with
    | nil =>
      have stop : skipSpaces (writtenMembers layout level [] ++ rest) = '\x7d' :: rest := by
        rw [writtenMembers, List.append_assoc, skipSpaces_append (layout.blank_margin level)]
        rfl
      exact membersWithin?_last named first stop
    | cons next more =>
      obtain ⟨key, other⟩ := next
      rw [writtenMembers] at enough
      simp only [List.length_cons, List.length_append] at enough
      have comma : skipSpaces (writtenMembers layout level ((key, other) :: more) ++ rest)
          = ',' :: (layout.margin (level + 1) ++ (quoted key ++ ':' :: (layout.gap
            ++ (written layout (level + 1) other
              ++ (writtenMembers layout level more ++ rest))))) := by
        simp only [writtenMembers, List.cons_append, List.append_assoc]
        rw [skipSpaces_cons rfl]
      rw [membersWithin?_more named first comma, membersWithin?_blank (layout.blank_margin _),
        ih.members (by omega)]
      cases rereadMembers depth ((key, other) :: more) with
      | none => rfl
      | some others => rfl

/-- A floating-point number, or null for an infinity. -/
theorem valueWithin?_float (x : Binary64) (stops : Stops rest) :
    valueWithin? (fuel + 1) depth ((floatText x).toList ++ rest)
      = (reread depth (.float x)).map (·, rest) := by
  rw [reread]
  cases infinite : x.isInfinite with
  | true =>
    rw [floatText, if_pos infinite, valueWithin?]
    rfl
  | false =>
    obtain ⟨_, _, _, _, numeral, read⟩ := exists_parts infinite
    have alone := read [] (fun _ h => by cases h)
    rw [List.append_nil] at alone
    rw [if_neg Bool.false_ne_true, valueWithin?_number numeral, read rest stops, alone,
      Option.map_map, Option.map_map]
    rfl

/-- One more unit of fuel for a value. -/
theorem Reads.value_succ (ih : Reads layout fuel) {json : Json} (stops : Stops rest)
    (enough : (written layout level json).length < fuel + 1) :
    valueWithin? (fuel + 1) depth (written layout level json ++ rest)
      = (reread depth json).map (·, rest) := by
  match json with
  | .null => rfl
  | .bool true => rfl
  | .bool false => rfl
  | .integer value =>
    rw [written, valueWithin?_number (numeral_integer value), number?_integer value stops]
    rfl
  | .float value =>
    rw [written]
    exact valueWithin?_float value stops
  | .string value =>
    rw [written] at enough ⊢
    rw [valueWithin?, quoted_append, skipSpaces_cons rfl]
    show Option.map _ (quotedWithin? fuel _) = _
    rw [quotedWithin?_escaped (by omega)]
    rfl
  | .array [] =>
    cases depth with
    | zero => rfl
    | succ depth => rfl
  | .array (item :: items) =>
    rw [written] at enough ⊢
    simp only [List.length_cons, List.length_append] at enough
    cases depth with
    | zero => rfl
    | succ depth =>
      rw [List.cons_append, List.append_assoc, List.append_assoc,
        valueWithin?_array (layout.blank_margin _) (opening_written layout _ item),
        ih.items (by omega), reread, Option.map_map, Option.map_map]
      rfl
  | .object [] =>
    cases depth with
    | zero => rfl
    | succ depth => rfl
  | .object ((name, value) :: members) =>
    rw [written] at enough ⊢
    simp only [List.length_cons, List.length_append] at enough
    cases depth with
    | zero => rfl
    | succ depth =>
      simp only [List.cons_append, List.append_assoc]
      rw [quoted_append, valueWithin?_object (layout.blank_margin _), ← quoted_append,
        ih.members (by omega), reread, Option.map_map, Option.map_map]
      rfl

/-- Texts shorter than the fuel are read to their end. -/
theorem reads (layout : Layout) (fuel : Nat) : Reads layout fuel := by
  induction fuel with
  | zero =>
    constructor
    · intro _ _ _ _ _ enough
      omega
    · intro _ _ _ _ _ enough
      omega
    · intro _ _ _ _ _ _ enough
      omega
  | succ fuel ih => exact ⟨ih.value_succ, ih.items_succ, ih.members_succ⟩

/-! ## Whole documents -/

/-- What a layout writes for a value is read as `reread` says. -/
theorem parseWithin_written (layout : Layout) (depth : Nat) (json : Json) :
    parseWithin depth (String.ofList (written layout 0 json)) = reread depth json := by
  have nothing : Stops [] := fun _ h => by cases h
  have read := @Reads.value _ _ (reads layout _) 0 depth json [] nothing (Nat.lt_succ_self _)
  rw [List.append_nil] at read
  rw [parseWithin, String.toList_ofList, read]
  cases reread depth json with
  | none => rfl
  | some value => rfl

mutual

/-- How many brackets stand inside each other. -/
def nesting : Json → Nat
  | array items => nestingItems items + 1
  | object members => nestingMembers members + 1
  | _ => 0

/-- How many brackets stand inside each other in the items. -/
def nestingItems : List Json → Nat
  | [] => 0
  | item :: items => max (nesting item) (nestingItems items)

/-- How many brackets stand inside each other in the members. -/
def nestingMembers : List (String × Json) → Nat
  | [] => 0
  | (_, value) :: members => max (nesting value) (nestingMembers members)

end

mutual

/-- Every number in the value is one that its text stands for: an integer within 64 bits, or a
    floating-point number that is read back. -/
def Faithful : Json → Prop
  | integer value => Int64.minValue.toInt ≤ value ∧ value < UInt64.size
  | float value => value.Rereads
  | array items => FaithfulItems items
  | object members => FaithfulMembers members
  | _ => True

/-- Every number in the items is one that its text stands for. -/
def FaithfulItems : List Json → Prop
  | [] => True
  | item :: items => Faithful item ∧ FaithfulItems items

/-- Every number in the members is one that its text stands for. -/
def FaithfulMembers : List (String × Json) → Prop
  | [] => True
  | (_, value) :: members => Faithful value ∧ FaithfulMembers members

end

/-- An infinity is not read back, and what is read of a finite number is read to the end. -/
theorem reread_float_iff {depth : Nat} {x : Binary64} :
    reread depth (.float x) = some (.float x) ↔ x.Rereads := by
  rw [reread, Binary64.Rereads]
  cases infinite : x.isInfinite with
  | true =>
    have text : number? (floatText x).toList = none := by
      rw [floatText, if_pos infinite]
      rfl
    rw [text, if_pos rfl]
    simp
  | false =>
    obtain ⟨_, _, _, _, _, read⟩ := exists_parts infinite
    have alone := read [] (fun _ h => by cases h)
    rw [List.append_nil] at alone
    rw [alone, if_neg Bool.false_ne_true]
    simp

mutual

/-- A value is read back exactly if it is not too deep and its numbers stand for themselves. -/
theorem reread_eq_self_iff {depth : Nat} :
    ∀ {json : Json}, reread depth json = some json ↔ nesting json ≤ depth ∧ Faithful json
  | .null => by simp [reread, nesting, Faithful]
  | .bool _ => by simp [reread, nesting, Faithful]
  | .string _ => by simp [reread, nesting, Faithful]
  | .integer value => by
    rw [reread, integerOf?_toDigits]
    simp [nesting, Faithful]
  | .float x => by
    rw [reread_float_iff]
    simp [nesting, Faithful]
  | .array items => by
    cases depth with
    | zero => simp [reread, nesting]
    | succ depth => simp [reread, nesting, Faithful, rereadItems_eq_self_iff]
  | .object members => by
    cases depth with
    | zero => simp [reread, nesting]
    | succ depth => simp [reread, nesting, Faithful, rereadMembers_eq_self_iff]

theorem rereadItems_eq_self_iff {depth : Nat} :
    ∀ {items : List Json}, rereadItems depth items = some items
      ↔ nestingItems items ≤ depth ∧ FaithfulItems items
  | [] => by simp [rereadItems, nestingItems, FaithfulItems]
  | item :: items => by
    rw [nestingItems, FaithfulItems, Nat.max_le, and_and_and_comm, ← reread_eq_self_iff,
      ← rereadItems_eq_self_iff, rereadItems]
    simp [Option.bind_eq_some_iff]

theorem rereadMembers_eq_self_iff {depth : Nat} :
    ∀ {members : List (String × Json)}, rereadMembers depth members = some members
      ↔ nestingMembers members ≤ depth ∧ FaithfulMembers members
  | [] => by simp [rereadMembers, nestingMembers, FaithfulMembers]
  | (name, value) :: members => by
    rw [nestingMembers, FaithfulMembers, Nat.max_le, and_and_and_comm, ← reread_eq_self_iff,
      ← rereadMembers_eq_self_iff, rereadMembers]
    simp [Option.bind_eq_some_iff]

end

/-- A document is read back from its text, in either layout, exactly if it is not too deep and its
    numbers stand for themselves. -/
theorem parse_written_eq_self_iff (layout : Layout) {json : Json} :
    parse (String.ofList (written layout 0 json)) = some json
      ↔ nesting json ≤ deepest ∧ Faithful json := by
  rw [parse, parseWithin_written, reread_eq_self_iff]

/-- A document with an escaped text, an empty array and one tenth in it. -/
example :
    let tenth := Json.float (.ofQuotient false 1 10)
    let document := object [("name", string "a\"\n"), ("scales", array [tenth, array []])]
    parse document.pretty = some document := by
  have tenth : Faithful (float (.ofQuotient false 1 10)) :=
    Binary64.IsShort.rereads (by decide +kernel)
  exact (parse_written_eq_self_iff .pretty).2 ⟨by decide, trivial, ⟨tenth, trivial, trivial⟩, trivial⟩

end LibrarySpec.Json
