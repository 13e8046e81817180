/-
  Gaps between tokens.

  A gap is a run of blank characters, line comments and block comments.  A line comment runs up to
  the end of its line, the line feed itself being blank; a block comment runs up to the first
  closing mark after its opening.

  `Gap.split` takes the longest gap off the start of a text.  A block comment that never closes is
  no part of a gap, so the text after a gap begins with such a comment, begins with a token, or is
  empty.
-/
import LibrarySpec.Text.Blank

namespace LibrarySpec.Gap

open Text (isBlank)

/-- The inside of a block comment up to and with its closing mark, and the text after it. -/
def closing? : List Char → Option (List Char × List Char)
  | '*' :: '/' :: rest => some (['*', '/'], rest)
  | c :: rest => (closing? rest).map fun (inside, after) => (c :: inside, after)
  | [] => none

/-- The comment at the start of a text, and the text after it. -/
def comment? : List Char → Option (List Char × List Char)
  | '/' :: '/' :: rest =>
    some ('/' :: '/' :: rest.takeWhile (· != '\n'), rest.dropWhile (· != '\n'))
  | '/' :: '*' :: rest =>
    (closing? rest).map fun (inside, after) => ('/' :: '*' :: inside, after)
  | _ => none

theorem append_of_closing? {text inside after : List Char}
    (h : closing? text = some (inside, after)) : inside ++ after = text := by
  fun_induction closing? text generalizing inside with
  | case1 rest => cases h; rfl
  | case2 c rest _ ih =>
    obtain ⟨⟨i, a⟩, hi, h⟩ := Option.map_eq_some_iff.1 h
    cases h
    simp [ih hi]
  | case3 => cases h

/-- A comment and the text after it make up the text; a comment has at least two characters. -/
theorem append_of_comment? {text inside after : List Char}
    (h : comment? text = some (inside, after)) : inside ++ after = text ∧ inside ≠ [] := by
  unfold comment? at h
  split at h
  · cases h
    simp
  · obtain ⟨⟨i, a⟩, hi, h⟩ := Option.map_eq_some_iff.1 h
    cases h
    simp [append_of_closing? hi]
  · cases h

/-- What follows a comment is shorter than what the comment started. -/
theorem length_of_comment? {text inside after : List Char}
    (h : comment? text = some (inside, after)) : after.length < text.length := by
  obtain ⟨rfl, nonempty⟩ := append_of_comment? h
  have := List.length_pos_iff.2 nonempty
  rw [List.length_append]
  omega

/-- The longest gap at the start of a text, and the text after it. -/
def split : List Char → List Char × List Char
  | [] => ([], [])
  | c :: rest =>
    if isBlank c then
      let (gap, after) := split rest
      (c :: gap, after)
    else
      match h : comment? (c :: rest) with
      | none => ([], c :: rest)
      | some (inside, after) =>
        have := length_of_comment? h
        let (gap, after) := split after
        (inside ++ gap, after)
termination_by text => text.length
decreasing_by
  · exact Nat.lt_succ_self rest.length
  · assumption

/-- The gap and the text after it make up the text. -/
theorem append_split (text : List Char) : (split text).1 ++ (split text).2 = text := by
  fun_induction split text with
  | case1 => rfl
  | case2 c rest _ gap after h ih => simpa [h] using ih
  | case3 => rfl
  | case4 c rest _ inside after h _ gap after' h' ih =>
    simp only [h'] at ih
    rw [List.append_assoc, ih, (append_of_comment? h).1]

end LibrarySpec.Gap
