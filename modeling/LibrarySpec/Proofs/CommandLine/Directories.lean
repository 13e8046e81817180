/-
  What reading and writing mean for a directory.

    1. `Holds`: a file is there, may be read, and its bytes are the UTF-8 of a text.  That is when
       `read` answers the text (`read_eq_ok_iff`).
    2. `resolve_write`: after a write every path leads to what it led to before, but the files at the
       place of the path written have the new content.
    3. `Rewritten`: so one file is changed, in its content alone.
-/
import LibrarySpec.CommandLine.Directory

namespace LibrarySpec

namespace Entry

/-- The entry with another content, if it is a file. -/
def withContent (content : List UInt8) : Entry → Entry
  | .folder => .folder
  | .file _ readable writable => .file content readable writable

end Entry

namespace Directory

/-! ## Reading -/

/-- A file is there, may be read, and has the text as its content. -/
def Holds (directory : Directory) (file text : String) : Prop :=
  ∃ content writable, directory.resolve file = .ok (.file content true writable)
    ∧ Text.Utf8.decode content = .ok text.toList

/-- A file that may be read has its bytes decoded. -/
theorem read_of_file {directory : Directory} {file : String} {content : List UInt8}
    {writable : Bool} (found : directory.resolve file = .ok (.file content true writable)) :
    directory.read file =
      match Text.Utf8.decode content with
      | .ok text => .ok (String.ofList text)
      | .error _ => .error .notText := by
  unfold read
  rw [found]
  rfl

theorem read_eq_ok_iff {directory : Directory} {file text : String} :
    directory.read file = .ok text ↔ directory.Holds file text := by
  constructor
  · intro h
    cases found : directory.resolve file with
    | error fault =>
      unfold read at h
      rw [found] at h
      cases h
    | ok entry =>
      cases entry with
      | folder =>
        unfold read at h
        rw [found] at h
        cases h
      | file content readable writable =>
        cases readable with
        | false =>
          unfold read at h
          rw [found] at h
          cases h
        | true =>
          rw [read_of_file found] at h
          cases decoded : Text.Utf8.decode content with
          | error fault =>
            rw [decoded] at h
            cases h
          | ok chars =>
            rw [decoded] at h
            cases h
            exact ⟨content, writable, found, by rw [decoded, String.toList_ofList]⟩
  · rintro ⟨content, writable, found, decoded⟩
    rw [read_of_file found, decoded]
    exact congrArg Except.ok String.ofList_toList

/-- A file holds one text. -/
theorem Holds.unique {directory : Directory} {file text text' : String}
    (h : directory.Holds file text) (h' : directory.Holds file text') : text = text' := by
  have same := (read_eq_ok_iff.2 h).symm.trans (read_eq_ok_iff.2 h')
  exact Except.ok.inj same

/-! ## Writing -/

section Write

variable (directory : Directory) (path text : String)

/-- What a write makes of an entry at a place. -/
def overwritten (place : Place) (entry : Entry) : Entry :=
  if place = Place.ofPath path then entry.withContent text.toUTF8.toList else entry

@[simp] theorem overwritten_folder (place : Place) :
    overwritten path text place .folder = .folder := by
  unfold overwritten
  split <;> rfl

/-- A file stays a file. -/
theorem exists_overwritten_file (place : Place) (content : List UInt8) (readable writable : Bool) :
    ∃ content', overwritten path text place (.file content readable writable)
      = .file content' readable writable := by
  unfold overwritten
  split
  · exact ⟨_, rfl⟩
  · exact ⟨_, rfl⟩

/-- A write goes through the entries one by one. -/
theorem entries_write :
    (directory.write path text).entries
      = directory.entries.map fun e => (e.1, overwritten path text (Place.ofPath e.1) e.2) := by
  refine List.map_congr_left fun e _ => ?_
  obtain ⟨name, entry⟩ := e
  cases entry with
  | folder => simp
  | file content readable writable =>
    by_cases here : Place.ofPath name = Place.ofPath path
    · simp only [overwritten, if_pos here, Entry.withContent]
    · simp only [overwritten, if_neg here]

theorem entryAt?_write (place : Place) :
    (directory.write path text).entryAt? place
      = (directory.entryAt? place).map (overwritten path text place) := by
  unfold entryAt?
  rw [entries_write, List.find?_map, List.any_map]
  have sameName : ((fun e : String × Entry => decide (Place.ofPath e.1 = place)) ∘
      fun e : String × Entry => (e.1, overwritten path text (Place.ofPath e.1) e.2))
      = fun e => decide (Place.ofPath e.1 = place) := rfl
  have sameInside : ((fun e : String × Entry => (Place.ofPath e.1).isInside place) ∘
      fun e : String × Entry => (e.1, overwritten path text (Place.ofPath e.1) e.2))
      = fun e => (Place.ofPath e.1).isInside place := rfl
  rw [sameName, sameInside]
  cases found : directory.entries.find? fun e => decide (Place.ofPath e.1 = place) with
  | some e =>
    have here : Place.ofPath e.1 = place := by simpa using List.find?_some found
    simp only [Option.map_some, here]
  | none =>
    simp only [Option.map_none]
    split
    · simp
    · rfl

/-- Every path is followed as before. -/
theorem follow_write (place : Place) (parts : List String) :
    (directory.write path text).follow place parts
      = (directory.follow place parts).map
          (overwritten path text (parts.foldl Place.enter place)) := by
  induction parts generalizing place with
  | nil =>
    rw [follow, follow, entryAt?_write]
    cases directory.entryAt? place <;> rfl
  | cons part rest ih =>
    rw [follow, follow, entryAt?_write]
    cases directory.entryAt? place with
    | none => rfl
    | some entry =>
      cases entry with
      | folder =>
        simp only [Option.map_some, overwritten_folder]
        split
        · rw [ih, List.foldl_cons]
        · rfl
      | file content readable writable =>
        obtain ⟨content', stays⟩ := exists_overwritten_file path text place content readable writable
        simp only [Option.map_some, stays]
        rfl

theorem lookup_map (f : String → Entry → Entry) (entries : List (String × Entry)) (name : String) :
    (entries.map fun e => (e.1, f e.1 e.2)).lookup name = (entries.lookup name).map (f name) := by
  induction entries with
  | nil => rfl
  | cons e entries ih =>
    rw [List.map_cons, List.lookup_cons, List.lookup_cons, ih]
    cases same : name == e.1 with
    | true =>
      rw [eq_of_beq same]
      rfl
    | false => rfl

/-- After a write a path leads to what it led to before, but for the content of the file written. -/
theorem resolve_write (other : String) :
    (directory.write path text).resolve other
      = (directory.resolve other).map (overwritten path text (Place.ofPath other)) := by
  unfold resolve
  rw [entries_write, lookup_map fun name => overwritten path text (Place.ofPath name)]
  cases directory.entries.lookup other with
  | some entry => rfl
  | none =>
    simp only [Option.map_none]
    split
    · exact follow_write directory path text _ _
    · rfl

end Write

/-- One file is rewritten: its content is the text, and everything else is as it was. -/
structure Rewritten (before after : Directory) (file text : String) : Prop where
  /-- No file comes or goes. -/
  names : after.entries.map (·.1) = before.entries.map (·.1)
  /-- Where the file is not, nothing is changed. -/
  elsewhere : ∀ path, Place.ofPath path ≠ Place.ofPath file →
    after.resolve path = before.resolve path
  /-- The file has the text, and may be read and written as before. -/
  here : ∃ content readable writable, before.resolve file = .ok (.file content readable writable)
    ∧ after.resolve file = .ok (.file text.toUTF8.toList readable writable)

theorem accepts_eq_true {directory : Directory} {file : String} (h : directory.accepts file = true) :
    ∃ content readable, directory.resolve file = .ok (.file content readable true) := by
  unfold accepts at h
  split at h
  · rename_i content readable writable found
    subst h
    exact ⟨content, readable, found⟩
  · cases h

/-- Writing to a file that takes it rewrites the file. -/
theorem rewritten_write {directory : Directory} {file : String} (text : String)
    (h : directory.accepts file = true) :
    Rewritten directory (directory.write file text) file text := by
  obtain ⟨content, readable, found⟩ := accepts_eq_true h
  refine ⟨?_, fun path away => ?_, content, readable, true, found, ?_⟩
  · rw [entries_write, List.map_map]
    rfl
  · have same : overwritten file text (Place.ofPath path) = id := by
      funext entry
      exact if_neg away
    rw [resolve_write, same]
    cases directory.resolve path <;> rfl
  · rw [resolve_write, found]
    simp [Except.map, overwritten, Entry.withContent]

end Directory
end LibrarySpec
