/-
  Records read back.

  An object holds its members by name, and a reader that asks for a name finds the value that was
  written under it.  What is said here of objects, arrays and optional parts is tagged for `simp`,
  which then reads a whole record part by part.
-/
import LibrarySpec.Json.Record

namespace LibrarySpec.Json

/-! ## Leaves -/

@[simp] theorem string?_string (text : String) : string? (string text) = some text := rfl

@[simp] theorem bool?_bool (value : Bool) : bool? (bool value) = some value := rfl

/-! ## Objects -/

@[simp] theorem lookup_nil (name : String) : lookup name [] = none := rfl

/-- The last member of a name counts.  Names are compared as Booleans, which `simp` decides. -/
@[simp] theorem lookup_cons (name key : String) (value : Json) (rest : List (String × Json)) :
    lookup name ((key, value) :: rest)
      = (lookup name rest).or (bif key == name then some value else none) := by
  rw [lookup]
  cases lookup name rest with
  | some later => rfl
  | none =>
    show (if key = name then some value else none) = bif key == name then some value else none
    rw [Bool.cond_eq_ite]
    simp only [beq_iff_eq]

@[simp] theorem record?_object (members : List (String × Json)) (names : List String) :
    (object members).record? names = some ⟨members, fun _ => sizeOf_member_lt⟩ := rfl

@[simp] theorem tag?_object (members : List (String × Json)) (name : String) :
    (object members).tag? name = lookup name members := rfl

section Record

variable {α : Type} {json : Json} (record : Record json) (name : String) (read : Json → Option α)

@[simp] theorem field?_eq : record.field? name read = (lookup name record.members).bind read := rfl

@[simp] theorem optionalField?_eq :
    record.optionalField? name read = optional? read (lookup name record.members) := rfl

@[simp] theorem unattach_member? : (record.member? name).unattach = lookup name record.members := by
  unfold Record.member?
  split <;> simp [*]

end Record

@[simp] theorem only?_object {α : Type} (name : String) (value : Json) (read : Json → Option α) :
    (object [(name, value)]).only? name read = read value := by
  simp [only?]

/-! ## Arrays and options -/

theorem mapM_map {α : Type} {read : Json → Option α} {write : α → Json} {items : List α}
    (h : ∀ a ∈ items, read (write a) = some a) : (items.map write).mapM read = some items := by
  induction items with
  | nil => rfl
  | cons a items ih =>
    obtain ⟨first, rest⟩ := List.forall_mem_cons.1 h
    simp [first, ih rest]

/-- A list is read back if its elements are. -/
theorem list?_map {α : Type} {read : Json → Option α} {write : α → Json} {items : List α}
    (h : ∀ a ∈ items, read (write a) = some a) :
    list? read (array (items.map write)) = some items := mapM_map h

@[simp] theorem strings?_ofStrings (texts : List String) :
    strings? (ofStrings texts) = some texts :=
  list?_map fun _ _ => rfl

/-- The items of an array come with their proofs, which a reader may forget. -/
theorem bind_items? {α β : Type} (items : List Json) (read : Json → Option α)
    (rest : List α → Option β) :
    ((array items).items? >>= fun attached : List { item // sizeOf item < sizeOf (array items) } =>
      (attached.mapM fun item => read item.1) >>= rest) = (items.mapM read >>= rest) := by
  obtain ⟨attached, found, same⟩ : ∃ attached, (array items).items? = some attached
      ∧ attached.unattach = items := by
    refine ⟨_, rfl, ?_⟩
    rw [List.unattach, List.map_map]
    exact List.attach_map_subtype_val items
  have forgotten : attached.mapM (fun item => read item.1) = items.mapM read := by
    rw [List.mapM_subtype fun _ _ => rfl, same]
  rw [found]
  exact congrArg (· >>= rest) forgotten

/-- An optional part is read back if it is and if it is not written as null. -/
theorem optional?_ofOption {α : Type} {read : Json → Option α} {write : α → Json} {part : Option α}
    (h : ∀ a ∈ part, read (write a) = some a) (visible : ∀ a, write a ≠ null) :
    optional? read (some (ofOption write part)) = some part := by
  cases part with
  | none => rfl
  | some a =>
    rw [ofOption]
    unfold optional?
    split
    · rename_i heq
      cases heq
    · rename_i heq
      exact absurd (Option.some.inj heq) (visible a)
    · rename_i heq
      cases heq
      rw [h a rfl]
      rfl

end LibrarySpec.Json
