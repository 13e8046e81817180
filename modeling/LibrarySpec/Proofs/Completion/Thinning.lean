/-
  Thinned lists.

  Completion keeps the first element of each key, of a list or behind a list that it was given, and
  `keepFirst` is the one step of all these folds.  Keys are compared by `==`, which need not be
  equality, so what is said here is said of `==`.

    1. `firstsBy` keeps some of the elements, the first of each key among them, and no two of one key.
    2. `Fresh` says of keys added to those found that they were asked for, that they are new, that
       they come once, and that none asked for is missing.  A fold that keeps elements made of wanted
       keys adds fresh ones behind what it was given (`foldl_keepFirst_map`).
-/
import LibrarySpec.Completion.Passes

namespace LibrarySpec

/-! ## First elements -/

section FirstsBy

variable {α β : Type} [BEq β] {key : α → β}

/-- One step of `firstsBy`. -/
def keepFirst (key : α → β) (found : List α) (a : α) : List α :=
  if found.any (key · == key a) then found else found ++ [a]

theorem firstsBy_eq (items : List α) : firstsBy key items = items.foldl (keepFirst key) [] := rfl

theorem mem_foldl_keepFirst {items found : List α} {a : α}
    (h : a ∈ items.foldl (keepFirst key) found) : a ∈ found ∨ a ∈ items := by
  induction items generalizing found with
  | nil => exact .inl h
  | cons b items ih =>
    rcases ih h with hf | hi
    · unfold keepFirst at hf
      split at hf
      · exact .inl hf
      · rcases List.mem_append.1 hf with hf | hf
        · exact .inl hf
        · exact .inr (by simp [List.mem_singleton.1 hf])
    · exact .inr (List.mem_cons_of_mem b hi)

theorem mem_of_mem_firstsBy {items : List α} {a : α} (h : a ∈ firstsBy key items) : a ∈ items :=
  (mem_foldl_keepFirst h).elim (fun none => absurd none List.not_mem_nil) id

/-- What is kept stays, and everything has something with its key among what is kept. -/
theorem any_foldl_keepFirst [ReflBEq β] {items found : List α} {a : α}
    (h : found.any (key · == key a) = true ∨ a ∈ items) :
    (items.foldl (keepFirst key) found).any (key · == key a) = true := by
  induction items generalizing found with
  | nil =>
    rcases h with h | h
    · exact h
    · cases h
  | cons b items ih =>
    have kept : found.any (key · == key a) = true →
        (keepFirst key found b).any (key · == key a) = true := by
      intro hf
      unfold keepFirst
      split
      · exact hf
      · rw [List.any_append, hf, Bool.true_or]
    refine ih ?_
    rcases h with h | h
    · exact .inl (kept h)
    · rcases List.mem_cons.1 h with rfl | h
      · left
        unfold keepFirst
        split
        · assumption
        · rw [List.any_append, List.any_cons, BEq.rfl, Bool.true_or, Bool.or_true]
      · exact .inr h

/-- Where everything has something with its key already, nothing more is kept. -/
theorem foldl_keepFirst_eq_self {items found : List α}
    (h : ∀ a ∈ items, found.any (key · == key a) = true) :
    items.foldl (keepFirst key) found = found := by
  induction items with
  | nil => rfl
  | cons a items ih =>
    have first : keepFirst key found a = found := if_pos (h a (by simp))
    rw [List.foldl_cons, first]
    exact ih fun x hx => h x (List.mem_cons_of_mem a hx)

/-- What is kept has one element for each key. -/
theorem pairwise_foldl_keepFirst {items found : List α}
    (h : found.Pairwise fun a b => (key a == key b) = false) :
    (items.foldl (keepFirst key) found).Pairwise fun a b => (key a == key b) = false := by
  induction items generalizing found with
  | nil => exact h
  | cons a items ih =>
    refine ih ?_
    unfold keepFirst
    split
    · exact h
    · rename_i hnew
      refine List.pairwise_append.2 ⟨h, List.pairwise_singleton _ _, ?_⟩
      intro x hx y hy
      rw [List.mem_singleton.1 hy]
      cases hxa : key x == key a with
      | false => rfl
      | true => exact absurd (List.any_eq_true.2 ⟨x, hx, hxa⟩) hnew

/-- A list with one element for each key is kept whole. -/
theorem foldl_keepFirst_of_pairwise {items found : List α}
    (h : (found ++ items).Pairwise fun a b => (key a == key b) = false) :
    items.foldl (keepFirst key) found = found ++ items := by
  induction items generalizing found with
  | nil => rw [List.foldl_nil, List.append_nil]
  | cons a items ih =>
    have new : keepFirst key found a = found ++ [a] := by
      refine if_neg ?_
      intro hany
      obtain ⟨x, hx, hxa⟩ := List.any_eq_true.1 hany
      rw [(List.pairwise_append.1 h).2.2 x hx a (by simp)] at hxa
      cases hxa
    rw [List.foldl_cons, new, ih, List.append_assoc]
    · rfl
    · rw [List.append_assoc]
      exact h

/-- Nothing is added to a list and nothing is taken away if its elements have different keys and
    those of the others are among them. -/
theorem firstsBy_append_eq_self_iff [ReflBEq β] {items more : List α} :
    firstsBy key (items ++ more) = items ↔ (items.Pairwise fun a b => (key a == key b) = false)
      ∧ ∀ b ∈ more, items.any (key · == key b) = true := by
  constructor
  · intro same
    have kept : items = (items ++ more).foldl (keepFirst key) [] := same.symm
    rw [kept]
    exact ⟨pairwise_foldl_keepFirst .nil,
      fun b hb => any_foldl_keepFirst (.inr (List.mem_append_right items hb))⟩
  · rintro ⟨distinct, present⟩
    have again : items.foldl (keepFirst key) [] = items := foldl_keepFirst_of_pairwise distinct
    rw [firstsBy_eq, List.foldl_append, again]
    exact foldl_keepFirst_eq_self present

/-- Thinning out once more, with some of the elements put behind again, changes nothing. -/
theorem firstsBy_append_firstsBy [ReflBEq β] (items more : List α) :
    firstsBy key (firstsBy key (items ++ more) ++ more) = firstsBy key (items ++ more) :=
  firstsBy_append_eq_self_iff.2 ⟨pairwise_foldl_keepFirst .nil,
    fun _ hb => any_foldl_keepFirst (.inr (List.mem_append_right items hb))⟩

theorem mem_foldl_keepFirst_of_mem {items found : List α} {a : α} (h : a ∈ found) :
    a ∈ items.foldl (keepFirst key) found := by
  induction items generalizing found with
  | nil => exact h
  | cons b items ih =>
    refine ih ?_
    unfold keepFirst
    split
    · exact h
    · exact List.mem_append_left [b] h

/-- The first element with a key is kept. -/
theorem mem_firstsBy_of_find? {items : List α} {a : α}
    (h : items.find? (key · == key a) = some a) : a ∈ firstsBy key items := by
  have fold : ∀ (items found : List α), found.any (key · == key a) = false →
      items.find? (key · == key a) = some a → a ∈ items.foldl (keepFirst key) found := by
    intro items
    induction items with
    | nil => exact fun _ _ h => by cases h
    | cons b items ih =>
      intro found new first
      rw [List.find?_cons] at first
      rw [List.foldl_cons]
      cases same : key b == key a with
      | true =>
        rw [same] at first
        obtain rfl : b = a := Option.some.inj first
        refine mem_foldl_keepFirst_of_mem ?_
        rw [keepFirst, new]
        exact List.mem_append_right found List.mem_cons_self
      | false =>
        rw [same] at first
        refine ih _ ?_ first
        unfold keepFirst
        split
        · exact new
        · rw [List.any_append, new, List.any_cons, same]
          rfl
  exact fold items [] rfl h

theorem firstsBy_nodup [ReflBEq β] (items : List α) : ((firstsBy key items).map key).Nodup := by
  have distinct : (firstsBy key items).Pairwise fun a b => (key a == key b) = false :=
    pairwise_foldl_keepFirst .nil
  rw [List.Nodup, List.pairwise_map]
  refine distinct.imp ?_
  intro a b different same
  rw [same, BEq.rfl] at different
  cases different

end FirstsBy

/-! ## New keys -/

section Fresh

variable {α β : Type} [BEq β]

/-- The keys `new` were among those wanted, none of them was found before, each comes once, and no
    wanted key is missing among those found and new. -/
structure Fresh (found wanted new : List β) : Prop where
  asked : ∀ b ∈ new, b ∈ wanted
  apart : ∀ x ∈ found, ∀ y ∈ new, (x == y) = false
  distinct : new.Pairwise fun x y => (x == y) = false
  complete : ∀ b ∈ wanted, ∃ x ∈ found ++ new, (x == b) = true

theorem Fresh.nil (found : List β) : Fresh found [] [] where
  asked := fun _ hb => by cases hb
  apart := fun _ _ _ hy => by cases hy
  distinct := .nil
  complete := fun _ hb => by cases hb

/-- Where keys that compare are equal, the new keys are those wanted that were not found. -/
theorem Fresh.mem_iff {found wanted new : List β} (h : Fresh found wanted new)
    (eq : ∀ x ∈ wanted, ∀ y ∈ wanted, (x == y) = true → x = y) {b : β} :
    b ∈ new ↔ b ∈ wanted ∧ ∀ x ∈ found, (x == b) = false := by
  constructor
  · exact fun hb => ⟨h.asked b hb, fun x hx => h.apart x hx b hb⟩
  · rintro ⟨hb, unknown⟩
    obtain ⟨x, hx, same⟩ := h.complete b hb
    rcases List.mem_append.1 hx with hx | hx
    · rw [unknown x hx] at same
      cases same
    · rw [← eq x (h.asked x hx) b hb same]
      exact hx

theorem Fresh.nodup [ReflBEq β] {found wanted new : List β} (h : Fresh found wanted new) :
    new.Nodup := by
  refine h.distinct.imp ?_
  rintro a _ different rfl
  rw [BEq.rfl] at different
  cases different

/-- Where keys that compare are equal, the new keys depend on the order of those wanted only in their
    own order. -/
theorem Fresh.perm [ReflBEq β] {found wanted wanted' new new' : List β}
    (h : Fresh found wanted new) (h' : Fresh found wanted' new')
    (same : ∀ b, b ∈ wanted ↔ b ∈ wanted')
    (eq : ∀ x ∈ wanted, ∀ y ∈ wanted, (x == y) = true → x = y) : new.Perm new' := by
  have eq' : ∀ x ∈ wanted', ∀ y ∈ wanted', (x == y) = true → x = y :=
    fun x hx y hy => eq x ((same x).2 hx) y ((same y).2 hy)
  refine (List.perm_ext_iff_of_nodup h.nodup h'.nodup).2 fun b => ?_
  rw [h.mem_iff eq, h'.mem_iff eq', same]

/-- Nothing is new if everything wanted was found. -/
theorem Fresh.eq_nil {found wanted new : List β} (h : Fresh found wanted new)
    (known : ∀ b ∈ wanted, ∃ x ∈ found, (x == b) = true) : new = [] := by
  refine List.eq_nil_iff_forall_not_mem.2 fun b hb => ?_
  obtain ⟨x, hx, same⟩ := known b (h.asked b hb)
  rw [h.apart x hx b hb] at same
  cases same

/-- What is wanted and found already adds nothing. -/
theorem Fresh.skip {found wanted new : List β} (h : Fresh found wanted new) {b : β}
    (known : ∃ x ∈ found, (x == b) = true) : Fresh found (b :: wanted) new where
  asked := fun x hx => List.mem_cons_of_mem b (h.asked x hx)
  apart := h.apart
  distinct := h.distinct
  complete := by
    refine List.forall_mem_cons.2 ⟨?_, h.complete⟩
    obtain ⟨x, hx, same⟩ := known
    exact ⟨x, List.mem_append_left new hx, same⟩

/-- What is wanted and not found comes first of what is new. -/
theorem Fresh.take [ReflBEq β] {found wanted new : List β} {b : β}
    (h : Fresh (found ++ [b]) wanted new) (unknown : ∀ x ∈ found, (x == b) = false) :
    Fresh found (b :: wanted) (b :: new) where
  asked := List.forall_mem_cons.2
    ⟨List.mem_cons_self, fun x hx => List.mem_cons_of_mem b (h.asked x hx)⟩
  apart := fun x hx => List.forall_mem_cons.2
    ⟨unknown x hx, fun y hy => h.apart x (List.mem_append_left _ hx) y hy⟩
  distinct := List.pairwise_cons.2 ⟨fun y hy => h.apart b (by simp) y hy, h.distinct⟩
  complete := by
    have same : found ++ [b] ++ new = found ++ b :: new := by simp
    refine List.forall_mem_cons.2 ⟨⟨b, by simp, BEq.rfl⟩, fun x hx => ?_⟩
    rw [← same]
    exact h.complete x hx

/-- One batch of new keys after another. -/
theorem Fresh.append {found wanted wanted' new new' : List β} (h : Fresh found wanted new)
    (h' : Fresh (found ++ new) wanted' new') : Fresh found (wanted ++ wanted') (new ++ new') where
  asked := List.forall_mem_append.2 ⟨fun x hx => List.mem_append_left _ (h.asked x hx),
    fun x hx => List.mem_append_right _ (h'.asked x hx)⟩
  apart := fun x hx => List.forall_mem_append.2
    ⟨h.apart x hx, fun y hy => h'.apart x (List.mem_append_left _ hx) y hy⟩
  distinct := List.pairwise_append.2 ⟨h.distinct, h'.distinct,
    fun x hx y hy => h'.apart x (List.mem_append_right _ hx) y hy⟩
  complete := by
    rw [← List.append_assoc]
    refine List.forall_mem_append.2 ⟨fun b hb => ?_, h'.complete⟩
    obtain ⟨x, hx, same⟩ := h.complete b hb
    exact ⟨x, List.mem_append_left _ hx, same⟩

/-- Elements made of wanted keys, each kept unless its key is there, go behind the others. -/
theorem foldl_keepFirst_map [ReflBEq β] (key : α → β) (make : β → α) (hkey : ∀ b, key (make b) = b)
    (wanted : List β) (found : List α) :
    ∃ new, wanted.foldl (fun found b => keepFirst key found (make b)) found = found ++ new.map make
      ∧ Fresh (found.map key) wanted new := by
  induction wanted generalizing found with
  | nil => exact ⟨[], by simp, .nil _⟩
  | cons b wanted ih =>
    rw [List.foldl_cons, keepFirst, hkey]
    -- what is known adds nothing, and what is added is known from here on
    split
    · rename_i known
      obtain ⟨new, folded, fresh⟩ := ih found
      obtain ⟨a, ha, same⟩ := List.any_eq_true.1 known
      exact ⟨new, folded, fresh.skip ⟨key a, List.mem_map_of_mem ha, same⟩⟩
    · rename_i unknown
      obtain ⟨new, folded, fresh⟩ := ih (found ++ [make b])
      refine ⟨b :: new, by rw [folded]; simp, ?_⟩
      rw [List.map_append, List.map_singleton, hkey] at fresh
      refine fresh.take fun x hx => ?_
      obtain ⟨a, ha, rfl⟩ := List.mem_map.1 hx
      cases same : key a == b with
      | false => rfl
      | true => exact absurd (List.any_eq_true.2 ⟨a, ha, same⟩) unknown

/-- Thinning out what is wanted and not found. -/
theorem Fresh.of_filter {found wanted new : List β}
    (h : Fresh [] (wanted.filter fun b => !found.any (· == b)) new) : Fresh found wanted new where
  asked := fun b hb => (List.mem_filter.1 (h.asked b hb)).1
  apart := by
    intro x hx y hy
    have unknown := (List.mem_filter.1 (h.asked y hy)).2
    rw [Bool.not_eq_true', List.any_eq_false] at unknown
    exact Bool.eq_false_iff.2 (unknown x hx)
  distinct := h.distinct
  complete := by
    intro b hb
    cases known : found.any (· == b) with
    | true =>
      obtain ⟨x, hx, same⟩ := List.any_eq_true.1 known
      exact ⟨x, List.mem_append_left new hx, same⟩
    | false =>
      obtain ⟨x, hx, same⟩ := h.complete b (List.mem_filter.2 ⟨hb, by rw [known]; rfl⟩)
      exact ⟨x, List.mem_append_right found hx, same⟩

/-- Leaving out of a thinned list what is found. -/
theorem Fresh.filter [EquivBEq β] {wanted new : List β} (h : Fresh [] wanted new) (found : List β) :
    Fresh found wanted (new.filter fun b => !found.any (· == b)) where
  asked := fun b hb => h.asked b (List.mem_filter.1 hb).1
  apart := by
    intro x hx y hy
    have unknown := (List.mem_filter.1 hy).2
    rw [Bool.not_eq_true', List.any_eq_false] at unknown
    exact Bool.eq_false_iff.2 (unknown x hx)
  distinct := h.distinct.filter _
  complete := by
    intro b hb
    obtain ⟨x, hx, same⟩ := h.complete b hb
    cases known : found.any (· == x) with
    | true =>
      obtain ⟨y, hy, first⟩ := List.any_eq_true.1 known
      exact ⟨y, List.mem_append_left _ hy, BEq.trans first same⟩
    | false =>
      have kept : x ∈ new.filter fun b => !found.any (· == b) :=
        List.mem_filter.2 ⟨hx, by rw [known]; rfl⟩
      exact ⟨x, List.mem_append_right found kept, same⟩

/-- A thinned list has each wanted key once. -/
theorem fresh_firstsBy [ReflBEq β] (wanted : List β) : Fresh [] wanted (firstsBy id wanted) := by
  obtain ⟨new, folded, fresh⟩ :=
    foldl_keepFirst_map id id (fun _ => rfl) wanted []
  have same : firstsBy id wanted = new := by
    rw [firstsBy_eq]
    exact folded.trans (by simp)
  rw [same]
  exact fresh

end Fresh

end LibrarySpec
