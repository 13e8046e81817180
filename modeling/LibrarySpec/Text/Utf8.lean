/-
  UTF-8 decoding.

  `Utf8.decode` reads bytes as characters or says where they stop being UTF-8.  The sequences it
  takes are those of the standard: no overlong forms, no surrogates, nothing above U+10FFFF.

  A fault names the index of the first byte that starts no character, and how the sequence there
  goes wrong:

    1. `broken n`: a byte is there that cannot follow; `n` counts the bytes before it that could
       still have started a character, and is at least one (a byte that starts nothing counts).
    2. `cut`: the input ends inside a sequence that could still be completed.
-/

namespace LibrarySpec.Text

namespace Utf8

/-- How a byte sequence goes wrong. -/
inductive Defect where
  /-- A byte is refused after this many acceptable ones, or at once (then the count is one). -/
  | broken (length : Nat)
  /-- The input ends inside the sequence. -/
  | cut
deriving DecidableEq, Repr

/-- The first place where bytes are not UTF-8. -/
structure Fault where
  /-- The number of bytes before it, all of them well-formed. -/
  index : Nat
  defect : Defect
deriving DecidableEq, Repr

/-- The description of a fault. -/
def Fault.message : Fault → String
  | ⟨index, .broken length⟩ =>
    "invalid utf-8 sequence of " ++ toString length ++ " bytes from index " ++ toString index
  | ⟨index, .cut⟩ => "incomplete utf-8 byte sequence from index " ++ toString index

/-- Whether a byte can stand inside a sequence. -/
def isTail (b : UInt8) : Bool := 0x80 ≤ b && b ≤ 0xBF

/-- Whether `b` may follow the leading byte `a` of a sequence.  The leading bytes E0 and F0 bar
    overlong forms here, ED bars surrogates and F4 bars code points above U+10FFFF. -/
def isSecond (a b : UInt8) : Bool :=
  if a = 0xE0 then 0xA0 ≤ b && b ≤ 0xBF
  else if a = 0xED then 0x80 ≤ b && b ≤ 0x9F
  else if a = 0xF0 then 0x90 ≤ b && b ≤ 0xBF
  else if a = 0xF4 then 0x80 ≤ b && b ≤ 0x8F
  else isTail b

/-- The number of bytes in the sequence that a leading byte starts, zero if it starts none. -/
def sequenceLength (a : UInt8) : Nat :=
  if a < 0x80 then 1
  else if 0xC2 ≤ a && a ≤ 0xDF then 2
  else if 0xE0 ≤ a && a ≤ 0xEF then 3
  else if 0xF0 ≤ a && a ≤ 0xF4 then 4
  else 0

/-- The low six bits of a tail byte. -/
def payload (b : UInt8) : Nat := b.toNat % 64

/-- The first character of non-empty bytes and the bytes after it. -/
def first (a : UInt8) (rest : List UInt8) : Except Defect (Char × List UInt8) :=
  match sequenceLength a, rest with
  | 1, rest => .ok (Char.ofNat a.toNat, rest)
  | 2, b :: rest =>
    if isSecond a b then .ok (Char.ofNat (a.toNat % 32 * 64 + payload b), rest)
    else .error (.broken 1)
  | 3, b :: rest =>
    if isSecond a b then
      match rest with
      | c :: rest =>
        if isTail c then
          .ok (Char.ofNat ((a.toNat % 16 * 64 + payload b) * 64 + payload c), rest)
        else .error (.broken 2)
      | [] => .error .cut
    else .error (.broken 1)
  | 4, b :: rest =>
    if isSecond a b then
      match rest with
      | c :: rest =>
        if isTail c then
          match rest with
          | d :: rest =>
            if isTail d then
              .ok (Char.ofNat
                (((a.toNat % 8 * 64 + payload b) * 64 + payload c) * 64 + payload d), rest)
            else .error (.broken 3)
          | [] => .error .cut
        else .error (.broken 2)
      | [] => .error .cut
    else .error (.broken 1)
  | 0, _ => .error (.broken 1)
  | _, _ => .error .cut

/-- What follows a character is shorter than what it was read from. -/
theorem length_of_first {a : UInt8} {rest tail : List UInt8} {c : Char}
    (h : first a rest = .ok (c, tail)) : tail.length ≤ rest.length := by
  unfold first at h
  repeat' split at h
  all_goals
    first
    | (simp only [Except.ok.injEq, Prod.mk.injEq] at h; obtain ⟨_, rfl⟩ := h; simp; try omega)
    | simp at h

/-- The characters of bytes that begin at index `index` of the whole input. -/
def decodeFrom (index : Nat) : List UInt8 → Except Fault (List Char)
  | [] => .ok []
  | a :: rest =>
    match h : first a rest with
    | .error defect => .error ⟨index, defect⟩
    | .ok (c, tail) =>
      (decodeFrom (index + (rest.length + 1 - tail.length)) tail).map (c :: ·)
termination_by bytes => bytes.length
decreasing_by have := length_of_first h; simp; omega

/-- The characters that bytes stand for, or the first place where they are not UTF-8. -/
def decode (bytes : List UInt8) : Except Fault (List Char) :=
  decodeFrom 0 bytes

end Utf8
end LibrarySpec.Text
