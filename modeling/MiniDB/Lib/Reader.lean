import MiniDB.Lib.Bytes
import MiniDB.Lib.Effect
import MiniDB.Lib.Paged

/-!
# Reading values off a buffer

The two reads a decoder makes at its cursor, each with the check of the remaining length before it:
a value of fixed size, and a given number of bytes.  What is missing is an error of the caller's
choice; the read itself is an access to the buffer, so that one outside of it would be a fault.
-/

namespace MiniDB.Reader

open Bytes Effect Paged

variable {ε α : Type} {rest bs v : List UInt8} {missing : ε} {cursor n : Nat}

/-- The value of fixed size at the cursor, and the cursor behind it. -/
def fixed (α : Type) [FixedSize α] (missing : ε) (bs : List UInt8) (cursor : Nat) :
    Checked Fault ε (α × Nat) := do
  if cursor + FixedSize.size α > bs.length then
    throw missing
  let v ← Checked.access .outOfBounds (fixedAt? α bs cursor)
  return (v, cursor + FixedSize.size α)

/-- The `n` bytes at the cursor, and the cursor behind them. -/
def bytes (n : Nat) (missing : ε) (bs : List UInt8) (cursor : Nat) :
    Checked Fault ε (List UInt8 × Nat) := do
  if cursor + n > bs.length then
    throw missing
  let v ← Checked.access .outOfBounds (sliceAt? cursor n bs)
  return (v, cursor + n)

/-- The read fails, or it is inside the buffer and what comes behind does not matter. -/
theorem fixed_cases (α : Type) [FixedSize α] (missing : ε) (bs : List UInt8) (cursor : Nat) :
    fixed α missing bs cursor = throw missing ∨
      ∃ v, cursor + FixedSize.size α ≤ bs.length ∧
        ∀ rest, fixed α missing (bs ++ rest) cursor = pure (v, cursor + FixedSize.size α) := by
  by_cases hlong : cursor + FixedSize.size α > bs.length
  · left
    rw [fixed, if_pos hlong]
    rfl
  · right
    have hle := Nat.not_lt.mp hlong
    refine ⟨FixedSize.ofBytes (slice cursor (FixedSize.size α) bs), hle, fun rest => ?_⟩
    have hle' : cursor + FixedSize.size α ≤ (bs ++ rest).length := by
      rw [List.length_append]
      omega
    rw [fixed, if_neg (Nat.not_lt.mpr hle'), fixedAt?, if_pos hle', slice_append hle]
    rfl

theorem bytes_cases (n : Nat) (missing : ε) (bs : List UInt8) (cursor : Nat) :
    bytes n missing bs cursor = throw missing ∨
      ∃ v, v.length = n ∧ cursor + n ≤ bs.length ∧
        ∀ rest, bytes n missing (bs ++ rest) cursor = pure (v, cursor + n) := by
  by_cases hlong : cursor + n > bs.length
  · left
    rw [bytes, if_pos hlong]
    rfl
  · right
    have hle := Nat.not_lt.mp hlong
    refine ⟨slice cursor n bs, length_slice hle, hle, fun rest => ?_⟩
    have hle' : cursor + n ≤ (bs ++ rest).length := by
      rw [List.length_append]
      omega
    rw [bytes, if_neg (Nat.not_lt.mpr hle'), sliceAt?, if_pos hle', slice_append hle]
    rfl

theorem fixed_eq [FixedSize α] {v : α} (hcur : cursor ≤ bs.length)
    (h : bs.drop cursor = FixedSize.toBytes v ++ rest) :
    fixed α missing bs cursor = pure (v, cursor + FixedSize.size α) := by
  have hlen := congrArg List.length h
  rw [List.length_drop, List.length_append, FixedSize.length_toBytes] at hlen
  rw [fixed, if_neg (by omega), fixedAt?_eq_some hcur h]
  rfl

theorem bytes_eq (hcur : cursor ≤ bs.length) (h : bs.drop cursor = v ++ rest) (hn : v.length = n) :
    bytes n missing bs cursor = pure (v, cursor + n) := by
  have hlen := congrArg List.length h
  rw [List.length_drop, List.length_append, hn] at hlen
  rw [bytes, if_neg (by omega), sliceAt?, if_pos (by omega), slice, h, List.take_left' hn]
  rfl

/-! ### Reading back what was written -/

/-- `read` finds the value `a` wherever the bytes `e` stand, and ends behind them. -/
def ReadsBack {α : Type} (read : List UInt8 → Nat → Checked Fault ε (α × Nat)) (a : α)
    (e : List UInt8) : Prop :=
  ∀ pre rest, read (pre ++ (e ++ rest)) pre.length = pure (a, (pre ++ e).length)

theorem readsBack_fixed [FixedSize α] (missing : ε) (v : α) :
    ReadsBack (fixed α missing) v (FixedSize.toBytes v) := by
  intro pre rest
  have hdrop : (pre ++ (FixedSize.toBytes v ++ rest)).drop pre.length = FixedSize.toBytes v ++ rest :=
    List.drop_left
  rw [fixed_eq (by rw [List.length_append]; omega) hdrop, List.length_append,
    FixedSize.length_toBytes]

theorem readsBack_bytes (missing : ε) (hn : v.length = n) : ReadsBack (bytes n missing) v v := by
  intro pre rest
  have hdrop : (pre ++ (v ++ rest)).drop pre.length = v ++ rest := List.drop_left
  rw [bytes_eq (by rw [List.length_append]; omega) hdrop hn, List.length_append, hn]

/-- One value after the other: the first is found, and the buffer goes on behind it. -/
theorem ReadsBack.seq {β : Type} {read : List UInt8 → Nat → Checked Fault ε (α × Nat)} {a : α}
    {e pre data : List UInt8} {next : α × Nat → Checked Fault ε β} {r : Checked Fault ε β}
    (h : ReadsBack read a e) (hdata : data = pre ++ (e ++ rest))
    (hnext : data = (pre ++ e) ++ rest → next (a, (pre ++ e).length) = r) :
    read data pre.length >>= next = r := by
  rw [← hnext (by rw [hdata, List.append_assoc]), hdata, h pre rest, pure_bind]

end MiniDB.Reader
