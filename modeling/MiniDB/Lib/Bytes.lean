import Mathlib.Data.List.Basic
import Mathlib.Tactic.Ring

/-!
# Byte buffers and fixed-width values

The byte-level vocabulary of every on-disk format below.

* `leBytes w n` / `leNat`: the `w` little-endian bytes of a natural number and back, with the
  round trip `leNat_leBytes`.
* `slice off n bs` / `patch off new bs`: the bytes a `memcpy` out of a buffer reads and the buffer
  a `memcpy` into it leaves behind.  `slice_patch_self` and `slice_patch_of_disjoint` are the two
  laws every layout argument rests on: a read inside the patched range sees the new bytes, a read
  disjoint from it sees the old ones.
* `FixedSize α`: a trivially copyable type, given by its object representation.
-/

namespace MiniDB.Bytes

/-! ### Little-endian naturals -/

/-- The `w` little-endian bytes of `n`; bits from `8 * w` on are dropped. -/
def leBytes : Nat → Nat → List UInt8
  | 0, _ => []
  | w + 1, n => UInt8.ofNat n :: leBytes w (n / 256)

/-- The natural number with the given little-endian bytes. -/
def leNat : List UInt8 → Nat
  | [] => 0
  | b :: bs => b.toNat + 256 * leNat bs

theorem length_leBytes (w n : Nat) : (leBytes w n).length = w := by
  induction w generalizing n with
  | zero => rfl
  | succ w ih => rw [leBytes, List.length_cons, ih]

theorem leNat_leBytes (w n : Nat) : leNat (leBytes w n) = n % 256 ^ w := by
  induction w generalizing n with
  | zero => rw [leBytes, leNat, pow_zero, Nat.mod_one]
  | succ w ih =>
    rw [leBytes, leNat, ih, UInt8.toNat_ofNat', pow_succ' 256 w, Nat.mod_mul]

variable {n off : Nat}

theorem leNat_leBytes_of_lt {w : Nat} (h : n < 256 ^ w) : leNat (leBytes w n) = n := by
  rw [leNat_leBytes, Nat.mod_eq_of_lt h]

theorem leNat_lt (bs : List UInt8) : leNat bs < 256 ^ bs.length := by
  induction bs with
  | nil => exact Nat.one_pos
  | cons b bs ih =>
    have hb := b.toNat_lt
    rw [leNat, List.length_cons, pow_succ']
    omega

theorem leBytes_leNat (bs : List UInt8) : leBytes bs.length (leNat bs) = bs := by
  induction bs with
  | nil => rfl
  | cons b bs ih =>
    have hb := b.toNat_lt
    have hdiv : (b.toNat + 256 * leNat bs) / 256 = leNat bs := by omega
    have hbyte : UInt8.ofNat (b.toNat + 256 * leNat bs) = b := by
      refine UInt8.toNat_inj.mp ?_
      rw [UInt8.toNat_ofNat']
      omega
    rw [leNat, List.length_cons, leBytes, hdiv, hbyte, ih]

/-! ### Reading and patching a buffer -/

variable {α : Type*} {bs new : List α}

/-- The `n` elements of `bs` from position `off` on. -/
def slice (off n : Nat) (bs : List α) : List α := (bs.drop off).take n

/-- `bs` with the elements from position `off` on overwritten by `new`. -/
def patch (off : Nat) (new bs : List α) : List α :=
  bs.take off ++ new ++ bs.drop (off + new.length)

theorem length_patch (h : off + new.length ≤ bs.length) : (patch off new bs).length = bs.length := by
  simp only [patch, List.length_append, List.length_take, List.length_drop]
  omega

theorem length_slice (h : off + n ≤ bs.length) : (slice off n bs).length = n := by
  simp only [slice, List.length_take, List.length_drop]
  omega

/-- What stands behind a range does not matter for it. -/
theorem slice_append (h : off + n ≤ bs.length) (rest : List α) :
    slice off n (bs ++ rest) = slice off n bs := by
  rw [slice, slice, List.drop_append_of_le_length (by omega),
    List.take_append_of_le_length (by rw [List.length_drop]; omega)]

theorem getElem?_slice (off n i : Nat) (bs : List α) :
    (slice off n bs)[i]? = if i < n then bs[off + i]? else none := by
  rw [slice, List.getElem?_take]
  split
  · rw [List.getElem?_drop]
  · rfl

/-- Position by position: inside the patched range the new elements, outside it the old ones. -/
theorem getElem?_patch (h : off + new.length ≤ bs.length) (i : Nat) :
    (patch off new bs)[i]?
      = if off ≤ i ∧ i < off + new.length then new[i - off]? else bs[i]? := by
  have htake : (bs.take off).length = off := by rw [List.length_take]; omega
  rw [patch, List.append_assoc, List.getElem?_append, htake]
  by_cases h1 : i < off
  · rw [if_pos h1, if_neg (by omega), List.getElem?_take, if_pos h1]
  · rw [if_neg h1, List.getElem?_append]
    by_cases h2 : i - off < new.length
    · rw [if_pos h2, if_pos (by omega)]
    · rw [if_neg h2, if_neg (by omega), List.getElem?_drop]
      congr 1
      omega

theorem slice_patch_self (h : off + new.length ≤ bs.length) :
    slice off new.length (patch off new bs) = new := by
  apply List.ext_getElem?
  intro i
  rw [getElem?_slice, getElem?_patch h]
  by_cases hi : i < new.length
  · rw [if_pos hi, if_pos (by omega), Nat.add_sub_cancel_left]
  · rw [if_neg hi, List.getElem?_eq_none (by omega)]

/-- A patch is invisible to a read of a disjoint range. -/
theorem slice_patch_of_disjoint {off' : Nat} (h : off + new.length ≤ bs.length)
    (hd : off' + n ≤ off ∨ off + new.length ≤ off') :
    slice off' n (patch off new bs) = slice off' n bs := by
  apply List.ext_getElem?
  intro i
  rw [getElem?_slice, getElem?_slice]
  split
  · rw [getElem?_patch h, if_neg (by omega)]
  · rfl

/-! ### Fixed-width values -/

/-- A trivially copyable type: `size` bytes hold its object representation, which determines the
value (`ofBytes_toBytes`). -/
class FixedSize (α : Type) where
  /-- `sizeof(T)`. -/
  size : Nat
  /-- The object representation. -/
  toBytes : α → List UInt8
  /-- The value with the given object representation. -/
  ofBytes : List UInt8 → α
  length_toBytes : ∀ a, (toBytes a).length = size
  ofBytes_toBytes : ∀ a, ofBytes (toBytes a) = a

instance : FixedSize UInt8 where
  size := 1
  toBytes a := [a]
  ofBytes bs := bs.headD 0
  length_toBytes _ := rfl
  ofBytes_toBytes _ := rfl

instance : FixedSize UInt16 where
  size := 2
  toBytes a := leBytes 2 a.toNat
  ofBytes bs := UInt16.ofNat (leNat bs)
  length_toBytes _ := length_leBytes _ _
  ofBytes_toBytes a := by
    rw [leNat_leBytes_of_lt (lt_of_lt_of_le a.toNat_lt (by norm_num)), UInt16.ofNat_toNat]

instance : FixedSize UInt32 where
  size := 4
  toBytes a := leBytes 4 a.toNat
  ofBytes bs := UInt32.ofNat (leNat bs)
  length_toBytes _ := length_leBytes _ _
  ofBytes_toBytes a := by
    rw [leNat_leBytes_of_lt (lt_of_lt_of_le a.toNat_lt (by norm_num)), UInt32.ofNat_toNat]

/-- Four bytes are the representation of a number. -/
theorem toBytes_ofBytes_uint32 {bs : List UInt8} (h : bs.length = 4) :
    FixedSize.toBytes (FixedSize.ofBytes bs : UInt32) = bs := by
  have hlt := leNat_lt bs
  have heq := leBytes_leNat bs
  rw [h] at hlt heq
  show leBytes 4 (UInt32.ofNat (leNat bs)).toNat = bs
  rw [UInt32.toNat_ofNat_of_lt' (by norm_num at hlt ⊢; exact hlt), heq]

instance : FixedSize UInt64 where
  size := 8
  toBytes a := leBytes 8 a.toNat
  ofBytes bs := UInt64.ofNat (leNat bs)
  length_toBytes _ := length_leBytes _ _
  ofBytes_toBytes a := by
    rw [leNat_leBytes_of_lt (lt_of_lt_of_le a.toNat_lt (by norm_num)), UInt64.ofNat_toNat]

instance : FixedSize Int32 where
  size := 4
  toBytes a := FixedSize.toBytes a.toUInt32
  ofBytes bs := (FixedSize.ofBytes bs : UInt32).toInt32
  length_toBytes a := FixedSize.length_toBytes a.toUInt32
  ofBytes_toBytes a := by rw [FixedSize.ofBytes_toBytes, Int32.toInt32_toUInt32]

instance : FixedSize Int64 where
  size := 8
  toBytes a := FixedSize.toBytes a.toUInt64
  ofBytes bs := (FixedSize.ofBytes bs : UInt64).toInt64
  length_toBytes a := FixedSize.length_toBytes a.toUInt64
  ofBytes_toBytes a := by rw [FixedSize.ofBytes_toBytes, Int64.toInt64_toUInt64]

/-- The `n` elements from position `off` on, or `none` when that range leaves the buffer. -/
def sliceAt? (off n : Nat) (bs : List α) : Option (List α) :=
  if off + n ≤ bs.length then some (slice off n bs) else none

/-- The value whose object representation stands at position `off` of a buffer, or `none` when that
range leaves the buffer. -/
def fixedAt? (α : Type) [FixedSize α] (bs : List UInt8) (off : Nat) : Option α :=
  if off + FixedSize.size α ≤ bs.length then
    some (FixedSize.ofBytes (slice off (FixedSize.size α) bs))
  else none

/-- A value is read back where its object representation stands. -/
theorem fixedAt?_eq_some {α : Type} [FixedSize α] {v : α} {bs rest : List UInt8}
    (hoff : off ≤ bs.length) (h : bs.drop off = FixedSize.toBytes v ++ rest) :
    fixedAt? α bs off = some v := by
  have hlen := FixedSize.length_toBytes v
  have hdrop := congrArg List.length h
  rw [List.length_drop, List.length_append, hlen] at hdrop
  rw [fixedAt?, if_pos (by omega), slice, h, List.take_left' hlen, FixedSize.ofBytes_toBytes]

end MiniDB.Bytes
