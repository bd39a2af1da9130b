import MiniDB.Lib.Bytes

/-!
# Pages and record ids

A `Page` is a buffer of exactly `kPageSize` bytes.  The views of the storage and index layers read
and write fixed-width values at byte offsets of it:

* `Page.get`/`Page.put` at offsets known to lie inside the page (header fields);
* `Page.get?`/`Page.put?`/`Page.putBytes?` at computed offsets: `none` is an access outside the
  page.
-/

namespace MiniDB

open Bytes

/-- `config::kPageSize`. -/
def kPageSize : Nat := 4096

/-- `storage::page_id_t`. -/
abbrev PageId := Int32

/-- `storage::slot_id_t`. -/
abbrev SlotId := UInt16

/-- `storage::kInvalidPageId`. -/
def kInvalidPageId : PageId := -1

/-- `storage::RecordId`. -/
structure RecordId where
  pageId : PageId
  slotId : SlotId
  deriving DecidableEq, Repr

/-- `storage::Page`: a buffer of `kPageSize` bytes. -/
structure Page where
  data : List UInt8
  size_eq : data.length = kPageSize
  deriving DecidableEq

namespace Page

/-- A page of zeroes, as `Page::Reset` leaves it. -/
def blank : Page := ⟨List.replicate kPageSize 0, List.length_replicate⟩

/-- The `n` bytes from offset `off` on. -/
def bytes (p : Page) (off n : Nat) : List UInt8 := slice off n p.data

/-- `memcpy` of `bs` to offset `off`.  Nothing is written when the target range leaves the page;
`putBytes?` reports that case. -/
def putBytes (p : Page) (off : Nat) (bs : List UInt8) : Page :=
  if h : off + bs.length ≤ kPageSize then
    ⟨patch off bs p.data, by rw [length_patch (by rw [p.size_eq]; exact h), p.size_eq]⟩
  else p

/-- `memcpy` of `bs` to offset `off`, or `none` when the target range leaves the page. -/
def putBytes? (p : Page) (off : Nat) (bs : List UInt8) : Option Page :=
  if off + bs.length ≤ kPageSize then some (p.putBytes off bs) else none

/-- The `n` bytes from offset `off` on, or `none` when that range leaves the page. -/
def bytes? (p : Page) (off n : Nat) : Option (List UInt8) :=
  if off + n ≤ kPageSize then some (p.bytes off n) else none

variable {α : Type} [FixedSize α] {β : Type} [FixedSize β]

/-- `util::ReadFixed<T>` at offset `off`. -/
def get (α : Type) [FixedSize α] (p : Page) (off : Nat) : α :=
  FixedSize.ofBytes (p.bytes off (FixedSize.size α))

/-- `util::WriteFixed<T>` at offset `off`. -/
def put (p : Page) (off : Nat) (v : α) : Page := p.putBytes off (FixedSize.toBytes v)

/-- `util::ReadFixed<T>` at a computed offset. -/
def get? (α : Type) [FixedSize α] (p : Page) (off : Nat) : Option α :=
  if off + FixedSize.size α ≤ kPageSize then some (p.get α off) else none

/-- `util::WriteFixed<T>` at a computed offset. -/
def put? (p : Page) (off : Nat) (v : α) : Option Page :=
  if off + FixedSize.size α ≤ kPageSize then some (p.put off v) else none

/-! ### Reads after writes -/

variable {p : Page} {off off' n : Nat} {bs : List UInt8}

@[ext] theorem ext {q : Page} (h : p.data = q.data) : p = q := by
  cases p
  cases q
  subst h
  rfl

theorem data_putBytes (h : off + bs.length ≤ kPageSize) :
    (p.putBytes off bs).data = patch off bs p.data := by
  rw [putBytes, dif_pos h]

theorem putBytes_nil (p : Page) (off : Nat) : p.putBytes off [] = p := by
  unfold putBytes
  split_ifs
  · apply ext
    simp [patch]
  · rfl

theorem bytes_putBytes_self (h : off + bs.length ≤ kPageSize) :
    (p.putBytes off bs).bytes off bs.length = bs := by
  rw [bytes, data_putBytes h, slice_patch_self (by rw [p.size_eq]; exact h)]

theorem bytes_putBytes_of_disjoint (p : Page) (hd : off' + n ≤ off ∨ off + bs.length ≤ off') :
    (p.putBytes off bs).bytes off' n = p.bytes off' n := by
  by_cases h : off + bs.length ≤ kPageSize
  · rw [bytes, data_putBytes h, slice_patch_of_disjoint (by rw [p.size_eq]; exact h) hd, bytes]
  · rw [putBytes, dif_neg h]

theorem get_put_self (p : Page) (v : α) (h : off + FixedSize.size α ≤ kPageSize) :
    (p.put off v).get α off = v := by
  rw [get, put, ← FixedSize.length_toBytes v, bytes_putBytes_self, FixedSize.ofBytes_toBytes]
  rw [FixedSize.length_toBytes]
  exact h

theorem bytes_put_of_disjoint (p : Page) (v : α)
    (hd : off' + n ≤ off ∨ off + FixedSize.size α ≤ off') :
    (p.put off v).bytes off' n = p.bytes off' n := by
  apply bytes_putBytes_of_disjoint
  rw [FixedSize.length_toBytes]
  exact hd

theorem get_put_of_disjoint (p : Page) (v : α)
    (hd : off' + FixedSize.size β ≤ off ∨ off + FixedSize.size α ≤ off') :
    (p.put off v).get β off' = p.get β off' := by
  rw [get, bytes_put_of_disjoint p v hd, get]

theorem get?_eq_some (h : off + FixedSize.size α ≤ kPageSize) :
    p.get? α off = some (p.get α off) := by
  rw [get?, if_pos h]

theorem put?_eq_some {v : α} (h : off + FixedSize.size α ≤ kPageSize) :
    p.put? off v = some (p.put off v) := by
  rw [put?, if_pos h]

theorem putBytes?_eq_some (h : off + bs.length ≤ kPageSize) :
    p.putBytes? off bs = some (p.putBytes off bs) := by
  rw [putBytes?, if_pos h]

theorem bytes?_eq_some (h : off + n ≤ kPageSize) :
    p.bytes? off n = some (p.bytes off n) := by
  rw [bytes?, if_pos h]

theorem length_bytes (h : off + n ≤ kPageSize) :
    (p.bytes off n).length = n :=
  length_slice (by rw [p.size_eq]; exact h)

end Page

end MiniDB
