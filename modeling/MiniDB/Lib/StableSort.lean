import Mathlib.Data.List.Basic
import Mathlib.Order.Lattice

/-!
# Stable sorting with a comparator

A comparator `lt` says which of two elements comes first.  A sort needs it to be a strict weak
order, which is asked for on the elements that satisfy `P` only: a comparator over a type with many
kinds of values need not be one on the whole type.  The sort is `List.mergeSort` with "not after" as the
relation.  `pairwise_mergeSort_on` says that its result is in order, and `filter_mergeSort_on` that
it is stable: elements of which none comes before another stay as they are.
-/

namespace MiniDB.Sorting

variable {α β : Type} {P : α → Prop} {lt : α → α → Bool}

/-- `lt` is a strict weak order on the elements that satisfy `P`. -/
structure StrictWeakOrderOn (P : α → Prop) (lt : α → α → Bool) : Prop where
  irrefl : ∀ a, P a → lt a a = false
  trans : ∀ a b c, P a → P b → P c → lt a b = true → lt b c = true → lt a c = true
  /-- being incomparable is transitive -/
  ties : ∀ a b c, P a → P b → P c → lt a b = false → lt b a = false → lt b c = false →
    lt c b = false → lt a c = false ∧ lt c a = false

/-- A comparator that compares ranks in a linear order. -/
theorem StrictWeakOrderOn.of_rank [LinearOrder β] (rank : α → β)
    (h : ∀ a b, P a → P b → (lt a b = true ↔ rank a < rank b)) : StrictWeakOrderOn P lt where
  irrefl a ha := by
    rw [← Bool.not_eq_true, h a a ha ha]
    exact lt_irrefl _
  trans a b c ha hb hc hab hbc := by
    rw [h a c ha hc]
    exact ((h a b ha hb).mp hab).trans ((h b c hb hc).mp hbc)
  ties a b c ha hb hc hab hba hbc hcb := by
    rw [← Bool.not_eq_true, h _ _ ‹_› ‹_›, not_lt] at *
    rw [← Bool.not_eq_true, h _ _ hc ha, not_lt]
    exact ⟨hbc.trans hab, hba.trans hcb⟩

namespace StrictWeakOrderOn

theorem asymm (h : StrictWeakOrderOn P lt) {a b : α} (ha : P a) (hb : P b) (hab : lt a b = true) :
    lt b a = false := by
  rw [← Bool.not_eq_true]
  intro hba
  have haa := h.trans a b a ha hb ha hab hba
  rw [h.irrefl a ha] at haa
  cases haa

/-- "Not after" is transitive. -/
theorem not_after_trans (h : StrictWeakOrderOn P lt) {a b c : α} (ha : P a) (hb : P b) (hc : P c)
    (hab : lt b a = false) (hbc : lt c b = false) : lt c a = false := by
  rw [← Bool.not_eq_true]
  intro hca
  cases hab' : lt a b with
  | true =>
    rw [h.trans c a b hc ha hb hca hab'] at hbc
    cases hbc
  | false =>
    cases hbc' : lt b c with
    | true =>
      rw [h.trans b c a hb hc ha hbc' hca] at hab
      cases hab
    | false =>
      rw [(h.ties a b c ha hb hc hab' hab hbc' hbc).2] at hca
      cases hca

/-- On the elements that satisfy `P` the sort is one by a total preorder. -/
theorem mergeSort_eq (l : List α) (hl : ∀ a ∈ l, P a) :
    (l.mergeSort fun a b => !lt b a)
      = ((l.attachWith P hl).mergeSort fun a b => !lt b.1 a.1).map Subtype.val := by
  have hval : (l.attachWith P hl).map Subtype.val = l := List.attachWith_map_subtype_val hl
  rw [List.map_mergeSort (s := fun a b => !lt b a) fun _ _ _ _ => rfl, hval]

theorem not_after_subtype (h : StrictWeakOrderOn P lt) :
    (∀ a b c : Subtype P, (!lt b.1 a.1) = true → (!lt c.1 b.1) = true → (!lt c.1 a.1) = true) ∧
      ∀ a b : Subtype P, ((!lt b.1 a.1) || !lt a.1 b.1) = true := by
  refine ⟨fun a b c hab hbc => ?_, fun a b => ?_⟩
  · rw [Bool.not_eq_true'] at hab hbc ⊢
    exact h.not_after_trans a.2 b.2 c.2 hab hbc
  · cases hab : lt a.1 b.1 with
    | true => rw [h.asymm a.2 b.2 hab]; rfl
    | false => exact Bool.or_true _

/-- **The result of the sort is in order.** -/
theorem pairwise_mergeSort_on (h : StrictWeakOrderOn P lt) {l : List α} (hl : ∀ a ∈ l, P a) :
    (l.mergeSort fun a b => !lt b a).Pairwise fun a b => lt b a = false := by
  obtain ⟨htrans, htotal⟩ := h.not_after_subtype
  rw [mergeSort_eq l hl, List.pairwise_map]
  exact (List.pairwise_mergeSort htrans htotal _).imp fun hab => by simpa using hab

/-- **The sort is stable**: elements of which none comes before another keep their order. -/
theorem filter_mergeSort_on (h : StrictWeakOrderOn P lt) {l : List α} (hl : ∀ a ∈ l, P a)
    {p : α → Bool} (hp : ∀ a ∈ l, ∀ b ∈ l, p a → p b → lt a b = false) :
    (l.mergeSort fun a b => !lt b a).filter p = l.filter p := by
  obtain ⟨htrans, htotal⟩ := h.not_after_subtype
  -- the elements that are kept are in order, so they are a sublist of the result
  have hsub : (l.filter p).Sublist (l.mergeSort fun a b => !lt b a) := by
    have hsorted : ((l.attachWith P hl).filter fun a => p a.1).Pairwise
        fun a b => (!lt b.1 a.1) = true := by
      refine List.pairwise_of_forall_mem_list fun a ha b hb => ?_
      obtain ⟨ha, hpa⟩ := List.mem_filter.mp ha
      obtain ⟨hb, hpb⟩ := List.mem_filter.mp hb
      rw [hp b.1 ?_ a.1 ?_ hpb hpa]
      · rfl
      · simpa using hb
      · simpa using ha
    have hkept := List.sublist_mergeSort htrans htotal hsorted List.filter_sublist
    have hval := hkept.map Subtype.val
    rw [← mergeSort_eq l hl] at hval
    convert hval using 1
    rw [show (fun a : Subtype P => p a.1) = p ∘ Subtype.val from rfl, ← List.filter_map,
      List.attachWith_map_subtype_val]
  -- there are as many of them in the result as in the list
  have hlen : (l.filter p).length = ((l.mergeSort fun a b => !lt b a).filter p).length :=
    ((List.mergeSort_perm l _).filter p).length_eq.symm
  have hsub' : (l.filter p).Sublist ((l.mergeSort fun a b => !lt b a).filter p) := by
    have := hsub.filter p
    rwa [List.filter_filter, show (fun a => p a && p a) = p from funext fun a => Bool.and_self _]
      at this
  exact (hsub'.eq_of_length hlen).symm

end StrictWeakOrderOn

end MiniDB.Sorting
