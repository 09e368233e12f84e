import Mathlib.Data.List.Basic
import Mathlib.Data.List.Perm.Basic

/-!
Lists gathered by a key: for each key in turn, the entries that have it. What is gathered are the
entries of the list (`perm_flatMap_filter`), and the list itself where it is in the order of its
keys (`eq_flatMap_filter`).
-/

namespace LoosePatch

variable {β κ : Type}

/-- The entries left when those of the first key are taken have one of the other keys. -/
theorem key_mem_of_not_first [DecidableEq κ] {key : β → κ} {k : κ} {keys : List κ} {xs : List β}
    (hall : ∀ x ∈ xs, key x ∈ k :: keys) :
    ∀ x ∈ xs.filter fun x => !decide (key x = k), key x ∈ keys := by
  intro x hx
  obtain ⟨hx, hne⟩ := List.mem_filter.mp hx
  exact (List.mem_cons.mp (hall x hx)).resolve_left (by simpa using hne)

/-- Gathering takes the entries of the first key and gathers what is left by the others. -/
theorem flatMap_filter_cons [DecidableEq κ] {key : β → κ} {k : κ} {keys : List κ} {xs : List β}
    (hk : k ∉ keys) :
    ((k :: keys).flatMap fun k' => xs.filter (key · = k')) = xs.filter (key · = k) ++
      keys.flatMap fun k' => (xs.filter fun x => !decide (key x = k)).filter (key · = k') := by
  have hsame : ∀ k' ∈ keys, (xs.filter fun x => !decide (key x = k)).filter (key · = k') =
      xs.filter (key · = k') := by
    intro k' hk'
    have hne : k' ≠ k := fun heq => hk (heq ▸ hk')
    rw [List.filter_filter]
    refine List.filter_congr fun x _ => ?_
    by_cases hx : key x = k' <;> simp [hx, hne]
  rw [List.flatMap_cons, List.flatMap_congr hsame]

/-- Elements gathered by their keys are the same elements. -/
theorem perm_flatMap_filter [DecidableEq κ] {key : β → κ} {keys : List κ} {xs : List β}
    (hnodup : keys.Nodup) (hall : ∀ x ∈ xs, key x ∈ keys) :
    (keys.flatMap fun k => xs.filter (key · = k)).Perm xs := by
  induction keys generalizing xs with
  | nil =>
    rw [List.eq_nil_iff_forall_not_mem.mpr fun x hx => List.not_mem_nil (hall x hx)]
    exact .nil
  | cons k keys ih =>
    obtain ⟨hk, hnodup⟩ := List.nodup_cons.mp hnodup
    rw [flatMap_filter_cons hk]
    exact ((ih hnodup (key_mem_of_not_first hall)).append_left _).trans
      (List.filter_append_perm _ xs)

/-- A list in which the entries of a kind come before all others. -/
theorem eq_filter_append {p : β → Bool} {xs : List β}
    (h : xs.Pairwise fun x y => p y = true → p x = true) :
    xs = xs.filter p ++ xs.filter fun x => !p x := by
  induction xs with
  | nil => rfl
  | cons x xs ih =>
    obtain ⟨hx, hxs⟩ := List.pairwise_cons.mp h
    by_cases hp : p x = true
    · rw [List.filter_cons_of_pos hp, List.filter_cons_of_neg (by simp [hp]), List.cons_append, ← ih hxs]
    · have hnone : xs.filter p = [] := List.filter_eq_nil_iff.mpr fun y hy hpy => hp (hx y hy hpy)
      rw [List.filter_cons_of_neg hp, List.filter_cons_of_pos (by simpa using hp), hnone,
        List.nil_append, List.filter_eq_self.mpr]
      intro y hy
      simpa using fun hpy => hp (hx y hy hpy)

/-- A list in the order of a key is put together from the entries of each key. -/
theorem eq_flatMap_filter {key : β → Nat} {keys : List Nat} {xs : List β}
    (hkeys : keys.Pairwise (· < ·)) (hall : ∀ x ∈ xs, key x ∈ keys)
    (hxs : xs.Pairwise fun x y => key x ≤ key y) :
    xs = keys.flatMap fun k => xs.filter (key · = k) := by
  induction keys generalizing xs with
  | nil => exact List.eq_nil_iff_forall_not_mem.mpr fun x hx => List.not_mem_nil (hall x hx)
  | cons k keys ih =>
    obtain ⟨hk, hkeys⟩ := List.pairwise_cons.mp hkeys
    have hfirst : xs = xs.filter (key · = k) ++ xs.filter fun x => !decide (key x = k) := by
      refine eq_filter_append (hxs.imp_of_mem fun {x y} hx _ hle hy => ?_)
      have hy' : key y = k := by simpa using hy
      rcases List.mem_cons.mp (hall x hx) with heq | hmem
      · simpa using heq
      · have hlt := hk _ hmem
        omega
    rw [flatMap_filter_cons fun hmem => Nat.lt_irrefl k (hk k hmem),
      ← ih hkeys (key_mem_of_not_first hall) (hxs.filter _)]
    exact hfirst

end LoosePatch
