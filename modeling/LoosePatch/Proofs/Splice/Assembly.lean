import LoosePatch.Splice.Apply
import Mathlib.Data.List.Forall2

/-!
Splices that do not meet. Made from the bottom up, none moves the lines of another, so that the
result can be read from the top down: the lines between the splices with the replacements in place
of the rest (`spliceAll_eq_assemble`).
-/

namespace LoosePatch

variable {β γ : Type}

/-- A range of lines and what takes its place, whatever lines are. -/
structure Region (β : Type) where
  start : Nat
  stop : Nat
  body : List β

/-- Regions one below the other, from line `cursor` to the end of a file of `n` lines. -/
inductive Stacked (n : Nat) : Nat → List (Region β) → Prop
  | nil {cursor : Nat} : cursor ≤ n → Stacked n cursor []
  | cons {cursor : Nat} {r : Region β} {rs : List (Region β)} : cursor ≤ r.start →
      r.start ≤ r.stop → Stacked n r.stop rs → Stacked n cursor (r :: rs)

/-- The lines from `cursor` on with the bodies of regions in place of their ranges. -/
def assemble (lines : List β) : (cursor : Nat) → List (Region β) → List β
  | cursor, [] => lines.drop cursor
  | cursor, r :: rs => Splice.slice lines cursor r.start ++ r.body ++ assemble lines r.stop rs

def Splice.region (s : Splice) : Region Text := ⟨s.start, s.stop, s.replacement⟩

namespace Stacked

variable {n cursor : Nat}

theorem cursor_le {rs : List (Region β)} (h : Stacked n cursor rs) : cursor ≤ n := by
  induction h with
  | nil hle => exact hle
  | cons hstart hstop _ ih => exact Nat.le_trans (Nat.le_trans hstart hstop) ih

theorem of_pairwise {rs : List (Region β)} (hcursor : cursor ≤ n)
    (hin : ∀ r ∈ rs, cursor ≤ r.start ∧ r.start ≤ r.stop ∧ r.stop ≤ n)
    (hrs : rs.Pairwise fun r r' => r.stop ≤ r'.start) : Stacked n cursor rs := by
  induction rs generalizing cursor with
  | nil => exact .nil hcursor
  | cons r rs ih =>
    obtain ⟨hstart, hstop, hle⟩ := hin r List.mem_cons_self
    obtain ⟨hbelow, hrs⟩ := List.pairwise_cons.mp hrs
    refine .cons hstart hstop (ih hle (fun r' hr' => ?_) hrs)
    exact ⟨hbelow r' hr', (hin r' (List.mem_cons_of_mem r hr')).2⟩

theorem mono {m : Nat} {rs : List (Region β)} (h : Stacked n cursor rs) (hle : n ≤ m) :
    Stacked m cursor rs := by
  induction h with
  | nil hcursor => exact .nil (Nat.le_trans hcursor hle)
  | cons hstart hstop _ ih => exact .cons hstart hstop ih

theorem bounds {rs : List (Region β)} (h : Stacked n cursor rs) {r : Region β} (hr : r ∈ rs) :
    cursor ≤ r.start ∧ r.start ≤ r.stop ∧ r.stop ≤ n := by
  induction h with
  | nil => cases hr
  | cons hstart hstop hrest ih =>
    rcases List.mem_cons.mp hr with rfl | hr
    · exact ⟨hstart, hstop, hrest.cursor_le⟩
    · obtain ⟨hcursor, hbounds⟩ := ih hr
      exact ⟨by omega, hbounds⟩

theorem congr {rs : List (Region β)} {rs' : List (Region γ)} (h : Stacked n cursor rs)
    (hsame : List.Forall₂ (fun r r' => r.start = r'.start ∧ r.stop = r'.stop) rs rs') :
    Stacked n cursor rs' := by
  induction h generalizing rs' with
  | nil hcursor =>
    cases hsame
    exact .nil hcursor
  | cons hstart hstop _ ih =>
    cases hsame with
    | cons hr hrest =>
      rw [hr.1] at hstart hstop
      rw [hr.2] at hstop ih
      exact .cons hstart hstop (ih hrest)

end Stacked

/-- Regions of the lines in front leave what follows these. -/
theorem assemble_append {lines tail : List β} {cursor : Nat} {rs : List (Region β)}
    (h : Stacked lines.length cursor rs) :
    assemble (lines ++ tail) cursor rs = assemble lines cursor rs ++ tail := by
  induction rs generalizing cursor with
  | nil => exact List.drop_append_of_le_length h.cursor_le
  | cons r rs ih =>
    cases h with
    | cons hstart hstop hrest =>
      have hlength := Nat.le_trans hstop hrest.cursor_le
      rw [assemble, assemble, ih hrest, Splice.slice, Splice.slice,
        List.take_append_of_le_length hlength]
      simp only [List.append_assoc]

/-! ## From the bottom up -/

theorem foldr_apply {lines : List Text} {cursor : Nat} {splices : List Splice}
    (h : Stacked lines.length cursor (splices.map Splice.region)) :
    splices.foldr (fun s ls => s.apply ls) lines =
      lines.take cursor ++ assemble lines cursor (splices.map Splice.region) := by
  induction splices generalizing cursor with
  | nil =>
    rw [List.foldr_nil, List.map_nil, assemble]
    exact (List.take_append_drop cursor lines).symm
  | cons s splices ih =>
    rw [List.map_cons] at h
    cases h with
    | cons hstart hstop hrest =>
      have hstart : cursor ≤ s.start := hstart
      have hstop : s.start ≤ s.stop := hstop
      have hlen : (lines.take s.stop).length = s.stop := List.length_take_of_le hrest.cursor_le
      have hfront : (lines.take s.stop).take s.start = lines.take s.start := by
        rw [List.take_take, Nat.min_eq_left hstop]
      have hslice : lines.take cursor ++ Splice.slice lines cursor s.start =
          lines.take s.start := by
        rw [← List.take_append_drop cursor (lines.take s.start), List.take_take,
          Nat.min_eq_left hstart]
        rfl
      have hbelow := ih hrest
      change _ = lines.take s.stop ++ _ at hbelow
      rw [List.foldr_cons, hbelow, Splice.apply, Nat.max_eq_right hstop,
        List.take_append_of_le_length (by rw [hlen]; exact hstop), hfront, List.drop_left' hlen,
        List.map_cons, assemble, ← List.append_assoc, ← List.append_assoc]
      exact congrArg (· ++ _) (congrArg (· ++ _) hslice.symm)

/-! ## In the order of the file -/

/-- Neither of two splices reaches into the other. -/
def NumberedSplice.Apart (x y : NumberedSplice) : Prop := x.2.stop ≤ y.2.start ∨ y.2.stop ≤ x.2.start

namespace NumberedSplice

theorem ge_total (x y : NumberedSplice) : (ge x y || ge y x) = true := by
  simp only [ge, Bool.or_eq_true, Bool.and_eq_true, decide_eq_true_eq, beq_iff_eq]
  omega

theorem ge_trans (x y z : NumberedSplice) (hxy : ge x y = true) (hyz : ge y z = true) :
    ge x z = true := by
  simp only [ge, Bool.or_eq_true, Bool.and_eq_true, decide_eq_true_eq, beq_iff_eq] at *
  omega

/-- Of two splices apart, the one that is made first is below the other. -/
theorem Apart.below {x y : NumberedSplice} (h : Apart x y) (hge : ge x y = true)
    (hx : x.2.start ≤ x.2.stop) : y.2.stop ≤ x.2.start := by
  simp only [ge, Bool.or_eq_true, Bool.and_eq_true, decide_eq_true_eq, beq_iff_eq] at hge
  rcases h with h | h <;> omega

end NumberedSplice

/-- Splices that are apart leave what stands between them in place. -/
theorem spliceAll_eq_assemble {lines : List Text} {splices : List NumberedSplice}
    (hin : ∀ z ∈ splices, z.2.start ≤ z.2.stop ∧ z.2.stop ≤ lines.length)
    (hapart : splices.Pairwise NumberedSplice.Apart) :
    ∃ sorted : List NumberedSplice, sorted.Perm splices ∧
      sorted.Pairwise (fun x y => NumberedSplice.ge y x = true) ∧
      Stacked lines.length 0 (sorted.map (·.2.region)) ∧
      spliceAll lines splices = assemble lines 0 (sorted.map (·.2.region)) := by
  let descending := splices.mergeSort NumberedSplice.ge
  have hperm : descending.Perm splices := List.mergeSort_perm _ _
  have hge : descending.Pairwise fun x y => NumberedSplice.ge x y = true :=
    List.pairwise_mergeSort NumberedSplice.ge_trans NumberedSplice.ge_total splices
  have hbelow : descending.Pairwise fun x y => y.2.stop ≤ x.2.start := by
    have hapart' := hperm.symm.pairwise hapart fun h => Or.symm h
    refine (hge.and hapart').imp_of_mem fun hx _ h => ?_
    exact h.2.below h.1 (hin _ (hperm.mem_iff.mp hx)).1
  have hstacked : Stacked lines.length 0 (descending.reverse.map (·.2.region)) := by
    refine Stacked.of_pairwise (Nat.zero_le _) ?_ ?_
    · intro r hr
      obtain ⟨z, hz, rfl⟩ := List.mem_map.mp hr
      have hz' := hin z (hperm.mem_iff.mp (List.mem_reverse.mp hz))
      exact ⟨Nat.zero_le _, hz'⟩
    · exact List.pairwise_map.mpr (List.pairwise_reverse.mpr hbelow)
  refine ⟨descending.reverse, (List.reverse_perm _).trans hperm, List.pairwise_reverse.mpr hge,
    hstacked, ?_⟩
  have hmap : descending.reverse.map (·.2.region) =
      (descending.reverse.map Prod.snd).map Splice.region := by
    rw [List.map_map]
    rfl
  rw [hmap] at hstacked ⊢
  have hfold := foldr_apply hstacked
  rw [List.take_zero, List.nil_append] at hfold
  rw [spliceAll, ← List.foldr_reverse, ← List.map_reverse]
  exact hfold

/-! ## Whatever lines are -/

/-- Assembling only moves lines. -/
theorem assemble_forall₂ {R : β → γ → Prop} {lines : List β} {lines' : List γ} {cursor : Nat}
    {rs : List (Region β)} {rs' : List (Region γ)} (hlines : List.Forall₂ R lines lines')
    (hrs : List.Forall₂ (fun r r' => r.start = r'.start ∧ r.stop = r'.stop ∧
      List.Forall₂ R r.body r'.body) rs rs') :
    List.Forall₂ R (assemble lines cursor rs) (assemble lines' cursor rs') := by
  induction hrs generalizing cursor with
  | nil => exact List.forall₂_drop cursor hlines
  | @cons r r' rs rs' hr _ ih =>
    obtain ⟨hstart, hstop, hbody⟩ := hr
    rw [assemble, assemble, hstart, hstop]
    exact List.rel_append (List.rel_append
      (List.forall₂_drop cursor (List.forall₂_take _ hlines)) hbody) ih

end LoosePatch
