import LoosePatch.Proofs.Gathered
import LoosePatch.Proofs.Splice.Assembly
import Mathlib.Data.Finset.Sort
import Mathlib.Data.Prod.Lex

/-!
Splices by their ranges. Splices that are apart have a range in common only if it is empty; then
their lines stand there one after the other, in the order of the splices (`spliceAll_numbered`).
-/

namespace LoosePatch

/-- The range of a splice. Ranges are in the order of the file: by start, then by end. -/
def Splice.range (s : Splice) : Nat ×ₗ Nat := toLex (s.start, s.stop)

/-- Neither of two splices reaches into the other. -/
def Splice.Apart (s t : Splice) : Prop := s.stop ≤ t.start ∨ t.stop ≤ s.start

instance : Std.Symm Splice.Apart := ⟨fun _ _ h => Or.symm h⟩

/-- Splices numbered in their order from 1 on. -/
def numbered (splices : List Splice) : List NumberedSplice :=
  (List.range' 1 splices.length).zip splices

/-- The splices of one range, in their order. -/
def groupAt (splices : List Splice) (range : Nat ×ₗ Nat) : List Splice :=
  splices.filter (·.range = range)

/-- The ranges of splices in the order of the file, each of them once. -/
def ranges (splices : List Splice) : List (Nat ×ₗ Nat) :=
  (splices.map Splice.range).toFinset.sort (· ≤ ·)

/-- All splices of one range as one region. -/
def layer (splices : List Splice) (range : Nat ×ₗ Nat) : Region Text :=
  ⟨(ofLex range).1, (ofLex range).2, (groupAt splices range).flatMap Splice.replacement⟩

variable {lines : List Text} {splices : List Splice} {cursor : Nat} {range : Nat ×ₗ Nat}

theorem numbered_map_fst (splices : List Splice) :
    (numbered splices).map Prod.fst = List.range' 1 splices.length :=
  List.map_fst_zip (by rw [List.length_range'])

theorem numbered_map_snd (splices : List Splice) : (numbered splices).map Prod.snd = splices :=
  List.map_snd_zip (by rw [List.length_range'])

theorem pairwise_apart_numbered :
    (numbered splices).Pairwise NumberedSplice.Apart ↔ splices.Pairwise Splice.Apart := by
  conv_rhs => rw [← numbered_map_snd splices, List.pairwise_map]
  rfl

theorem mem_groupAt {s : Splice} : s ∈ groupAt splices range ↔ s ∈ splices ∧ s.range = range := by
  simp [groupAt]

theorem mem_ranges : range ∈ ranges splices ↔ ∃ s ∈ splices, s.range = range := by
  simp [ranges]

theorem ranges_lt (splices : List Splice) : (ranges splices).Pairwise (· < ·) :=
  (Finset.sortedLT_sort _).pairwise

theorem ranges_of_perm {splices' : List Splice} (h : splices.Perm splices') :
    ranges splices = ranges splices' := by
  rw [ranges, ranges, List.toFinset_eq_of_perm _ _ (h.map Splice.range)]

theorem Splice.range_eq_iff {s : Splice} :
    s.range = range ↔ s.start = (ofLex range).1 ∧ s.stop = (ofLex range).2 := by
  rw [← ofLex_inj, Prod.ext_iff]
  rfl

/-- A range that is not empty has one splice. -/
theorem groupAt_eq_singleton (hapart : splices.Pairwise Splice.Apart)
    (hrange : (ofLex range).1 < (ofLex range).2) (hmem : range ∈ ranges splices) :
    ∃ s, groupAt splices range = [s] := by
  have hgroup : (groupAt splices range).Pairwise Splice.Apart := hapart.filter _
  have hsame {s : Splice} (hs : s ∈ groupAt splices range) :=
    Splice.range_eq_iff.mp (mem_groupAt.mp hs).2
  obtain ⟨s, hs, hsrange⟩ := mem_ranges.mp hmem
  have hs' : s ∈ groupAt splices range := mem_groupAt.mpr ⟨hs, hsrange⟩
  cases hcase : groupAt splices range with
  | nil =>
    rw [hcase] at hs'
    cases hs'
  | cons a rest =>
    cases rest with
    | nil => exact ⟨a, rfl⟩
    | cons b rest =>
      rw [hcase] at hgroup hsame
      have ha := hsame List.mem_cons_self
      have hb := hsame (List.mem_cons_of_mem a List.mem_cons_self)
      have hab := List.rel_of_pairwise_cons hgroup (List.mem_cons_self (a := b))
      rw [Splice.Apart] at hab
      omega

/-! ## One group -/

theorem assemble_insertions {group : List Splice} {rest : List (Region Text)} {place : Nat}
    (hgroup : ∀ s ∈ group, s.start = place ∧ s.stop = place) :
    assemble lines place (group.map Splice.region ++ rest) =
      group.flatMap Splice.replacement ++ assemble lines place rest := by
  induction group with
  | nil => rfl
  | cons s group ih =>
    obtain ⟨⟨hstart, hstop⟩, hgroup⟩ := List.forall_mem_cons.mp hgroup
    have hslice : Splice.slice lines place s.start = [] := by
      rw [hstart]
      exact List.drop_take_self
    have hnext : assemble lines s.stop (group.map Splice.region ++ rest) =
        group.flatMap Splice.replacement ++ assemble lines place rest := by
      rw [hstop]
      exact ih hgroup
    rw [List.map_cons, List.cons_append, List.flatMap_cons, List.append_assoc, ← hnext]
    show Splice.slice lines place s.start ++ s.replacement ++ _ = _
    rw [hslice, List.nil_append]
    rfl

/-- Splices of one range are one region. -/
theorem assemble_group {group : List Splice} {rest : List (Region Text)} (hne : group ≠ [])
    (hgroup : ∀ s ∈ group, s.range = range)
    (hsingle : (ofLex range).1 = (ofLex range).2 ∨ ∃ s, group = [s]) :
    assemble lines cursor (group.map Splice.region ++ rest) =
      assemble lines cursor
        (⟨(ofLex range).1, (ofLex range).2, group.flatMap Splice.replacement⟩ :: rest) := by
  obtain ⟨s, group, rfl⟩ := List.exists_cons_of_ne_nil hne
  obtain ⟨hs, hgroup⟩ := List.forall_mem_cons.mp hgroup
  obtain ⟨hstart, hstop⟩ := Splice.range_eq_iff.mp hs
  have hnext : assemble lines s.stop (group.map Splice.region ++ rest) =
      group.flatMap Splice.replacement ++ assemble lines s.stop rest := by
    rcases hsingle with hempty | ⟨t, ht⟩
    · refine assemble_insertions fun t ht => ?_
      have ht' := Splice.range_eq_iff.mp (hgroup t ht)
      omega
    · cases ht
      rfl
  show Splice.slice lines cursor s.start ++ s.replacement ++
    assemble lines s.stop (group.map Splice.region ++ rest) =
    Splice.slice lines cursor (ofLex range).1 ++ (s :: group).flatMap Splice.replacement ++
      assemble lines (ofLex range).2 rest
  rw [hnext, ← hstart, ← hstop, List.flatMap_cons]
  simp only [List.append_assoc]

/-! ## All groups -/

/-- The splices from the top of the file down, at one range in their order. -/
def descend (splices : List Splice) : List NumberedSplice :=
  (ranges splices).flatMap fun range => (numbered splices).filter (·.2.range = range)

theorem NumberedSplice.ge_iff {x y : NumberedSplice} :
    ge y x = true ↔ x.2.range < y.2.range ∨ x.2.range = y.2.range ∧ x.1 ≤ y.1 := by
  rw [Prod.Lex.lt_iff, Splice.range_eq_iff]
  simp only [ge, Bool.or_eq_true, Bool.and_eq_true, decide_eq_true_eq, beq_iff_eq]
  show _ ↔ (x.2.start < y.2.start ∨ x.2.start = y.2.start ∧ x.2.stop < y.2.stop) ∨
    (x.2.start = y.2.start ∧ x.2.stop = y.2.stop) ∧ x.1 ≤ y.1
  omega

theorem descend_perm (splices : List Splice) : (descend splices).Perm (numbered splices) := by
  refine perm_flatMap_filter ((ranges_lt splices).imp fun h => ne_of_lt h) fun z hz => ?_
  refine mem_ranges.mpr ⟨z.2, ?_, rfl⟩
  rw [← numbered_map_snd splices]
  exact List.mem_map_of_mem hz

theorem descend_sorted (splices : List Splice) :
    (descend splices).Pairwise fun x y => NumberedSplice.ge y x = true := by
  refine List.pairwise_flatMap.mpr ⟨fun range _ => ?_, (ranges_lt splices).imp ?_⟩
  · have hnumbers : (numbered splices).Pairwise fun x y => x.1 < y.1 := by
      rw [← List.pairwise_map (f := Prod.fst), numbered_map_fst]
      exact List.pairwise_lt_range'
    refine (hnumbers.filter _).imp_of_mem fun {x y} hx hy hlt => ?_
    have hx' : x.2.range = range := of_decide_eq_true (List.mem_filter.mp hx).2
    have hy' : y.2.range = range := of_decide_eq_true (List.mem_filter.mp hy).2
    exact NumberedSplice.ge_iff.mpr (.inr ⟨hx'.trans hy'.symm, hlt.le⟩)
  · intro range range' hlt x hx y hy
    have hx' : x.2.range = range := of_decide_eq_true (List.mem_filter.mp hx).2
    have hy' : y.2.range = range' := of_decide_eq_true (List.mem_filter.mp hy).2
    exact NumberedSplice.ge_iff.mpr (.inl (hx' ▸ hy' ▸ hlt))

/-- Sorting numbered splices gives the groups one after the other. -/
theorem eq_descend {sorted : List NumberedSplice} (hperm : sorted.Perm (numbered splices))
    (hsorted : sorted.Pairwise fun x y => NumberedSplice.ge y x = true) :
    sorted = descend splices := by
  refine List.Perm.eq_of_pairwise (fun x y hx hy hyx hxy => ?_) hsorted (descend_sorted splices)
    (hperm.trans (descend_perm splices).symm)
  have hnumber : x.1 = y.1 := by
    have hyx' := NumberedSplice.ge_iff.mp hyx
    have hxy' := NumberedSplice.ge_iff.mp hxy
    rcases hyx' with hlt | ⟨heq, hle⟩
    · rcases hxy' with hgt | ⟨heq, -⟩
      · exact absurd hlt hgt.not_gt
      · exact absurd heq hlt.ne'
    · rcases hxy' with hgt | ⟨-, hge⟩
      · exact absurd heq hgt.ne'
      · exact le_antisymm hle hge
  have hnodup : ((numbered splices).map Prod.fst).Nodup := by
    rw [numbered_map_fst]
    exact List.nodup_range'
  exact List.inj_on_of_nodup_map hnodup (hperm.mem_iff.mp hx)
    ((descend_perm splices).mem_iff.mp hy) hnumber

theorem descend_map_region (splices : List Splice) :
    (descend splices).map (·.2.region) =
      ((ranges splices).flatMap (groupAt splices)).map Splice.region := by
  have hgroup (range : Nat ×ₗ Nat) :
      ((numbered splices).filter (·.2.range = range)).map Prod.snd = groupAt splices range := by
    rw [groupAt]
    conv_rhs => rw [← numbered_map_snd splices, List.filter_map]
    rfl
  have hmap : (descend splices).map (·.2.region) =
      ((descend splices).map Prod.snd).map Splice.region := by
    rw [List.map_map]
    rfl
  rw [hmap, descend, List.map_flatMap]
  simp only [hgroup]

theorem assemble_groups (hapart : splices.Pairwise Splice.Apart)
    (hin : ∀ s ∈ splices, s.start ≤ s.stop) {rs : List (Nat ×ₗ Nat)}
    (hrs : ∀ range ∈ rs, range ∈ ranges splices) :
    assemble lines cursor ((rs.flatMap (groupAt splices)).map Splice.region) =
      assemble lines cursor (rs.map (layer splices)) := by
  induction rs generalizing cursor with
  | nil => rfl
  | cons range rs ih =>
    obtain ⟨hrange, hrs⟩ := List.forall_mem_cons.mp hrs
    obtain ⟨s, hs, hsrange⟩ := mem_ranges.mp hrange
    have hne : groupAt splices range ≠ [] :=
      List.ne_nil_of_mem (mem_groupAt.mpr ⟨hs, hsrange⟩)
    have hsingle : (ofLex range).1 = (ofLex range).2 ∨ ∃ s, groupAt splices range = [s] := by
      have hle := hin s hs
      rw [Splice.range_eq_iff] at hsrange
      rcases Nat.lt_or_eq_of_le (hsrange.1 ▸ hsrange.2 ▸ hle) with hlt | heq
      · exact .inr (groupAt_eq_singleton hapart hlt hrange)
      · exact .inl heq
    rw [List.flatMap_cons, List.map_append,
      assemble_group hne (fun t ht => (mem_groupAt.mp ht).2) hsingle, List.map_cons]
    show Splice.slice lines cursor _ ++ _ ++ assemble lines _ _ = Splice.slice lines cursor _ ++ _ ++ _
    rw [ih hrs]
    rfl

theorem spliceAll_eq_descend (hin : ∀ s ∈ splices, s.start ≤ s.stop ∧ s.stop ≤ lines.length)
    (hapart : splices.Pairwise Splice.Apart) :
    spliceAll lines (numbered splices) = assemble lines 0 ((descend splices).map (·.2.region)) := by
  have hin' : ∀ z ∈ numbered splices, z.2.start ≤ z.2.stop ∧ z.2.stop ≤ lines.length := by
    intro z hz
    refine hin z.2 ?_
    rw [← numbered_map_snd splices]
    exact List.mem_map_of_mem hz
  obtain ⟨sorted, hperm, hsorted, -, hresult⟩ :=
    spliceAll_eq_assemble hin' (pairwise_apart_numbered.mpr hapart)
  rw [hresult, eq_descend hperm hsorted]

/-- Splices that are apart leave one region for each of their ranges. -/
theorem spliceAll_numbered (hin : ∀ s ∈ splices, s.start ≤ s.stop ∧ s.stop ≤ lines.length)
    (hapart : splices.Pairwise Splice.Apart) :
    spliceAll lines (numbered splices) =
      assemble lines 0 ((ranges splices).map (layer splices)) := by
  rw [spliceAll_eq_descend hin hapart, descend_map_region]
  exact assemble_groups hapart (fun s hs => (hin s hs).1) fun _ h => h

/-- Splices that come in the order of the file, with ranges of their own, leave their regions. -/
theorem spliceAll_of_ascending (hin : ∀ s ∈ splices, s.start ≤ s.stop ∧ s.stop ≤ lines.length)
    (hapart : splices.Pairwise Splice.Apart) (hasc : splices.Pairwise fun s t => s.range < t.range) :
    spliceAll lines (numbered splices) = assemble lines 0 (splices.map Splice.region) := by
  have hsorted : (numbered splices).Pairwise fun x y => NumberedSplice.ge y x = true := by
    rw [← numbered_map_snd splices, List.pairwise_map] at hasc
    exact hasc.imp fun hlt => NumberedSplice.ge_iff.mpr (.inl hlt)
  have hregions : (numbered splices).map (·.2.region) = splices.map Splice.region := by
    conv_rhs => rw [← numbered_map_snd splices, List.map_map]
    rfl
  rw [spliceAll_eq_descend hin hapart, ← eq_descend (.refl _) hsorted, hregions]

end LoosePatch
