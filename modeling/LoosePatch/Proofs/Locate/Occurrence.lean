import LoosePatch.Locate.Sequence

/-!
Where runs of lines stand in a file. `StandsAt` says that a pattern stands at a line under some
reading of lines, `OccursAt` that it stands there byte for byte; `equalPlaces` lists exactly these
places, in file order.
-/

namespace LoosePatch

/-- The lines of `pattern` stand in `lines` from line `i` on, up to a reading of lines. -/
def StandsAt (reading : Text → Text) (lines pattern : List Text) (i : Nat) : Prop :=
  pattern.map reading <+: (lines.map reading).drop i

/-- The lines of `pattern` stand in `lines` from line `i` on, byte for byte. -/
abbrev OccursAt (lines pattern : List Text) (i : Nat) : Prop := StandsAt id lines pattern i

theorem occursAt_iff (lines pattern : List Text) (i : Nat) :
    OccursAt lines pattern i ↔ pattern <+: lines.drop i := by
  simp only [OccursAt, StandsAt, List.map_id]

instance (lines pattern : List Text) (i : Nat) : Decidable (OccursAt lines pattern i) :=
  decidable_of_iff _ (occursAt_iff lines pattern i).symm

namespace StandsAt

variable {reading : Text → Text} {lines pattern : List Text} {i : Nat}

theorem length_le (h : StandsAt reading lines pattern i) (hne : pattern ≠ []) :
    i + pattern.length ≤ lines.length := by
  have hlen := List.IsPrefix.length_le h
  have hpos := List.length_pos_iff.mpr hne
  simp only [List.length_map, List.length_drop] at hlen
  omega

/-- Every line of the pattern has its line of the file. -/
theorem getElem? (h : StandsAt reading lines pattern i) {k : Nat} {expected : Text}
    (hk : pattern[k]? = some expected) :
    ∃ actual, lines[i + k]? = some actual ∧ reading expected = reading actual := by
  obtain ⟨after, hafter⟩ := h
  have hline : ((lines.map reading).drop i)[k]? = some (reading expected) := by
    rw [← hafter, List.getElem?_append_left, List.getElem?_map, hk]
    · rfl
    · simpa using (List.getElem?_eq_some_iff.mp hk).1
  rw [List.getElem?_drop, List.getElem?_map, Option.map_eq_some_iff] at hline
  obtain ⟨actual, hactual, hread⟩ := hline
  exact ⟨actual, hactual, hread.symm⟩

theorem imp {weaker : Text → Text} (h : StandsAt reading lines pattern i)
    (hw : ∀ a b, reading a = reading b → weaker a = weaker b) (hne : pattern ≠ []) :
    StandsAt weaker lines pattern i := by
  have hlen := h.length_le hne
  refine List.prefix_iff_eq_take.mpr (List.ext_getElem? fun k => ?_)
  rw [List.getElem?_take, List.getElem?_drop, List.getElem?_map, List.getElem?_map]
  by_cases hk : k < pattern.length
  · obtain ⟨actual, hactual, hread⟩ := h.getElem? (List.getElem?_eq_getElem hk)
    rw [if_pos (by simpa using hk), hactual, List.getElem?_eq_getElem hk]
    exact congrArg some (hw _ _ hread)
  · rw [if_neg (by simpa using hk), List.getElem?_eq_none (by omega)]
    rfl

end StandsAt

namespace Sequence

/-! ## Scans -/

variable {β : Type}

theorem mem_scan (f : List Text → Option β) (first : Nat) (lines : List Text) (i : Nat) (b : β) :
    (i, b) ∈ scan f first lines ↔
      first ≤ i ∧ i < first + lines.length ∧ f (lines.drop (i - first)) = some b := by
  induction lines generalizing first with
  | nil => simp only [scan, List.not_mem_nil, List.length_nil, false_iff]; omega
  | cons line rest ih =>
    have later : first + 1 ≤ i → (line :: rest).drop (i - first) = rest.drop (i - (first + 1)) := by
      intro hi
      rw [show i - first = i - (first + 1) + 1 by omega, List.drop_succ_cons]
    have step : (i, b) ∈ scan f (first + 1) rest ↔
        first + 1 ≤ i ∧ i < first + (line :: rest).length ∧
          f ((line :: rest).drop (i - first)) = some b := by
      rw [ih, List.length_cons]
      constructor
      · rintro ⟨h1, h2, h3⟩
        exact ⟨h1, by omega, by rwa [later h1]⟩
      · rintro ⟨h1, h2, h3⟩
        exact ⟨h1, by omega, by rwa [← later h1]⟩
    simp only [scan]
    split
    · rename_i c hc
      rw [List.mem_cons, step, Prod.mk.injEq]
      constructor
      · rintro (⟨rfl, rfl⟩ | ⟨h1, h2, h3⟩)
        · exact ⟨by omega, by simp, by simpa using hc⟩
        · exact ⟨by omega, h2, h3⟩
      · rintro ⟨h1, h2, h3⟩
        by_cases he : i = first
        · subst he
          rw [Nat.sub_self, List.drop_zero, hc] at h3
          exact Or.inl ⟨rfl, (Option.some.inj h3).symm⟩
        · exact Or.inr ⟨by omega, h2, h3⟩
    · rename_i hc
      rw [step]
      constructor
      · rintro ⟨h1, h2, h3⟩
        exact ⟨by omega, h2, h3⟩
      · rintro ⟨h1, h2, h3⟩
        have he : i ≠ first := by
          rintro rfl
          rw [Nat.sub_self, List.drop_zero, hc] at h3
          cases h3
        exact ⟨by omega, h2, h3⟩

theorem scan_sorted (f : List Text → Option β) (first : Nat) (lines : List Text) :
    (scan f first lines).Pairwise (fun x y => x.1 < y.1) := by
  induction lines generalizing first with
  | nil => exact List.Pairwise.nil
  | cons line rest ih =>
    simp only [scan]
    split
    · refine List.pairwise_cons.mpr ⟨fun y hy => ?_, ih _⟩
      have hmem := (mem_scan f (first + 1) rest y.1 y.2).mp hy
      exact Nat.lt_of_succ_le hmem.1
    · exact ih _

theorem mem_scanFrom (f : List Text → Option β) (lines : List Text) (start i : Nat) (b : β) :
    (i, b) ∈ scanFrom f lines start ↔
      start ≤ i ∧ i < lines.length ∧ f (lines.drop i) = some b := by
  rw [scanFrom, mem_scan, List.length_drop, List.drop_drop]
  constructor
  · rintro ⟨h1, h2, h3⟩
    exact ⟨h1, by omega, by rwa [Nat.add_sub_cancel' h1] at h3⟩
  · rintro ⟨h1, h2, h3⟩
    exact ⟨h1, by omega, by rwa [Nat.add_sub_cancel' h1]⟩

theorem scanFrom_sorted (f : List Text → Option β) (lines : List Text) (start : Nat) :
    (scanFrom f lines start).Pairwise (fun x y => x.1 < y.1) :=
  scan_sorted f start _

/-! ## Places of equal lines -/

theorem mem_equalPlaces (reading : Text → Text) (lines pattern : List Text) (start i : Nat)
    (hne : pattern ≠ []) :
    i ∈ equalPlaces reading lines pattern start ↔
      start ≤ i ∧ StandsAt reading lines pattern i := by
  simp only [equalPlaces, List.mem_map, Prod.exists, exists_and_right, exists_eq_right,
    mem_scanFrom, List.length_map, Option.ite_none_right_eq_some, and_true, exists_const,
    List.isPrefixOf_iff_prefix]
  constructor
  · rintro ⟨h1, _, h2⟩
    exact ⟨h1, h2⟩
  · rintro ⟨h1, h2⟩
    have hlen := StandsAt.length_le h2 hne
    have hpos := List.length_pos_iff.mpr hne
    exact ⟨h1, by omega, h2⟩

theorem equalPlaces_sorted (reading : Text → Text) (lines pattern : List Text) (start : Nat) :
    (equalPlaces reading lines pattern start).Pairwise (· < ·) :=
  List.pairwise_map.mpr (scanFrom_sorted _ _ _)

theorem equalPlaces_of_unique {lines pattern : List Text} {s : Nat} (hne : pattern ≠ [])
    (h : OccursAt lines pattern s) (hunique : ∀ i, OccursAt lines pattern i → i = s) :
    equalPlaces id lines pattern 0 = [s] := by
  have hsorted := equalPlaces_sorted id lines pattern 0
  have hmem := (mem_equalPlaces id lines pattern 0 s hne).mpr ⟨Nat.zero_le s, h⟩
  have hall : ∀ i ∈ equalPlaces id lines pattern 0, i = s := fun i hi =>
    hunique i ((mem_equalPlaces id lines pattern 0 i hne).mp hi).2
  match hplaces : equalPlaces id lines pattern 0 with
  | [] =>
    rw [hplaces] at hmem
    cases hmem
  | [i] => rw [hall i (by rw [hplaces]; exact List.mem_cons_self)]
  | i :: j :: others =>
    rw [hplaces] at hsorted hall
    have hlt : i < j := List.rel_of_pairwise_cons hsorted List.mem_cons_self
    have hi := hall i (by simp)
    have hj := hall j (by simp)
    omega

end Sequence
end LoosePatch
