import LoosePatch.Hunk.Basic

/-!
The edits of a hunk with their indices, and those of one kind among them.
-/

namespace LoosePatch

theorem Edit.isOld_of_isRemove {e : Edit} (h : e.isRemove = true) : e.isOld = true := by
  have hkind : e.kind = .remove := beq_iff_eq.mp h
  simp [isOld, hkind]

theorem zipIdx_sorted {β : Type} (xs : List β) (first : Nat) :
    (xs.zipIdx first).Pairwise fun x y => x.2 < y.2 := by
  rw [← List.pairwise_map (f := Prod.snd), List.zipIdx_map_snd]
  exact List.pairwise_lt_range'

/-- Some of the numbered edits, by what kind of edits they are. -/
def numberedWhere (kind : Edit → Bool) (edits : List (Edit × Nat)) : List (Edit × Nat) :=
  edits.filter fun x => kind x.1

def textsWhere (kind : Edit → Bool) (edits : List (Edit × Nat)) : List Text :=
  (numberedWhere kind edits).map fun x => x.1.text

variable {kind : Edit → Bool}

/-! ## One edit more -/

section Cons

variable {x : Edit × Nat} {edits : List (Edit × Nat)}

theorem numberedWhere_cons_pos (h : kind x.1 = true) :
    numberedWhere kind (x :: edits) = x :: numberedWhere kind edits :=
  List.filter_cons_of_pos h

theorem numberedWhere_cons_neg (h : kind x.1 = false) :
    numberedWhere kind (x :: edits) = numberedWhere kind edits :=
  List.filter_cons_of_neg (Bool.eq_false_iff.mp h)

theorem textsWhere_cons_pos (h : kind x.1 = true) :
    textsWhere kind (x :: edits) = x.1.text :: textsWhere kind edits := by
  rw [textsWhere, numberedWhere_cons_pos h, List.map_cons, textsWhere]

theorem textsWhere_cons_neg (h : kind x.1 = false) :
    textsWhere kind (x :: edits) = textsWhere kind edits := by
  rw [textsWhere, numberedWhere_cons_neg h, textsWhere]

theorem mem_numberedWhere : x ∈ numberedWhere kind edits ↔ x ∈ edits ∧ kind x.1 = true :=
  List.mem_filter

end Cons

/-! ## All edits of a hunk -/

theorem mem_numberedWhere_zipIdx {edits : List Edit} {x : Edit × Nat} :
    x ∈ numberedWhere kind edits.zipIdx ↔ edits[x.2]? = some x.1 ∧ kind x.1 = true := by
  rw [mem_numberedWhere, List.mem_zipIdx_iff_getElem?]

theorem numberedWhere_zipIdx_map_fst (kind : Edit → Bool) (edits : List Edit) (first : Nat) :
    (numberedWhere kind (edits.zipIdx first)).map Prod.fst = edits.filter kind := by
  calc ((edits.zipIdx first).filter (kind ∘ Prod.fst)).map Prod.fst
      = ((edits.zipIdx first).map Prod.fst).filter kind := List.filter_map.symm
    _ = edits.filter kind := by rw [List.zipIdx_map_fst]

theorem length_numberedWhere_zipIdx (kind : Edit → Bool) (edits : List Edit) (first : Nat) :
    (numberedWhere kind (edits.zipIdx first)).length = edits.countP kind := by
  rw [List.countP_eq_length_filter, ← numberedWhere_zipIdx_map_fst kind edits first, List.length_map]

theorem textsWhere_zipIdx (kind : Edit → Bool) (edits : List Edit) (first : Nat) :
    textsWhere kind (edits.zipIdx first) = (edits.filter kind).map Edit.text := by
  rw [← numberedWhere_zipIdx_map_fst kind edits first, List.map_map]
  rfl

end LoosePatch
