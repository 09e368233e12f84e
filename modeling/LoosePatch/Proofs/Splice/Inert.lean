import LoosePatch.Proofs.Splice.Conservation

/-!
Hunks that neither remove nor add a line. Wherever they are placed, and however they overlap, the
lines of the file stay what they are (`applyHunks_inert`).
-/

namespace LoosePatch

/-- Only lines to keep and ellipses. -/
def Hunk.Inert (hunk : Hunk) : Prop := ∀ e ∈ hunk.edits, e.isKeep = true ∨ e.isEllipsis = true

instance (hunk : Hunk) : Decidable hunk.Inert := by unfold Hunk.Inert; infer_instance

variable {α : Type} {lines new : List Text} {hunks : List Hunk} {placements : List (Placement α)}
  {origins : List Origin}

theorem Hunk.Inert.not_changes {hunk : Hunk} (h : hunk.Inert) {e : Edit} (he : e ∈ hunk.edits) :
    e.isRemove = false ∧ e.isAdd = false := by
  rcases h e he with hkind | hkind <;>
    simp [Edit.isRemove, Edit.isAdd, (beq_iff_eq.mp hkind : e.kind = _)]

theorem editAt?_inert (hinert : ∀ hunk ∈ hunks, hunk.Inert) {h i : Nat} {e : Edit}
    (he : editAt? hunks h i = some e) : e.isRemove = false ∧ e.isAdd = false := by
  obtain ⟨hunk, hhunk, hedit⟩ := Option.bind_eq_some_iff.mp he
  exact (hinert hunk (List.mem_of_getElem? hhunk)).not_changes (List.mem_of_getElem? hedit)

/-- With nothing removed and nothing added, only the lines of the file are left to merge. -/
theorem Merges.origins_eq (h : Merges lines hunks placements new origins)
    (hinert : ∀ hunk ∈ hunks, hunk.Inert) : origins = Splice.fileOrigins lines.length := by
  have hkept (line : Nat) : ¬ ∃ k i, RemovesLine hunks placements k i line := by
    rintro ⟨k, i, e, he, hremove, -⟩
    rw [(editAt?_inert hinert he).1] at hremove
    cases hremove
  have hmem (o : Origin) : o ∈ origins ↔ o ∈ Splice.fileOrigins lines.length := by
    cases o with
    | file line => simp [h.mem_file, hkept, Splice.fileOrigins]
    | added k i =>
      refine iff_of_false (fun hadded => ?_) (by simp [Splice.fileOrigins])
      obtain ⟨e, he, hadd⟩ := (h.mem_added k i).mp hadded
      rw [(editAt?_inert hinert he).2] at hadd
      cases hadd
  have hfile : (Splice.fileOrigins lines.length).Pairwise
      (Origin.Precedes (lineAt? placements)) :=
    List.pairwise_map.mpr List.pairwise_lt_range
  have hperm : origins.Perm (Splice.fileOrigins lines.length) :=
    (List.perm_ext_iff_of_nodup h.nodup (Origin.nodup_of_ordered hfile)).mpr hmem
  refine hperm.eq_of_pairwise (fun o o' ho ho' hlt hgt => ?_) h.ordered hfile
  obtain ⟨a, -, rfl⟩ := List.mem_map.mp ((hmem o).mp ho)
  obtain ⟨b, -, rfl⟩ := List.mem_map.mp ho'
  exact absurd hlt (Nat.lt_asymm hgt)

theorem Merges.eq_lines (h : Merges lines hunks placements new origins)
    (hinert : ∀ hunk ∈ hunks, hunk.Inert) : new = lines := by
  have hspells := h.spells
  have hfile := Splice.fileOrigins_spell lines hunks
  rw [h.origins_eq hinert] at hspells
  rw [Splice.fileOrigins, List.forall₂_map_left_iff] at hspells hfile
  have hunique : Relator.RightUnique fun line text => Origin.Spells lines hunks (.file line) text :=
    fun _ _ _ htext htext' => Option.some.inj (htext.symm.trans htext')
  exact hunique.forall₂ hspells hfile

variable [Score α] {config : Config α}

theorem applyHunks_inert (h : applyHunks config lines hunks = .ok (new, placements))
    (hinert : ∀ hunk ∈ hunks, hunk.Inert) : new = lines := by
  obtain ⟨located, floors, splices, haccepted, rfl, hsplices, rfl⟩ := applyHunks_eq_ok h
  obtain ⟨rs, ho⟩ := haccepted.exists_overlay hsplices
  exact (ho.merges haccepted).eq_lines hinert

end LoosePatch
