import LoosePatch.Proofs.Locate.ExactText

/-!
Which placements of a narrower view lead. Those do that no other fits better (`mem_leaders`), and
nothing fits better than a placement with the lines left out right above and below it
(`not_betterFit_contextFit`).
-/

namespace LoosePatch.View

variable {α : Type}

/-! ## The best fit -/

theorem betterFit_eq_true {x y : Nat × Nat} :
    betterFit x y = true ↔ y.1 < x.1 ∨ x.1 = y.1 ∧ x.2 < y.2 := by
  simp [betterFit]

theorem betterFit_eq_false {x y : Nat × Nat} :
    betterFit x y = false ↔ x.1 ≤ y.1 ∧ (x.1 = y.1 → y.2 ≤ x.2) := by
  rw [← Bool.not_eq_true, betterFit_eq_true]
  omega

def bestFit (rest : List ((Nat × Nat) × Placement α)) (first : Nat × Nat) : Nat × Nat :=
  rest.foldl (fun top x => if betterFit x.1 top then x.1 else top) first

/-- The best fit is the first one or that of a placement, and none is better. -/
theorem bestFit_spec (rest : List ((Nat × Nat) × Placement α)) (first : Nat × Nat) :
    (bestFit rest first = first ∨ ∃ x ∈ rest, x.1 = bestFit rest first) ∧
      betterFit first (bestFit rest first) = false ∧
      ∀ x ∈ rest, betterFit x.1 (bestFit rest first) = false := by
  induction rest generalizing first with
  | nil => exact ⟨.inl rfl, betterFit_eq_false.mpr ⟨Nat.le_refl _, fun _ => Nat.le_refl _⟩, by simp⟩
  | cons x rest ih =>
    rw [bestFit, List.foldl_cons, ← bestFit]
    by_cases h : betterFit x.1 first = true
    · rw [if_pos h]
      obtain ⟨hone, hx, hrest⟩ := ih x.1
      refine ⟨?_, ?_, List.forall_mem_cons.mpr ⟨hx, hrest⟩⟩
      · rcases hone with heq | ⟨y, hy, heq⟩
        · exact .inr ⟨x, List.mem_cons_self, heq.symm⟩
        · exact .inr ⟨y, List.mem_cons_of_mem x hy, heq⟩
      · rw [betterFit_eq_true] at h
        rw [betterFit_eq_false] at hx ⊢
        omega
    · rw [if_neg h]
      rw [Bool.not_eq_true] at h
      obtain ⟨hone, hfirst, hrest⟩ := ih first
      refine ⟨?_, hfirst, List.forall_mem_cons.mpr ⟨?_, hrest⟩⟩
      · exact hone.imp_right fun ⟨y, hy, heq⟩ => ⟨y, List.mem_cons_of_mem x hy, heq⟩
      · rw [betterFit_eq_false] at h hfirst ⊢
        omega

/-- The leaders are the placements with a fit that none is better than. -/
theorem mem_leaders {scored : List ((Nat × Nat) × Placement α)} {p : Placement α} :
    p ∈ leaders scored ↔
      ∃ fit, (fit, p) ∈ scored ∧ ∀ x ∈ scored, betterFit x.1 fit = false := by
  cases scored with
  | nil => simp [leaders]
  | cons first rest =>
    obtain ⟨hone, hfirst, hrest⟩ := bestFit_spec rest first.1
    have htop : ∀ x ∈ first :: rest, betterFit x.1 (bestFit rest first.1) = false :=
      List.forall_mem_cons.mpr ⟨hfirst, hrest⟩
    have hleaders : leaders (first :: rest) =
        ((first :: rest).filter fun x => decide (x.1 = bestFit rest first.1)).map Prod.snd := rfl
    rw [hleaders]
    simp only [List.mem_map, List.mem_filter, decide_eq_true_eq]
    constructor
    · rintro ⟨⟨fit, q⟩, ⟨hmem, rfl⟩, rfl⟩
      exact ⟨_, hmem, htop⟩
    · rintro ⟨fit, hmem, hbest⟩
      refine ⟨(fit, p), ⟨hmem, ?_⟩, rfl⟩
      obtain ⟨y, hy, heq⟩ : ∃ y ∈ first :: rest, y.1 = bestFit rest first.1 := by
        rcases hone with heq | ⟨y, hy, heq⟩
        · exact ⟨first, List.mem_cons_self, heq.symm⟩
        · exact ⟨y, List.mem_cons_of_mem first hy, heq⟩
      have hup := betterFit_eq_false.mp (heq ▸ hbest y hy)
      have hdown := betterFit_eq_false.mp (htop _ hmem)
      dsimp only at hdown ⊢
      exact Prod.ext (by omega) (by omega)

/-! ## The lines left out -/

theorem walk_le (wanted around : List Text) : (walk wanted around).1 ≤ wanted.length := by
  induction wanted generalizing around with
  | nil => exact Nat.le_refl 0
  | cons text wanted ih =>
    simp only [walk, List.length_cons]
    split
    · rename_i k _
      exact Nat.succ_le_succ (ih (around.drop (k + 1)))
    · exact Nat.le_succ_of_le (ih around)

theorem walk_of_prefix {wanted around : List Text} (h : wanted <+: around) :
    walk wanted around = (wanted.length, 0) := by
  induction wanted generalizing around with
  | nil => rfl
  | cons text wanted ih =>
    obtain ⟨after, rfl⟩ := h
    have hfirst : (text :: wanted ++ after).idxOf? text = some 0 := by
      simp [List.idxOf?_cons]
    have hrest := ih (List.prefix_append wanted after)
    simp only [walk, hfirst]
    rw [Nat.zero_add, List.cons_append, List.drop_succ_cons, List.drop_zero, hrest, Nat.zero_add,
      List.length_cons]

variable {lines before after : List Text} {p q : Placement α} {floor : Nat}

theorem contextFit_le :
    (contextFit lines before after floor p).1 ≤ before.length + after.length := by
  have hbefore := walk_le (before.reverse.map Text.loose)
    (((lines.map Text.loose).take p.start).drop floor).reverse
  have hafter := walk_le (after.map Text.loose) ((lines.map Text.loose).drop p.stop)
  rw [List.length_map, List.length_reverse] at hbefore
  rw [List.length_map] at hafter
  exact Nat.add_le_add hbefore hafter

theorem contextFit_of_adjacent (hbefore : before <:+ lines.take p.start)
    (hafter : after <+: lines.drop p.stop) :
    contextFit lines before after 0 p = (before.length + after.length, 0) := by
  have habove : before.reverse.map Text.loose <+: ((lines.map Text.loose).take p.start).reverse := by
    rw [← List.map_take, ← List.map_reverse]
    exact (List.reverse_prefix.mpr hbefore).map _
  have hbelow : after.map Text.loose <+: (lines.map Text.loose).drop p.stop := by
    rw [← List.map_drop]
    exact hafter.map _
  simp only [contextFit, List.drop_zero, walk_of_prefix habove, walk_of_prefix hbelow,
    List.length_map, List.length_reverse, Nat.add_zero]

theorem not_betterFit_contextFit (hbefore : before <:+ lines.take p.start)
    (hafter : after <+: lines.drop p.stop) (floor : Nat) (q : Placement α) :
    betterFit (contextFit lines before after floor q) (contextFit lines before after 0 p) = false := by
  rw [contextFit_of_adjacent hbefore hafter, betterFit_eq_false]
  exact ⟨contextFit_le, fun _ => Nat.zero_le _⟩

end LoosePatch.View
