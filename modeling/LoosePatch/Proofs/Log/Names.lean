import LoosePatch.Log.Routing
import Mathlib.Algebra.Group.Nat.Even
import Mathlib.Data.List.Basic
import Mathlib.Data.List.TakeWhile

/-!
Names of loggers. `IsAbove` says which names are above a name without cutting it up step by step;
the path of a logger, its own name and those above it from the longest to the shortest, holds just
these (`mem_path_iff`, `pairwise_path`).
-/

namespace LoosePatch.Log

/-! ## Names above a name -/

/-- How many dots a text begins with. -/
def leadingDots (s : Text) : Nat := (s.takeWhile (· = '.')).length

/-- The second name goes on after the first one and a dot. Of dots in a row the last one counts, and
before it every second one. -/
def IsAbove (above name : Text) : Prop :=
  above ≠ [] ∧ ∃ rest, name = above ++ '.' :: rest ∧ Even (leadingDots rest)

/-- The first name is the second one or above it. -/
def OnPath (name logger : Text) : Prop := name = logger ∨ IsAbove name logger

variable {a above name nearer logger rest : Text}

theorem leadingDots_cons (c : Char) (s : Text) :
    leadingDots (c :: s) = if c = '.' then leadingDots s + 1 else 0 := by
  by_cases h : c = '.' <;> simp [leadingDots, h]

theorem leadingDots_eq_zero (h : '.' ∉ rest) : leadingDots rest = 0 := by
  cases rest with
  | nil => rfl
  | cons c rest =>
    rw [leadingDots_cons, if_neg]
    rintro rfl
    exact h List.mem_cons_self

/-- Two more characters of which the second is the last dot leave the parity as it is. -/
theorem even_leadingDots_append (s : Text) (c : Char) (h : '.' ∉ rest) :
    Even (leadingDots (s ++ c :: '.' :: rest)) ↔ Even (leadingDots s) := by
  induction s with
  | nil =>
    rw [List.nil_append, leadingDots_cons]
    split
    · rw [leadingDots_cons, if_pos rfl, leadingDots_eq_zero h]
      decide
    · rfl
  | cons x s ih =>
    rw [List.cons_append, leadingDots_cons, leadingDots_cons]
    split
    · rw [Nat.even_add_one, Nat.even_add_one, ih]
    · rfl

theorem IsAbove.length_lt (h : IsAbove above name) : above.length < name.length := by
  obtain ⟨-, rest, rfl, -⟩ := h
  rw [List.length_append, List.length_cons]
  omega

theorem IsAbove.dot_mem (h : IsAbove above name) : '.' ∈ name := by
  obtain ⟨-, rest, rfl, -⟩ := h
  exact List.mem_append_right _ List.mem_cons_self

theorem OnPath.length_le (h : OnPath name logger) : name.length ≤ logger.length := by
  rcases h with rfl | h
  · exact Nat.le_refl _
  · exact Nat.le_of_lt h.length_lt

theorem OnPath.isPrefix (h : OnPath name logger) : name <+: logger := by
  rcases h with rfl | ⟨-, rest, rfl, -⟩
  · exact List.prefix_refl _
  · exact List.prefix_append _ _

/-- Names on one path are told apart by their lengths. -/
theorem OnPath.eq_of_length_eq (h : OnPath name logger) (h' : OnPath nearer logger)
    (hlength : name.length = nearer.length) : name = nearer :=
  (List.prefix_of_prefix_length_le h.isPrefix h'.isPrefix (Nat.le_of_eq hlength)).eq_of_length hlength

theorem exists_last_dot (h : '.' ∈ name) : ∃ above rest, name = above ++ '.' :: rest ∧ '.' ∉ rest := by
  obtain ⟨front, back, hreverse, hfront⟩ := List.eq_append_cons_of_mem (List.mem_reverse.mpr h)
  refine ⟨back.reverse, front.reverse, ?_, by simpa using hfront⟩
  rw [← List.reverse_reverse name, hreverse]
  simp

/-- Above a name are its front up to the last dot, and the names above that front without its last
character. -/
theorem isAbove_append_iff (hrest : '.' ∉ rest) (habove : above ≠ []) :
    IsAbove a (above ++ '.' :: rest) ↔ a = above ∨ IsAbove a above.dropLast := by
  obtain ⟨front, c, rfl⟩ := (List.eq_nil_or_concat' above).resolve_left habove
  rw [List.dropLast_concat]
  constructor
  · rintro ⟨ha, r, heq, heven⟩
    rcases List.append_eq_append_iff.mp heq with ⟨m, rfl, hm⟩ | ⟨m, hfront, hm⟩
    · cases m with
      | nil => exact .inl (List.append_nil _)
      | cons x m =>
        obtain ⟨-, rfl⟩ := List.cons.inj hm
        exact absurd (List.mem_append_right m List.mem_cons_self) hrest
    · rcases List.eq_nil_or_concat' m with rfl | ⟨m, x, rfl⟩
      · exact .inl (by simpa using hfront.symm)
      · cases m with
        | nil =>
          -- a dot right before the last one does not count
          have hr : r = '.' :: rest := (List.cons.inj hm).2
          rw [hr, leadingDots_cons, if_pos rfl, leadingDots_eq_zero hrest] at heven
          exact absurd heven (by decide)
        | cons y m =>
          obtain ⟨rfl, hm⟩ := List.cons.inj hm
          have hr : r = m ++ x :: '.' :: rest := by simpa using hm
          have hsplit : front = a ++ '.' :: m ∧ [c] = [x] := by
            rw [← List.append_assoc] at hfront
            exact List.append_inj' hfront rfl
          refine .inr ⟨ha, m, hsplit.1, ?_⟩
          rwa [hr, even_leadingDots_append m x hrest] at heven
  · rintro (rfl | ⟨ha, m, rfl, heven⟩)
    · exact ⟨habove, rest, rfl, by rw [leadingDots_eq_zero hrest]; exact Even.zero⟩
    · refine ⟨ha, m ++ c :: '.' :: rest, by simp, ?_⟩
      rwa [even_leadingDots_append m c hrest]

/-! ## Cutting a name up -/

theorem parent?_append (hrest : '.' ∉ rest) :
    parent? (above ++ '.' :: rest) = if above.isEmpty then none else some above := by
  have hdrop : (above ++ '.' :: rest).reverse.dropWhile (· ≠ '.') = '.' :: above.reverse := by
    rw [List.reverse_append, List.reverse_cons, List.append_assoc,
      List.dropWhile_append_of_pos, List.singleton_append, List.dropWhile_cons_of_neg (by simp)]
    intro c hc
    have hne : c ≠ '.' := by
      rintro rfl
      exact hrest (List.mem_reverse.mp hc)
    simpa using hne
  rw [parent?, hdrop]
  simp

theorem parent?_of_not_mem (h : '.' ∉ name) : parent? name = none := by
  have hdrop : name.reverse.dropWhile (· ≠ '.') = [] := by
    rw [List.dropWhile_eq_nil_iff]
    intro c hc
    have hne : c ≠ '.' := by
      rintro rfl
      exact h (List.mem_reverse.mp hc)
    simpa using hne
  rw [parent?, hdrop]

theorem mem_ancestorsFrom_iff {fuel : Nat} (hfuel : name.length ≤ fuel) :
    a ∈ ancestorsFrom fuel name ↔ IsAbove a name := by
  induction fuel generalizing name with
  | zero =>
    rw [List.length_eq_zero_iff.mp (Nat.le_zero.mp hfuel)]
    exact iff_of_false List.not_mem_nil fun h => List.not_mem_nil h.dot_mem
  | succ fuel ih =>
    rw [ancestorsFrom]
    by_cases hdot : '.' ∈ name
    · obtain ⟨above, rest, rfl, hrest⟩ := exists_last_dot hdot
      rw [parent?_append hrest]
      by_cases habove : above = []
      · subst habove
        refine iff_of_false List.not_mem_nil fun ⟨ha, r, heq, _⟩ => hrest ?_
        obtain ⟨x, a, rfl⟩ := List.exists_cons_of_ne_nil ha
        rw [List.nil_append, List.cons_append] at heq
        rw [(List.cons.inj heq).2]
        exact List.mem_append_right a List.mem_cons_self
      · have hlength : above.dropLast.length ≤ fuel := by
          rw [List.length_append, List.length_cons] at hfuel
          rw [List.length_dropLast]
          omega
        rw [isAbove_append_iff hrest habove, if_neg (by simpa using habove)]
        exact List.mem_cons.trans (or_congr_right (ih hlength))
    · rw [parent?_of_not_mem hdot]
      exact iff_of_false List.not_mem_nil fun h => hdot h.dot_mem

theorem mem_path_iff : name ∈ logger :: ancestors logger ↔ OnPath name logger :=
  List.mem_cons.trans (or_congr_right (mem_ancestorsFrom_iff (Nat.le_refl _)))

theorem pairwise_ancestorsFrom {fuel : Nat} (hfuel : name.length ≤ fuel) :
    (ancestorsFrom fuel name).Pairwise fun x y => y.length < x.length := by
  induction fuel generalizing name with
  | zero => exact List.Pairwise.nil
  | succ fuel ih =>
    rw [ancestorsFrom]
    by_cases hdot : '.' ∈ name
    · obtain ⟨above, rest, rfl, hrest⟩ := exists_last_dot hdot
      rw [parent?_append hrest]
      split
      · rename_i front hfront
        obtain ⟨-, rfl⟩ : above.isEmpty = false ∧ above = front := by simpa using hfront
        have hlength : above.dropLast.length ≤ fuel := by
          rw [List.length_append, List.length_cons] at hfuel
          rw [List.length_dropLast]
          omega
        refine List.pairwise_cons.mpr ⟨fun y hy => ?_, ih hlength⟩
        have hlt := ((mem_ancestorsFrom_iff hlength).mp hy).length_lt
        rw [List.length_dropLast] at hlt
        omega
      · exact List.Pairwise.nil
    · rw [parent?_of_not_mem hdot]
      exact List.Pairwise.nil

/-- The path of a logger leads from the longest name to the shortest. -/
theorem pairwise_path (logger : Text) :
    (logger :: ancestors logger).Pairwise fun x y => y.length < x.length :=
  List.pairwise_cons.mpr ⟨fun _ hy => ((mem_ancestorsFrom_iff (Nat.le_refl _)).mp hy).length_lt,
    pairwise_ancestorsFrom (Nat.le_refl _)⟩

/-- What is nearer to the logger than a name on its path stands in front of this name. -/
theorem mem_front_of_length_le {front back : List Text}
    (hsplit : logger :: ancestors logger = front ++ name :: back) (hnearer : OnPath nearer logger)
    (hlength : name.length ≤ nearer.length) (hne : nearer ≠ name) : nearer ∈ front := by
  have hpairwise := pairwise_path logger
  have hmem := mem_path_iff.mpr hnearer
  rw [hsplit] at hpairwise hmem
  refine (List.mem_append.mp hmem).resolve_right fun hback => ?_
  have hmem_back := (List.mem_cons.mp hback).resolve_left hne
  have hshorter := List.rel_of_pairwise_cons (List.pairwise_append.mp hpairwise).2.1 hmem_back
  omega

end LoosePatch.Log
