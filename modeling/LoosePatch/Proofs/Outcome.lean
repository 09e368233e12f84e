import LoosePatch.Refusal
import Mathlib.Data.List.Forall2
import Mathlib.Data.List.Perm.Basic

/-!
Computations that may be refused, taken apart: what a result says about the steps that led to it, and
which failures a computation can end in (`FailsOnly`).
-/

namespace LoosePatch

/-! ## Lists in step -/

section Forall₂

variable {β γ : Type} {R : β → γ → Prop} {xs : List β} {ys : List γ}

theorem exists_forall₂ (h : ∀ x ∈ xs, ∃ y, R x y) : ∃ ys, List.Forall₂ R xs ys := by
  induction xs with
  | nil => exact ⟨[], .nil⟩
  | cons x xs ih =>
    obtain ⟨y, hy⟩ := h x List.mem_cons_self
    obtain ⟨ys, hys⟩ := ih fun x' hx' => h x' (List.mem_cons_of_mem x hx')
    exact ⟨y :: ys, .cons hy hys⟩

theorem exists_mem_of_forall₂ (h : List.Forall₂ R xs ys) {y : γ} (hy : y ∈ ys) :
    ∃ x ∈ xs, R x y := by
  induction h with
  | nil => cases hy
  | @cons x y' xs ys hxy _ ih =>
    rcases List.mem_cons.mp hy with rfl | hy
    · exact ⟨x, List.mem_cons_self, hxy⟩
    · obtain ⟨x', hx', hrel⟩ := ih hy
      exact ⟨x', List.mem_cons_of_mem x hx', hrel⟩

theorem forall₂_congr_of_mem {S : β → γ → Prop} (h : ∀ x ∈ xs, ∀ y, R x y ↔ S x y) :
    List.Forall₂ R xs ys ↔ List.Forall₂ S xs ys := by
  induction xs generalizing ys with
  | nil => rw [List.forall₂_nil_left_iff, List.forall₂_nil_left_iff]
  | cons x xs ih =>
    obtain ⟨hx, hxs⟩ := List.forall_mem_cons.mp h
    rw [List.forall₂_cons_left_iff, List.forall₂_cons_left_iff]
    exact exists_congr fun y => exists_congr fun ys' =>
      and_congr (hx y) (and_congr_left fun _ => ih hxs)

/-- The lists in step with a list are in step with its permutations, once permuted themselves. -/
theorem exists_perm_forall₂ {xs' : List β} (hperm : xs.Perm xs') (h : List.Forall₂ R xs ys) :
    ∃ ys', List.Forall₂ R xs' ys' ∧ ys.Perm ys' := by
  obtain ⟨ys', hys', hperm'⟩ := List.perm_comp_forall₂ hperm.symm h
  exact ⟨ys', hys', hperm'.symm⟩

theorem countP_eq_of_forall₂ {p : β → Bool} {q : γ → Bool} (h : List.Forall₂ R xs ys)
    (hR : ∀ x y, R x y → p x = q y) : xs.countP p = ys.countP q := by
  induction h with
  | nil => rfl
  | cons hxy _ ih => rw [List.countP_cons, List.countP_cons, ih, hR _ _ hxy]

theorem pairwise_of_forall₂ {A : β → β → Prop} {B : γ → γ → Prop} (h : List.Forall₂ R xs ys)
    (hxs : xs.Pairwise A) (hAB : ∀ x x' y y', R x y → R x' y' → A x x' → B y y') :
    ys.Pairwise B := by
  induction h with
  | nil => exact List.Pairwise.nil
  | @cons x y xs ys hxy hrest ih =>
    obtain ⟨hx, hxs⟩ := List.pairwise_cons.mp hxs
    refine List.pairwise_cons.mpr ⟨fun y' hy' => ?_, ih hxs⟩
    obtain ⟨x', hx', hrel⟩ := exists_mem_of_forall₂ hrest hy'
    exact hAB x x' y y' hxy hrel (hx x' hx')

end Forall₂

/-! ## Results -/

variable {β γ : Type}

theorem bind_eq_ok {ε : Type} {x : Except ε β} {f : β → Except ε γ} {c : γ} :
    x >>= f = .ok c ↔ ∃ b, x = .ok b ∧ f b = .ok c := by
  cases x with
  | error e => exact iff_of_false (by rintro ⟨⟩) (by rintro ⟨_, ⟨⟩, _⟩)
  | ok b =>
    constructor
    · intro h
      exact ⟨b, rfl, h⟩
    · rintro ⟨_, ⟨⟩, h⟩
      exact h

theorem fetch_eq_ok {xs : List β} {i : Nat} {x : β} : fetch xs i = .ok x ↔ xs[i]? = some x := by
  unfold fetch
  split
  · rename_i y hy
    rw [hy, Except.ok.injEq, Option.some.injEq]
  · rename_i hnone
    rw [hnone]
    exact iff_of_false (by rintro ⟨⟩) (by rintro ⟨⟩)

theorem fetch_of_lt {xs : List β} {i : Nat} (h : i < xs.length) : fetch xs i = .ok xs[i] :=
  fetch_eq_ok.mpr (List.getElem?_eq_getElem h)

theorem chosen_eq_ok {o : Option β} {x : β} : chosen o = .ok x ↔ o = some x := by
  cases o with
  | none => exact iff_of_false (by rintro ⟨⟩) (by rintro ⟨⟩)
  | some y => rw [chosen, Except.ok.injEq, Option.some.injEq]

theorem toOption_eq_some {x : Outcome β} {b : β} : x.toOption = some b ↔ x = .ok b := by
  cases x with
  | error e => exact iff_of_false (by rintro ⟨⟩) (by rintro ⟨⟩)
  | ok c => rw [Except.toOption, Option.some.injEq, Except.ok.injEq]

/-- Why a computation was refused, if it was. -/
def refusal? : Outcome β → Option Refusal
  | .error (.refused why) => some why
  | _ => none

theorem refusal?_eq_some {x : Outcome β} {why : Refusal} : refusal? x = some why ↔ x = refuse why := by
  match x with
  | .error (.refused why') => simp [refusal?, refuse]
  | .error (.fault what) => simp [refusal?, refuse]
  | .ok b => simp [refusal?, refuse]

theorem exists_error_iff {x : Outcome β} : (∃ e, x = .error e) ↔ ¬ ∃ b, x = .ok b := by
  cases x with
  | error e => simp
  | ok b => simp

/-- Results of a list come one by one from its entries. -/
theorem mapM_eq_ok {f : β → Outcome γ} {xs : List β} {ys : List γ} :
    xs.mapM f = .ok ys ↔ List.Forall₂ (fun x y => f x = .ok y) xs ys := by
  induction xs generalizing ys with
  | nil =>
    rw [List.mapM_nil, List.forall₂_nil_left_iff]
    exact ⟨fun h => (Except.ok.inj h).symm, fun h => congrArg Except.ok h.symm⟩
  | cons x xs ih =>
    rw [List.mapM_cons, bind_eq_ok, List.forall₂_cons_left_iff]
    constructor
    · rintro ⟨y, hy, hrest⟩
      obtain ⟨ys', hys', hout⟩ := bind_eq_ok.mp hrest
      exact ⟨y, ys', hy, ih.mp hys', (Except.ok.inj hout).symm⟩
    · rintro ⟨y, ys', hy, hys', rfl⟩
      exact ⟨y, hy, bind_eq_ok.mpr ⟨ys', ih.mpr hys', rfl⟩⟩

/-! ## Failures -/

/-- Whenever the computation fails, its failure has the property. -/
def FailsOnly (P : Failure → Prop) (x : Outcome β) : Prop := ∀ failure, x = .error failure → P failure

variable {P Q : Failure → Prop}

theorem failsOnly_ok (b : β) : FailsOnly P (.ok b : Outcome β) := by
  intro failure h
  cases h

theorem failsOnly_error {failure : Failure} (h : P failure) :
    FailsOnly P (.error failure : Outcome β) := by
  intro failure' heq
  cases heq
  exact h

def Failure.IsRefusal (failure : Failure) : Prop := ∃ why, failure = .refused why

theorem refuse_failsOnly (why : Refusal) : FailsOnly Failure.IsRefusal (refuse why : Outcome β) :=
  failsOnly_error ⟨why, rfl⟩

theorem FailsOnly.imp {x : Outcome β} (h : FailsOnly P x) (hPQ : ∀ failure, P failure → Q failure) :
    FailsOnly Q x :=
  fun failure hx => hPQ failure (h failure hx)

theorem FailsOnly.bind {x : Outcome β} {f : β → Outcome γ} (hx : FailsOnly P x)
    (hf : ∀ b, x = .ok b → FailsOnly P (f b)) : FailsOnly P (x >>= f) := by
  intro failure h
  cases x with
  | error failure' =>
    cases h
    exact hx _ rfl
  | ok b => exact hf b rfl failure h

theorem FailsOnly.mapM {f : β → Outcome γ} {xs : List β} (h : ∀ x ∈ xs, FailsOnly P (f x)) :
    FailsOnly P (xs.mapM f) := by
  induction xs with
  | nil => exact failsOnly_ok []
  | cons x xs ih =>
    rw [List.mapM_cons]
    refine (h x List.mem_cons_self).bind fun y _ => ?_
    refine (ih fun x' hx' => h x' (List.mem_cons_of_mem x hx')).bind fun ys _ => ?_
    exact failsOnly_ok (y :: ys)

theorem FailsOnly.foldlM {step : γ → β → Outcome γ} {xs : List β}
    (h : ∀ c, ∀ x ∈ xs, FailsOnly P (step c x)) (c : γ) : FailsOnly P (xs.foldlM step c) := by
  induction xs generalizing c with
  | nil => exact failsOnly_ok c
  | cons x xs ih =>
    rw [List.foldlM_cons]
    refine (h c x List.mem_cons_self).bind fun c' _ => ?_
    exact ih (fun c'' x' hx' => h c'' x' (List.mem_cons_of_mem x hx')) c'

theorem failsOnly_of_eq_ok {x : Outcome β} {b : β} (h : x = .ok b) : FailsOnly P x :=
  h ▸ failsOnly_ok b

theorem fetch_failsOnly (h : P (.fault .outsideList)) (xs : List β) (i : Nat) :
    FailsOnly P (fetch xs i) := by
  unfold fetch
  split
  · exact failsOnly_ok _
  · exact failsOnly_error h

end LoosePatch
