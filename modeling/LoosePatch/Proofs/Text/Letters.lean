import LoosePatch.Text.Blank
import LoosePatch.Text.Digit
import Mathlib.Data.List.Basic
import Mathlib.Data.List.TakeWhile

/-!
Small letters and capitals of the Latin alphabet. What is said of characters that are no letters is
the same for a letter and its capital (`IgnoresCase`), so that cutting a text at such characters and
putting it in lower case can change places.
-/

namespace LoosePatch

variable {β : Type} {c d : Char} {part s : Text}

/-! ## Characters -/

/-- A letter that has a lower case stands 32 below it. -/
theorem toLower_cases (c : Char) :
    c.toLower = c ∨ 65 ≤ c.toNat ∧ c.toNat ≤ 90 ∧ c.toLower.toNat = c.toNat + 32 := by
  by_cases h : c.val ≥ 'A'.val ∧ c.val ≤ 'Z'.val
  · have hlow : 65 ≤ c.val.toNat := h.1
    have hhigh : c.val.toNat ≤ 90 := h.2
    refine .inr ⟨hlow, hhigh, ?_⟩
    have hlower : c.toLower = _ := dif_pos h
    rw [hlower]
    show (c.val + ('a'.val - 'A'.val)).toNat = c.val.toNat + 32
    have hshift : ('a'.val - 'A'.val).toNat = 32 := by decide
    rw [UInt32.toNat_add, hshift]
    omega
  · exact .inl (dif_neg h)

/-- What is said of a character is the same for its lower case. -/
def IgnoresCase (p : Char → β) : Prop := ∀ c, p c.toLower = p c

theorem ignoresCase_of {p : Char → β} (h : ∀ c d : Char, 65 ≤ c.toNat → c.toNat ≤ 90 →
    d.toNat = c.toNat + 32 → p d = p c) : IgnoresCase p := by
  intro c
  rcases toLower_cases c with heq | ⟨hlow, hhigh, hshift⟩
  · rw [heq]
  · exact h c c.toLower hlow hhigh hshift

theorem ignoresCase_isBlank : IgnoresCase isBlank := by
  have hletter {c : Char} (hlow : 65 ≤ c.toNat) (hhigh : c.toNat ≤ 122) : isBlank c = false := by
    simp only [isBlank, Bool.or_eq_false_iff, Bool.and_eq_false_iff, decide_eq_false_iff_not,
      beq_eq_false_iff_ne, ne_eq]
    omega
  refine ignoresCase_of fun c d hlow hhigh hshift => ?_
  rw [hletter hlow (by omega), hletter (c := d) (by omega) (by omega)]

theorem ignoresCase_digitValue? : IgnoresCase digitValue? := by
  have hletter {c : Char} (hlow : 65 ≤ c.toNat) (hhigh : c.toNat ≤ 122) : digitValue? c = none := by
    rw [digitValue?, if_neg (by omega), if_pos (by omega)]
  refine ignoresCase_of fun c d hlow hhigh hshift => ?_
  rw [hletter hlow (by omega), hletter (c := d) (by omega) (by omega)]

theorem ignoresCase_isDigit : IgnoresCase isDigit := fun c =>
  congrArg Option.isSome (ignoresCase_digitValue? c)

theorem isHexDigit_eq_true : isHexDigit c = true ↔ (48 ≤ c.toNat ∧ c.toNat ≤ 57) ∨
    (97 ≤ c.toNat ∧ c.toNat ≤ 102) ∨ (65 ≤ c.toNat ∧ c.toNat ≤ 70) := by
  simp only [isHexDigit, Bool.or_eq_true, Bool.and_eq_true, decide_eq_true_eq, or_assoc]
  exact Iff.rfl

theorem isBlank_of_isHexDigit (h : isHexDigit c = true) : isBlank c = false := by
  rw [isHexDigit_eq_true] at h
  simp only [isBlank, Bool.or_eq_false_iff, Bool.and_eq_false_iff, decide_eq_false_iff_not,
    beq_eq_false_iff_ne]
  omega

theorem ignoresCase_isHexDigit : IgnoresCase isHexDigit := by
  refine ignoresCase_of fun c d hlow hhigh hshift => Bool.eq_iff_iff.mpr ?_
  rw [isHexDigit_eq_true, isHexDigit_eq_true]
  omega

/-- A character that is no letter is the lower case of itself alone. -/
theorem toLower_eq_iff (h : d.toNat < 65 ∨ 122 < d.toNat) : c.toLower = d ↔ c = d := by
  have hother : IgnoresCase (· = d) := by
    refine ignoresCase_of fun c d' hlow hhigh hshift => propext (iff_of_false ?_ ?_)
    · rintro rfl
      omega
    · rintro rfl
      omega
  exact iff_of_eq (hother c)

theorem beq_toLower (h : d.toNat < 65 ∨ 122 < d.toNat) : (d == c.toLower) = (d == c) := by
  rw [Bool.eq_iff_iff, beq_iff_eq, beq_iff_eq, eq_comm, toLower_eq_iff h, eq_comm]

theorem ignoresCase_toLower : IgnoresCase Char.toLower := by
  intro c
  rcases toLower_cases c with heq | ⟨hlow, hhigh, hshift⟩
  · exact congrArg Char.toLower heq
  · rcases toLower_cases c.toLower with heq | ⟨-, hhigh', -⟩
    · exact heq
    · omega

/-! ## Texts -/

namespace Text

theorem map_toLower_toLower (s : Text) : (s.map Char.toLower).map Char.toLower = s.map Char.toLower := by
  rw [List.map_map]
  exact List.map_congr_left fun c _ => ignoresCase_toLower c

theorem takeWhile_toLower {p : Char → Bool} (hp : IgnoresCase p) (s : Text) :
    (s.map Char.toLower).takeWhile p = (s.takeWhile p).map Char.toLower := by
  rw [List.takeWhile_map, show p ∘ Char.toLower = p from funext hp]

theorem dropWhile_toLower {p : Char → Bool} (hp : IgnoresCase p) (s : Text) :
    (s.map Char.toLower).dropWhile p = (s.dropWhile p).map Char.toLower := by
  rw [List.dropWhile_map, show p ∘ Char.toLower = p from funext hp]

theorem trim_toLower (s : Text) : trim (s.map Char.toLower) = (trim s).map Char.toLower := by
  rw [trim, trimBy, trimEndBy, dropWhile_toLower ignoresCase_isBlank, ← List.map_reverse,
    dropWhile_toLower ignoresCase_isBlank, ← List.map_reverse]
  rfl

theorem all_toLower {p : Char → Bool} (hp : IgnoresCase p) (s : Text) :
    (s.map Char.toLower).all p = s.all p := by
  rw [List.all_map, show p ∘ Char.toLower = p from funext hp]

theorem contains_toLower (hd : d.toNat < 65 ∨ 122 < d.toNat) (s : Text) :
    (s.map Char.toLower).contains d = s.contains d := by
  rw [Bool.eq_iff_iff, List.contains_iff_mem, List.contains_iff_mem, List.mem_map]
  simp only [toLower_eq_iff hd, exists_eq_right]

/-- A digit is no letter. -/
theorem toLower_of_isDigit {c : Char} (h : isDigit c = true) : c.toLower = c := by
  have hrange : c.toNat < 65 ∨ 122 < c.toNat := by
    simp only [isDigit, digitValue?] at h
    split at h
    · omega
    · split at h
      · cases h
      · omega
  exact (toLower_eq_iff hrange).mpr rfl

theorem readNumeral?_toLower (s : Text) :
    readNumeral? (s.map Char.toLower) =
      (readNumeral? s).map fun (digits, rest) => (digits, rest.map Char.toLower) := by
  have hrun : (s.map Char.toLower).takeWhile isDigit = s.takeWhile isDigit := by
    rw [takeWhile_toLower ignoresCase_isDigit]
    exact (List.map_congr_left fun c hc => toLower_of_isDigit (List.mem_takeWhile_imp hc)).trans
      (List.map_id _)
  simp only [readNumeral?, hrun, ← List.map_drop]
  split <;> rfl

theorem isPrefixOf?_toLower (hpart : ∀ d ∈ part, d.toNat < 65 ∨ 122 < d.toNat) (s : Text) :
    part.isPrefixOf? (s.map Char.toLower) = (part.isPrefixOf? s).map (List.map Char.toLower) := by
  induction part generalizing s with
  | nil => simp [List.isPrefixOf?]
  | cons d part ih =>
    obtain ⟨hd, hpart⟩ := List.forall_mem_cons.mp hpart
    cases s with
    | nil => rfl
    | cons c s =>
      rw [List.map_cons, List.isPrefixOf?, List.isPrefixOf?, beq_toLower hd, ih hpart]
      split <;> rfl

theorem isPrefixOf_toLower (hpart : ∀ d ∈ part, d.toNat < 65 ∨ 122 < d.toNat) (s : Text) :
    part.isPrefixOf (s.map Char.toLower) = part.isPrefixOf s := by
  induction part generalizing s with
  | nil => simp
  | cons d part ih =>
    obtain ⟨hd, hpart⟩ := List.forall_mem_cons.mp hpart
    cases s with
    | nil => rfl
    | cons c s =>
      rw [List.map_cons, List.isPrefixOf, List.isPrefixOf, beq_toLower hd, ih hpart]

theorem occursIn_toLower (hpart : ∀ d ∈ part, d.toNat < 65 ∨ 122 < d.toNat) (s : Text) :
    occursIn part (s.map Char.toLower) = occursIn part s := by
  induction s with
  | nil => rfl
  | cons c s ih =>
    have hfirst := isPrefixOf_toLower hpart (c :: s)
    rw [List.map_cons] at hfirst
    rw [List.map_cons, occursIn, occursIn, ih, hfirst]

theorem cutAt_toLower (hpart : ∀ d ∈ part, d.toNat < 65 ∨ 122 < d.toNat) (s : Text) :
    cutAt part (s.map Char.toLower) =
      (cutAt part s).map (Prod.map (List.map Char.toLower) (List.map Char.toLower)) := by
  induction s with
  | nil =>
    rw [List.map_nil, cutAt]
    split <;> rfl
  | cons c s ih =>
    have hfirst := isPrefixOf_toLower hpart (c :: s)
    rw [List.map_cons] at hfirst
    rw [List.map_cons, cutAt, cutAt, ih, hfirst, ← List.map_cons, ← List.map_drop]
    split
    · rfl
    · cases cutAt part s <;> rfl

end Text

end LoosePatch
