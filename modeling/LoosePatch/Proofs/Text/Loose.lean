import LoosePatch.Proofs.Text.Trim
import LoosePatch.Text.Loose
import Mathlib.Data.List.Chain
import Mathlib.Tactic.SplitIfs

/-!
Readings of a line, each looser than the one before: trimmed at the end, trimmed on both sides, loose,
and without any blank. What one reading leaves out, the next one leaves out as well (`trim_trimEnd`,
`loose_trim`, `withoutBlanks_loose`), so that lines which are equal under one are equal under the next.
-/

namespace LoosePatch

variable {β : Type} {c d : Char} {s : Text}

/-! ## Characters -/

/-- A character stays as it is, or it is a blank spelled as a space, or punctuation spelled in ASCII. -/
theorem plainChar_cases (c : Char) :
    plainChar c = [c] ∨ isBlank c = true ∧ plainChar c = [' '] ∨
      isBlank c = false ∧ plainChar c ∈ [['-'], ['\''], ['"'], ['.', '.', '.']] := by
  simp only [plainChar, isBlank, Bool.or_eq_true, Bool.or_eq_false_iff, Bool.and_eq_true,
    Bool.and_eq_false_iff, decide_eq_true_eq, decide_eq_false_iff_not, beq_iff_eq, beq_eq_false_iff_ne]
  split_ifs with hascii hdash hquote hdouble hspace hdots
  · exact .inl rfl
  · exact .inr (.inr ⟨by omega, by simp⟩)
  · exact .inr (.inr ⟨by omega, by simp⟩)
  · exact .inr (.inr ⟨by omega, by simp⟩)
  · exact .inr (.inl ⟨by omega, rfl⟩)
  · exact .inr (.inr ⟨by omega, by simp⟩)
  · exact .inl rfl

/-- A blank is spelled as one blank. -/
theorem plainChar_of_isBlank (h : isBlank c = true) : ∃ d, plainChar c = [d] ∧ isBlank d = true := by
  rcases plainChar_cases c with hself | ⟨-, hspace⟩ | ⟨hprinted, -⟩
  · exact ⟨c, hself, h⟩
  · exact ⟨' ', hspace, rfl⟩
  · rw [h] at hprinted
    cases hprinted

/-- What is spelled out stays as it is. -/
theorem plainChar_of_mem (h : d ∈ plainChar c) : plainChar d = [d] := by
  rcases plainChar_cases c with hself | ⟨-, hspace⟩ | ⟨-, hascii⟩
  · rw [hself] at h
    rwa [List.mem_singleton.mp h]
  · rw [hspace] at h
    rw [List.mem_singleton.mp h]
    rfl
  · have hall : ∀ text ∈ [['-'], ['\''], ['"'], ['.', '.', '.']], ∀ d ∈ text, d.toNat < 0xA0 := by
      simp
    exact if_pos (hall _ hascii d h)

namespace Text

/-! ## Readings that ignore blanks around a text -/

theorem apply_trimEnd {f : Text → β} (hback : ∀ s c, isBlank c = true → f (s ++ [c]) = f s) (s : Text) :
    f s.trimEnd = f s := by
  show f (s.rdropWhile isBlank) = f s
  induction s using List.reverseRecOn with
  | nil => rfl
  | append_singleton s c ih =>
    rw [List.rdropWhile_concat]
    split
    · rename_i hblank
      rw [ih, hback s c hblank]
    · rfl

theorem apply_trim {f : Text → β} (hfront : ∀ c s, isBlank c = true → f (c :: s) = f s)
    (hback : ∀ s c, isBlank c = true → f (s ++ [c]) = f s) (s : Text) : f s.trim = f s := by
  have hstart : f (s.dropWhile isBlank) = f s := by
    induction s with
    | nil => rfl
    | cons c s ih =>
      rw [List.dropWhile_cons]
      split
      · rename_i hblank
        rw [ih, hfront c s hblank]
      · rfl
  exact (apply_trimEnd hback _).trans hstart

theorem trim_append_blank (s : Text) (h : isBlank c = true) : (s ++ [c]).trim = s.trim := by
  induction s with
  | nil => exact trim_blank_cons h []
  | cons d s ih =>
    cases hd : isBlank d with
    | true => rw [List.cons_append, trim_blank_cons hd, trim_blank_cons hd, ih]
    | false =>
      rw [List.cons_append, trim_cons hd, trim_cons hd]
      exact congrArg (d :: ·) (List.rdropWhile_concat_pos isBlank s c h)

theorem trim_append_blanks {back : Text} (h : ∀ c ∈ back, isBlank c = true) (s : Text) :
    (s ++ back).trim = s.trim := by
  induction back generalizing s with
  | nil => rw [List.append_nil]
  | cons c back ih =>
    obtain ⟨hc, hback⟩ := List.forall_mem_cons.mp h
    rw [← List.singleton_append, ← List.append_assoc, ih hback, trim_append_blank s hc]

theorem trim_trimEnd (s : Text) : s.trimEnd.trim = s.trim :=
  apply_trimEnd (fun s _ => trim_append_blank s) s

theorem trim_trim (s : Text) : s.trim.trim = s.trim :=
  apply_trim (fun _ s h => trim_blank_cons h s) (fun s _ => trim_append_blank s) s

theorem withoutBlanks_trim (s : Text) : s.trim.withoutBlanks = s.withoutBlanks := by
  refine apply_trim (fun c s h => ?_) (fun s c h => ?_) s
  · simp [withoutBlanks, h]
  · simp [withoutBlanks, h]

/-! ## Runs of spaces and tabs -/

theorem squeeze_cons_of_not_isIndent (h : isIndent c = false) (s : Text) :
    squeeze (c :: s) = c :: squeeze s := by
  rw [squeeze, h, if_neg Bool.false_ne_true]

/-- A space or tab is taken up by one that follows, and otherwise becomes a space. -/
theorem squeeze_cons_of_isIndent (h : isIndent c = true) (s : Text) :
    squeeze (c :: s) = if s.head?.any isIndent then squeeze s else ' ' :: squeeze s := by
  rw [squeeze, if_pos h]

theorem mem_squeeze (h : c ∈ squeeze s) : c ∈ s ∧ isIndent c = false ∨ c = ' ' := by
  induction s with
  | nil => cases h
  | cons d s ih =>
    have hlater (h : c ∈ squeeze s) : c ∈ d :: s ∧ isIndent c = false ∨ c = ' ' :=
      (ih h).imp_left (And.imp_left (List.mem_cons_of_mem d))
    cases hd : isIndent d with
    | false =>
      rw [squeeze_cons_of_not_isIndent hd] at h
      rcases List.mem_cons.mp h with rfl | h
      · exact .inl ⟨List.mem_cons_self, hd⟩
      · exact hlater h
    | true =>
      rw [squeeze_cons_of_isIndent hd] at h
      split at h
      · exact hlater h
      · rcases List.mem_cons.mp h with rfl | h
        · exact .inr rfl
        · exact hlater h

/-- No two spaces or tabs are left side by side. -/
theorem isChain_squeeze (s : Text) :
    (squeeze s).IsChain fun c d => isIndent c = true → isIndent d = false := by
  induction s with
  | nil => exact .nil
  | cons c s ih =>
    cases hc : isIndent c with
    | false =>
      rw [squeeze_cons_of_not_isIndent hc]
      refine List.isChain_cons.mpr ⟨fun d _ hindent => ?_, ih⟩
      rw [hc] at hindent
      cases hindent
    | true =>
      rw [squeeze_cons_of_isIndent hc]
      split
      · exact ih
      · rename_i hnext
        refine List.isChain_cons.mpr ⟨fun d hd _ => ?_, ih⟩
        cases s with
        | nil => cases hd
        | cons e s =>
          have he : isIndent e = false := by simpa using hnext
          rw [squeeze_cons_of_not_isIndent he] at hd
          obtain rfl : e = d := Option.some.inj hd
          exact he

theorem squeeze_of_isChain (htab : '\t' ∉ s)
    (h : s.IsChain fun c d => isIndent c = true → isIndent d = false) : squeeze s = s := by
  induction s with
  | nil => rfl
  | cons c s ih =>
    obtain ⟨hnext, h⟩ := List.isChain_cons.mp h
    obtain ⟨hc, htab⟩ := not_or.mp (mt List.mem_cons.mpr htab)
    cases hindent : isIndent c with
    | false => rw [squeeze_cons_of_not_isIndent hindent, ih htab h]
    | true =>
      have hspace : c = ' ' := by
        simpa [isIndent, Ne.symm hc] using hindent
      have hnone : s.head?.any isIndent = false := by
        cases s with
        | nil => rfl
        | cons d s => exact hnext d rfl hindent
      rw [squeeze_cons_of_isIndent hindent, hnone, if_neg Bool.false_ne_true, ih htab h, hspace]

/-- A blank at the end adds at most blanks. -/
theorem squeeze_append_blank (s : Text) (h : isBlank c = true) :
    ∃ back, squeeze (s ++ [c]) = squeeze s ++ back ∧ ∀ d ∈ back, isBlank d = true := by
  have hsingle : ∀ d ∈ squeeze [c], isBlank d = true := by
    intro d hd
    rcases mem_squeeze hd with ⟨hd, -⟩ | rfl
    · rwa [List.mem_singleton.mp hd]
    · rfl
  induction s with
  | nil => exact ⟨squeeze [c], rfl, hsingle⟩
  | cons d s ih =>
    obtain ⟨back, hback, hblank⟩ := ih
    cases hd : isIndent d with
    | false =>
      refine ⟨back, ?_, hblank⟩
      rw [List.cons_append, squeeze_cons_of_not_isIndent hd, squeeze_cons_of_not_isIndent hd, hback,
        List.cons_append]
    | true =>
      rw [List.cons_append, squeeze_cons_of_isIndent hd, squeeze_cons_of_isIndent hd]
      cases s with
      | nil =>
        -- A space or tab in front of the new blank goes into its run, or becomes a space before it.
        cases hc : isIndent c with
        | true => exact ⟨[], by simp [squeeze, hc], by simp⟩
        | false => exact ⟨squeeze [c], by simp [squeeze, hc], hsingle⟩
      | cons e s =>
        refine ⟨back, ?_, hblank⟩
        rw [hback, List.cons_append, List.head?_cons, List.head?_cons]
        split
        · rfl
        · rfl

theorem withoutBlanks_squeeze (s : Text) : s.squeeze.withoutBlanks = s.withoutBlanks := by
  have hcons (c : Char) (s : Text) : withoutBlanks (c :: s) = withoutBlanks [c] ++ s.withoutBlanks :=
    List.filter_append [c] s
  induction s with
  | nil => rfl
  | cons c s ih =>
    cases hc : isIndent c with
    | false => rw [squeeze_cons_of_not_isIndent hc, hcons, hcons c s, ih]
    | true =>
      have hblank : withoutBlanks [c] = [] := by simp [withoutBlanks, isBlank_of_isIndent hc]
      rw [squeeze_cons_of_isIndent hc, hcons c s, hblank, List.nil_append]
      split
      · exact ih
      · exact ih

/-! ## The loose reading -/

theorem plain_append (s t : Text) : (s ++ t).plain = s.plain ++ t.plain := List.flatMap_append

theorem loose_blank_cons (h : isBlank c = true) (s : Text) : loose (c :: s) = loose s := by
  obtain ⟨d, hd, hblank⟩ := plainChar_of_isBlank h
  have hplain : plain (c :: s) = d :: s.plain := by
    rw [← List.singleton_append, plain_append, plain, List.flatMap_singleton, hd, List.singleton_append]
  rw [loose, loose, collapse, collapse, hplain]
  cases hindent : isIndent d with
  | false => rw [squeeze_cons_of_not_isIndent hindent, trim_blank_cons hblank]
  | true =>
    rw [squeeze_cons_of_isIndent hindent]
    split
    · rfl
    · exact trim_blank_cons rfl _

theorem loose_append_blank (s : Text) (h : isBlank c = true) : (s ++ [c]).loose = s.loose := by
  obtain ⟨d, hd, hblank⟩ := plainChar_of_isBlank h
  have hplain : (s ++ [c]).plain = s.plain ++ [d] := by
    rw [plain_append, plain, plain, List.flatMap_singleton, hd]
  obtain ⟨back, hback, hblanks⟩ := squeeze_append_blank s.plain hblank
  rw [loose, loose, collapse, collapse, hplain, hback, trim_append_blanks hblanks]

/-- Blanks around a line do not count for its loose reading. -/
theorem loose_trim (s : Text) : s.trim.loose = s.loose :=
  apply_trim (fun _ s h => loose_blank_cons h s) (fun s _ => loose_append_blank s) s

/-- Without blanks, a line is the same in its loose reading. -/
theorem withoutBlanks_loose (s : Text) : s.loose.withoutBlanks = s.bare := by
  rw [loose, collapse, withoutBlanks_trim, withoutBlanks_squeeze, bare]

theorem plain_of_mem (h : ∀ c ∈ s, plainChar c = [c]) : s.plain = s := by
  induction s with
  | nil => rfl
  | cons c s ih =>
    obtain ⟨hc, hs⟩ := List.forall_mem_cons.mp h
    rw [plain, List.flatMap_cons, hc]
    exact congrArg (c :: ·) (ih hs)

/-- A line in its loose reading is read as it is. -/
theorem loose_loose (s : Text) : s.loose.loose = s.loose := by
  have hwithin : s.loose <:+: s.plain.squeeze := trim_isInfix _
  have hplain : s.loose.plain = s.loose := by
    refine plain_of_mem fun c hc => ?_
    rcases mem_squeeze (hwithin.subset hc) with ⟨hc, -⟩ | rfl
    · obtain ⟨d, -, hd⟩ := List.mem_flatMap.mp hc
      exact plainChar_of_mem hd
    · simp [plainChar]
  have htab : '\t' ∉ s.loose := by
    intro htab
    rcases mem_squeeze (hwithin.subset htab) with ⟨-, hindent⟩ | hspace
    · cases hindent
    · cases hspace
  have hchain := List.IsChain.infix (isChain_squeeze s.plain) hwithin
  have hsqueeze : s.loose.squeeze = s.loose := squeeze_of_isChain htab hchain
  rw [loose, hplain, collapse, hsqueeze]
  exact trim_trim _

end Text
end LoosePatch
