import LoosePatch.Hunk.Header
import LoosePatch.Proofs.Text.Readable
import LoosePatch.Proofs.Text.Trim

/-!
Numerals of header lines. Every reader leaves an end of what it is given, so that the numerals of a
header are runs of digits in its line, and reading a header fails only by a refusal or for a run that
is too long (`Header.read_failsOnly`).
-/

namespace LoosePatch

variable {line s rest word : Text}

/-! ## What readers leave -/

namespace Text

theorem readLead?_suffix {lead : Text} (h : readLead? lead s = some rest) : rest <:+ s :=
  ⟨lead, List.isPrefixOf?_eq_some_iff_append_eq.mp h⟩

theorem trimStart_suffix (s : Text) : s.trimStart <:+ s := List.dropWhile_suffix isBlank

theorem readNumeral?_suffix {run : Text} (h : readNumeral? s = some (run, rest)) : rest <:+ s :=
  ⟨run, (eq_append_of_readNumeral? h).1.symm⟩

theorem readBlanks?_suffix (h : readBlanks? s = some rest) : rest <:+ s := by
  unfold readBlanks? at h
  split at h
  · cases h
  · split at h
    · cases h
      exact (trimStart_suffix _).trans (List.suffix_cons _ _)
    · cases h

theorem readWord?_suffix (h : readWord? word s = some rest) : rest <:+ s := by
  fun_induction readWord? word s with
  | case1 => cases h; exact List.suffix_rfl
  | case2 => cases h
  | case3 _ _ _ _ _ ih => exact (ih h).trans (List.suffix_cons _ _)
  | case4 => cases h

end Text

namespace Header

open Text

theorem readLength_suffix (s : Text) : (readLength s).2 <:+ s := by
  unfold readLength
  split
  · split
    · rename_i hread
      exact (readNumeral?_suffix hread).trans (List.suffix_cons _ _)
    · exact List.suffix_rfl
  · exact List.suffix_rfl

theorem hasDigits_of_readLength {run : Text} (h : (readLength s).1 = some run) : s.HasDigits run := by
  unfold readLength at h
  split at h
  · split at h
    · rename_i hread
      cases h
      exact (hasDigits_of_readNumeral? hread).of_piece (List.suffix_cons _ _).isInfix
    · cases h
  · cases h

/-! ## Numerals -/

/-- Every numeral of a range stands in the text. -/
structure Numerals.StandIn (n : Numerals) (line : Text) : Prop where
  oldStart : line.HasDigits n.oldStart
  oldLength : ∀ run, n.oldLength = some run → line.HasDigits run
  newStart : line.HasDigits n.newStart
  newLength : ∀ run, n.newLength = some run → line.HasDigits run

theorem standIn_of_readRange? {numerals : Numerals} (h : readRange? line = some (numerals, rest)) :
    numerals.StandIn line := by
  have hpiece {t run : Text} (ht : t <:+ line.trimEnd) (hrun : t.HasDigits run) : line.HasDigits run :=
    hrun.of_piece (ht.isInfix.trans (List.rdropWhile_prefix isBlank line).isInfix)
  -- What is left after each reader is an end of the trimmed line.
  obtain ⟨afterSign, hsign, h⟩ := Option.bind_eq_some_iff.mp h
  obtain ⟨afterMinus, hminus, h⟩ := Option.bind_eq_some_iff.mp h
  have hminus := (readLead?_suffix hminus).trans ((trimStart_suffix _).trans (readLead?_suffix hsign))
  obtain ⟨⟨oldStart, afterOld⟩, hold, h⟩ := Option.bind_eq_some_iff.mp h
  have hafterOld := (readNumeral?_suffix hold).trans hminus
  have holdLength := (readLength_suffix afterOld).trans hafterOld
  obtain ⟨afterBlanks, hblanks, h⟩ := Option.bind_eq_some_iff.mp h
  obtain ⟨afterPlus, hplus, h⟩ := Option.bind_eq_some_iff.mp h
  have hplus := (readLead?_suffix hplus).trans ((readBlanks?_suffix hblanks).trans holdLength)
  obtain ⟨⟨newStart, afterNew⟩, hnew, h⟩ := Option.bind_eq_some_iff.mp h
  have hafterNew := (readNumeral?_suffix hnew).trans hplus
  obtain ⟨afterRange, -, h⟩ := Option.bind_eq_some_iff.mp h
  dsimp only at h
  split at h
  · cases h
  · cases h
    exact {
      oldStart := hpiece hminus (hasDigits_of_readNumeral? hold)
      oldLength := fun run hrun => hpiece hafterOld (hasDigits_of_readLength hrun)
      newStart := hpiece hplus (hasDigits_of_readNumeral? hnew)
      newLength := fun run hrun => hpiece hafterNew (hasDigits_of_readLength hrun) }

theorem hasDigits_of_readLineNumbers? {first : Text} {last : Option Text}
    (h : readLineNumbers? s = some (first, last)) :
    s.HasDigits first ∧ ∀ run, last = some run → s.HasDigits run := by
  obtain ⟨afterLine, hline, h⟩ := Option.bind_eq_some_iff.mp h
  have hplural : (readWord? ['s'] afterLine).getD afterLine <:+ s := by
    cases hread : readWord? ['s'] afterLine with
    | none => exact readWord?_suffix hline
    | some afterPlural => exact (readWord?_suffix hread).trans (readWord?_suffix hline)
  obtain ⟨afterBlanks, hblanks, h⟩ := Option.bind_eq_some_iff.mp h
  have hblanks := (readBlanks?_suffix hblanks).trans hplural
  obtain ⟨⟨digits, afterFirst⟩, hfirst, h⟩ := Option.bind_eq_some_iff.mp h
  have hafterFirst := (readNumeral?_suffix hfirst).trans hblanks
  have hdigits := (hasDigits_of_readNumeral? hfirst).of_piece hblanks.isInfix
  dsimp only at h
  split at h
  · rename_i afterMinus hminus
    obtain ⟨⟨lastDigits, afterLast⟩, hlast, h⟩ := Option.bind_eq_some_iff.mp h
    have hminus := (readLead?_suffix hminus).trans ((trimStart_suffix _).trans hafterFirst)
    have hlastDigits := (hasDigits_of_readNumeral? hlast).of_piece
      ((trimStart_suffix _).trans hminus).isInfix
    dsimp only at h
    split at h
    · cases h
      refine ⟨hdigits, fun run hrun => ?_⟩
      cases hrun
      exact hlastDigits
    · cases h
  · split at h
    · cases h
      exact ⟨hdigits, fun run hrun => nomatch hrun⟩
    · cases h

/-! ## Failures -/

variable {P : Failure → Prop}

theorem mapM_readNumber_failsOnly {last : Option Text} (h : ∀ run, last = some run → s.HasDigits run) :
    FailsOnly (Failure.OrLongNumber P s) (last.mapM readNumber) := by
  cases last with
  | none => exact failsOnly_ok _
  | some run => exact (readNumber_failsOnly (h run rfl)).bind fun _ _ => failsOnly_ok _

theorem Numerals.hint_failsOnly {numerals : Numerals} (h : numerals.StandIn line) :
    FailsOnly (Failure.OrLongNumber P line) numerals.hint := by
  refine (readNumber_failsOnly h.oldStart).bind fun _ _ => ?_
  refine (readNumber_failsOnly h.newStart).bind fun _ _ => ?_
  refine (mapM_readNumber_failsOnly h.oldLength).bind fun _ _ => ?_
  exact (mapM_readNumber_failsOnly h.newLength).bind fun _ _ => failsOnly_ok _

theorem anchorOf_failsOnly (s : Text) : FailsOnly Failure.IsRefusal (anchorOf s) := by
  unfold anchorOf
  extract_lets s s
  split
  · exact refuse_failsOnly _
  · exact failsOnly_ok _

theorem read_failsOnly (line : Text) :
    FailsOnly (Failure.OrLongNumber Failure.IsRefusal line) (read line) := by
  have hrefuse {β : Type} (why : Refusal) :
      FailsOnly (Failure.OrLongNumber Failure.IsRefusal line) (refuse why : Outcome β) :=
    (refuse_failsOnly why).orLongNumber line
  have hanchor (s : Text) := (anchorOf_failsOnly s).orLongNumber line
  unfold read
  split
  · rename_i numerals rest hrange
    refine (Numerals.hint_failsOnly (standIn_of_readRange? hrange)).bind fun hint _ => ?_
    split
    · exact hrefuse _
    · exact (hanchor _).bind fun _ _ => failsOnly_ok _
  · split
    · exact hrefuse _
    · extract_lets body rest
      have hbody : body <:+: line := (Text.trim_isInfix _).trans (List.drop_suffix 2 line).isInfix
      have hrest : rest <:+: line := by
        cases hlead : readLead? sign body with
        | none => simpa only [rest, hlead] using hbody
        | some after =>
          have hafter := (Text.trim_isInfix after).trans (readLead?_suffix hlead).isInfix
          simpa only [rest, hlead] using hafter.trans hbody
      split
      · exact failsOnly_ok _
      · split
        · rename_i first last hnumbers
          obtain ⟨hfirst, hlast⟩ := hasDigits_of_readLineNumbers? hnumbers
          refine (readNumber_failsOnly (hfirst.of_piece hrest)).bind fun _ _ => ?_
          refine (mapM_readNumber_failsOnly fun run hrun => (hlast run hrun).of_piece hrest).bind
            fun _ _ => ?_
          split
          · exact hrefuse _
          · exact failsOnly_ok _
        · split
          · exact failsOnly_ok _
          · exact (hanchor _).bind fun _ _ => failsOnly_ok _

end Header
end LoosePatch
