import LoosePatch.Proofs.Image.Codec

/-!
The shape of a file, seen in its text: the mark in front, the break that ends every line, whether
there is a carriage return at all, and whether the last line has a break. Writing other lines in the
shape of a file keeps it.
-/

namespace LoosePatch.Image

variable {text : Text} {ls : List Text} {c : Char} {image : Image}

/-- The text without the mark in front. -/
def unmarked : Text → Text
  | [] => []
  | c :: text => if c = mark then text else c :: text

/-! ## Reading -/

theorem ofMarkedText_eq (text : Text) :
    ofMarkedText text = ofText (unmarked text) (text.head? == some mark) := by
  cases text with
  | nil => rfl
  | cons c text =>
    rw [ofMarkedText, unmarked]
    by_cases hc : c = mark
    · simp [hc]
    · simp [hc, beq_eq_false_iff_ne.mpr hc]

theorem hasMark_ofMarkedText (h : text.head? = some mark) : (ofMarkedText text).hasMark = true := by
  rw [ofMarkedText_eq, h]
  rfl

theorem mem_unmarked (h : c ∈ unmarked text) : c ∈ text := by
  cases text with
  | nil => cases h
  | cons c' text =>
    rw [unmarked] at h
    split at h
    · exact List.mem_cons_of_mem c' h
    · exact h

theorem feed_mem_unmarked (h : '\n' ∈ text) : '\n' ∈ unmarked text := by
  cases text with
  | nil => cases h
  | cons c text =>
    rw [unmarked]
    split
    · rename_i hc
      exact (List.mem_cons.mp h).resolve_left fun heq => absurd (heq.trans hc) (by decide)
    · exact h

theorem feedsReturned_unmarked (h : text.FeedsReturned) : (unmarked text).FeedsReturned := by
  cases text with
  | nil => exact h
  | cons c text =>
    rw [unmarked]
    split
    · rename_i hc
      exact (Text.feedsReturned_cons c (by rw [hc]; decide) (by rw [hc]; decide)).mp h
    · exact h

theorem feedsReturned_iff_returned (h : ∀ l ∈ ls, '\n' ∉ l) {last : Text} (hlast : '\n' ∉ last) :
    '\n' ∈ Text.terminated ls ++ last ∧ Text.FeedsReturned (Text.terminated ls ++ last) ↔
      returned ls = true := by
  rw [Text.feedsReturned_iff h hlast, returned_eq_true_iff]
  refine and_congr_left fun _ => ⟨?_, fun hne => ?_⟩
  · rintro hmem rfl
    exact hlast hmem
  · obtain ⟨l, ls, rfl⟩ := List.exists_cons_of_ne_nil hne
    rw [Text.terminated_cons]
    simp

/-- The lines of a file end in both characters if every line feed in it follows a carriage return,
and there is one. -/
theorem lineEnd_ofText (text : Text) (hasMark : Bool) :
    (ofText text hasMark).lineEnd = .crlf ↔ '\n' ∈ text ∧ text.FeedsReturned := by
  obtain ⟨ls, last, rfl, h, hlast⟩ := Text.exists_terminated_append text
  rw [feedsReturned_iff_returned h hlast, ofText_eq h hlast, ofParts]
  cases returned ls <;> simp

theorem lineEnd_ofMarkedText (h : '\n' ∈ text) (hreturned : text.FeedsReturned) :
    (ofMarkedText text).lineEnd = .crlf := by
  rw [ofMarkedText_eq, lineEnd_ofText]
  exact ⟨feed_mem_unmarked h, feedsReturned_unmarked hreturned⟩

theorem lineEnd_ofMarkedText_of_not_mem (h : '\r' ∉ text) : (ofMarkedText text).lineEnd = .lf := by
  cases hend : (ofMarkedText text).lineEnd with
  | lf => rfl
  | crlf =>
    rw [ofMarkedText_eq, lineEnd_ofText] at hend
    obtain ⟨hmem, hreturned⟩ := hend
    obtain ⟨before, after, heq⟩ := List.append_of_mem hmem
    have hlast : '\r' ∈ before := List.mem_of_getLast? (hreturned before after heq)
    exact absurd (mem_unmarked (heq ▸ List.mem_append_left _ hlast)) h

theorem mem_toText {l : Text} (hl : l ∈ image.lines) (hc : c ∈ l) (hfeed : c ≠ '\n') :
    c ∈ image.toText := by
  have hmem : c ∈ Text.unlines image.lines ++ if image.endsWithBreak then ['\n'] else [] :=
    List.mem_append_left _ (Text.mem_intercalate_of_mem hl hc)
  rw [toText, if_neg (by simpa using List.ne_nil_of_mem hl)]
  cases image.lineEnd with
  | lf => exact hmem
  | crlf => exact List.mem_flatMap.mpr ⟨c, hmem, by simp [hfeed]⟩

theorem coherent_ofMarkedText (text : Text) : Coherent (ofMarkedText text) := by
  rw [ofMarkedText_eq]
  exact coherent_ofText _ _

theorem not_mem_lines_ofMarkedText (h : c ∉ text) : ∀ l ∈ (ofMarkedText text).lines, c ∉ l := by
  intro l hl hmem
  by_cases hfeed : c = '\n'
  · exact (coherent_ofMarkedText text).not_mem l hl (hfeed ▸ hmem)
  · have htext := mem_toText hl hmem hfeed
    rw [ofMarkedText_eq, toText_ofText] at htext
    exact h (mem_unmarked htext)

theorem endsWithBreak_ofMarkedText (text : Text) :
    (ofMarkedText text).endsWithBreak = true ↔
      unmarked text = [] ∨ (unmarked text).getLast? = some '\n' := by
  obtain ⟨ls, last, heq, h, hlast⟩ := Text.exists_terminated_append (unmarked text)
  rw [ofMarkedText_eq, heq, ofText_eq h hlast, ofParts, Text.ends_terminated_append hlast,
    List.isEmpty_iff]

/-! ## Writing -/

theorem feedsReturned_toMarkedText (h : ∀ l ∈ image.lines, '\n' ∉ l) (hend : image.lineEnd = .crlf) :
    image.toMarkedText.FeedsReturned := by
  have htext : image.toText.FeedsReturned := by
    rw [toText_eq h, Text.feedsReturned_iff (not_mem_rows (by decide) h) (not_mem_tail h)]
    intro l hl
    obtain ⟨l', -, rfl⟩ := List.mem_map.mp hl
    rw [hend, returns, List.getLast?_concat]
  rw [toMarkedText]
  split
  · exact (Text.feedsReturned_cons mark (by decide) (by decide)).mpr htext
  · exact htext

theorem not_mem_toMarkedText (h : ∀ l ∈ image.lines, c ∉ l) (hend : image.lineEnd = .lf)
    (hfeed : c ≠ '\n') (hmark : c ≠ mark) : c ∉ image.toMarkedText := by
  have htext : c ∉ image.toText := by
    rw [toText, hend]
    split
    · exact List.not_mem_nil
    · intro hmem
      rcases List.mem_append.mp hmem with hmem | hmem
      · exact Text.not_mem_unlines hfeed h hmem
      · split at hmem
        · exact hfeed (List.mem_singleton.mp hmem)
        · cases hmem
  rw [toMarkedText]
  split
  · exact List.not_mem_cons_of_ne_of_not_mem hmark htext
  · exact htext

theorem head?_toMarkedText (h : image.hasMark = true) : image.toMarkedText.head? = some mark := by
  rw [toMarkedText, h]
  rfl

/-- A last line that is not empty shows whether it has a break. -/
theorem getLast?_toMarkedText {last : Text} (h : ∀ l ∈ image.lines, '\n' ∉ l)
    (hlast : image.lines.getLast? = some last) (hne : last ≠ []) :
    image.toMarkedText.getLast? = some '\n' ↔ image.endsWithBreak = true := by
  have htext : image.toText ≠ [] := by
    obtain ⟨c, last, rfl⟩ := List.exists_cons_of_ne_nil hne
    have hmem := List.mem_of_getLast? hlast
    have hc : c ≠ '\n' := fun heq => h _ hmem (heq ▸ List.mem_cons_self)
    exact List.ne_nil_of_mem (mem_toText hmem List.mem_cons_self hc)
  have hmarked : image.toMarkedText.getLast? = image.toText.getLast? := by
    rw [toMarkedText]
    split
    · exact List.getLast?_cons_of_ne_nil htext
    · rfl
  have htail : image.tail = [] ↔ image.endsWithBreak = true := by
    rw [tail, hlast]
    cases image.endsWithBreak <;> simp [hne]
  rw [hmarked, ← htail, ← or_iff_right (b := image.toText.getLast? = some '\n') htext, toText_eq h]
  exact Text.ends_terminated_append (not_mem_tail h)

/-! ## Carriage returns before breaks -/

theorem mem_ended_or_eq_tail {l : Text} (h : l ∈ image.lines) : l ∈ image.ended ∨ l = image.tail := by
  rw [ended, tail]
  split
  · exact .inl h
  · have hne := List.ne_nil_of_mem h
    rw [← List.dropLast_concat_getLast hne] at h
    rw [List.getLast?_eq_some_getLast hne]
    exact (List.mem_append.mp h).imp_right List.mem_singleton.mp

/-- Of breaks with both characters one comes after a carriage return where the line ends in one. -/
theorem returned_break_infix_iff (h : ∀ l ∈ image.lines, '\n' ∉ l) (hend : image.lineEnd = .crlf) :
    ['\r', '\r', '\n'] <:+: image.toMarkedText ↔ ∃ l ∈ image.ended, l.getLast? = some '\r' := by
  have hmarked : ['\r', '\r', '\n'] <:+: image.toMarkedText ↔ ['\r', '\r', '\n'] <:+: image.toText := by
    rw [toMarkedText]
    split
    · rw [List.infix_cons_iff, or_iff_right]
      rintro ⟨rest, heq⟩
      exact absurd (List.cons_eq_cons.mp heq).1 (by decide)
    · rfl
  have hrow (l : Text) : ['\r', '\r'] <:+ l ++ returns image.lineEnd ↔ l.getLast? = some '\r' := by
    rw [hend, returns, ← List.singleton_suffix_iff_getLast?_eq_some]
    exact @List.suffix_append_self_iff _ ['\r'] l ['\r']
  rw [hmarked, toText_eq h]
  refine (Text.infix_terminated_append (w := ['\r', '\r']) (by decide) (not_mem_rows (by decide) h)
    (not_mem_tail h)).trans ?_
  simp only [rows, List.mem_map, exists_exists_and_eq_and, hrow]

/-- A carriage return at the end of a line is before a break of the file, or ends the file. -/
theorem returned_of_mem_lines {l : Text} (hend : (ofMarkedText text).lineEnd = .crlf)
    (hl : l ∈ (ofMarkedText text).lines) (hlast : l.getLast? = some '\r') :
    ['\r', '\r', '\n'] <:+: text ∨ text.getLast? = some '\r' := by
  have hfeed := (coherent_ofMarkedText text).not_mem
  have htext := toMarkedText_ofMarkedText text
  rcases mem_ended_or_eq_tail hl with hended | htail
  · rw [← htext, returned_break_infix_iff hfeed hend]
    exact .inl ⟨l, hended, hlast⟩
  · right
    have hne : l ≠ [] := by
      rintro rfl
      cases hlast
    have hsuffix : l <:+ text := by
      rw [← htext, toMarkedText, toText_eq hfeed, ← htail]
      split
      · exact (List.suffix_append _ l).trans (List.suffix_cons mark _)
      · exact List.suffix_append _ l
    obtain ⟨front, rfl⟩ := hsuffix
    rw [List.getLast?_append_of_ne_nil _ hne, hlast]

end LoosePatch.Image
