import LoosePatch.Hunk.Basic
import LoosePatch.Text.Blank
import LoosePatch.Text.Digit

/-!
Line numbers copied into a hunk from a numbered view of the file. They are taken off only when
most lines carry one and most steps between them are those of a view.
-/

namespace LoosePatch.Numbering

/-- What may stand after a number and its separator: anything without an inner line feed. A line
feed at the very end is dropped. -/
private def body? (s : Text) : Option Text :=
  let s' := if s.getLast? = some '\n' then s.dropLast else s
  if s'.contains '\n' then none else some s'

/-- The rests that the separators leave, in the order in which they are tried: a tab, a colon or
a bar with an optional blank on its right (for the bar also on its left), a single blank. -/
private def afterSeparator (s : Text) : List Text :=
  let afterBlank : Text → List Text
    | [] => []
    | c :: rest => if isBlank c then [rest] else []
  let afterBar : Text → List Text
    | '|' :: rest => afterBlank rest ++ [rest]
    | _ => []
  (match s with
    | '\t' :: rest => [rest]
    | ':' :: rest => afterBlank rest ++ [rest]
    | _ => []) ++ (afterBlank s).flatMap afterBar ++ afterBar s ++ afterBlank s

/-- A number of at most six digits at the head of a line, and the line without it. -/
def readNumbered? (line : Text) : Option (Nat × Text) := do
  let s := line.trimStart
  let (n, rest) ← s.readNat?
  let text ← (afterSeparator rest).findSome? body?
  if 6 < s.length - rest.length then none else some (n, text)

/-- Lines on which a number could stand. -/
def isCandidate (e : Edit) : Bool := !e.isEllipsis && !e.text.isBlankText

def numbered? (e : Edit) : Option (Nat × Text) :=
  if isCandidate e then readNumbered? e.text else none

/-- How many numbers repeat or follow the one before them. -/
def steps : List Nat → Nat
  | m :: n :: rest => (if n = m ∨ n = m + 1 then 1 else 0) + steps (n :: rest)
  | _ => 0

/-- Whether the numbers are those of a view: at least two, on three fifths of the lines that
could carry one, and with three fifths of their steps regular. -/
def isView (edits : List Edit) : Bool :=
  let candidates := edits.countP isCandidate
  let numbers := edits.filterMap fun e => (numbered? e).map Prod.fst
  2 ≤ numbers.length && 3 * candidates ≤ 5 * numbers.length &&
    3 * (numbers.length - 1) ≤ 5 * steps numbers

def stripEdit (e : Edit) : Edit :=
  match numbered? e with
  | some (_, text) => { e with text }
  | none => e

/-- The edits without copied line numbers. -/
def strip (edits : List Edit) : List Edit := if isView edits then edits.map stripEdit else edits

/-! ## What stays of a line was in it -/

private theorem body?_subset {s t : Text} (h : body? s = some t) : t ⊆ s := by
  have hdrop : (if s.getLast? = some '\n' then s.dropLast else s) ⊆ s := by
    split
    · exact List.dropLast_subset s
    · exact List.Subset.refl s
  unfold body? at h
  extract_lets s' at h
  split at h
  · cases h
  · exact Option.some.inj h ▸ hdrop

/-- Blanks, colons and bars separate a number from the line behind it. -/
def Separates (sep : Text) : Prop := sep ≠ [] ∧ ∀ c ∈ sep, isBlank c = true ∨ c = ':' ∨ c = '|'

private theorem Separates.append {s t : Text} (hs : Separates s) (ht : Separates t) :
    Separates (s ++ t) :=
  ⟨List.append_ne_nil_of_left_ne_nil hs.1 t, List.forall_mem_append.mpr ⟨hs.2, ht.2⟩⟩

private theorem separates_singleton {c : Char} (h : isBlank c = true ∨ c = ':' ∨ c = '|') :
    Separates [c] :=
  ⟨List.cons_ne_nil c [], fun _ hc => List.mem_singleton.mp hc ▸ h⟩

private theorem afterSeparator_eq_append {s t : Text} (h : t ∈ afterSeparator s) :
    ∃ sep, s = sep ++ t ∧ Separates sep := by
  have hmark {c : Char} {s : Text} (hc : c = ':' ∨ c = '|') (ht : ∃ sep, s = sep ++ t ∧ Separates sep) :
      ∃ sep, c :: s = sep ++ t ∧ Separates sep := by
    obtain ⟨sep, rfl, hsep⟩ := ht
    exact ⟨c :: sep, rfl, (separates_singleton (.inr hc)).append hsep⟩
  unfold afterSeparator at h
  extract_lets afterBlank afterBar at h
  have hblank : ∀ {s t : Text}, t ∈ afterBlank s → ∃ sep, s = sep ++ t ∧ Separates sep := by
    intro s t ht
    cases s with
    | nil => cases ht
    | cons c s =>
      simp only [afterBlank] at ht
      split at ht
      · rename_i hc
        exact List.mem_singleton.mp ht ▸ ⟨[c], rfl, separates_singleton (.inl hc)⟩
      · cases ht
  have hbar : ∀ {s : Text}, t ∈ afterBar s → ∃ sep, s = sep ++ t ∧ Separates sep := by
    intro s ht
    simp only [afterBar] at ht
    split at ht
    · rcases List.mem_append.mp ht with ht | ht
      · exact hmark (.inr rfl) (hblank ht)
      · exact List.mem_singleton.mp ht ▸ ⟨['|'], rfl, separates_singleton (.inr (.inr rfl))⟩
    · cases ht
  rcases List.mem_append.mp h with h | h
  · rcases List.mem_append.mp h with h | h
    · rcases List.mem_append.mp h with h | h
      · split at h
        · exact List.mem_singleton.mp h ▸ ⟨['\t'], rfl, separates_singleton (.inl (by decide))⟩
        · rcases List.mem_append.mp h with h | h
          · exact hmark (.inl rfl) (hblank h)
          · exact List.mem_singleton.mp h ▸ ⟨[':'], rfl, separates_singleton (.inr (.inl rfl))⟩
        · cases h
      · obtain ⟨rest, hrest, ht⟩ := List.mem_flatMap.mp h
        obtain ⟨sep, rfl, hsep⟩ := hblank hrest
        obtain ⟨sep', rfl, hsep'⟩ := hbar ht
        exact ⟨sep ++ sep', (List.append_assoc sep sep' t).symm, hsep.append hsep'⟩
    · exact hbar h
  · exact hblank h

theorem readNumbered?_subset {line text : Text} {n : Nat} (h : readNumbered? line = some (n, text)) :
    text ⊆ line := by
  obtain ⟨⟨m, rest⟩, hnat, h⟩ := Option.bind_eq_some_iff.mp h
  obtain ⟨body, hbody, h⟩ := Option.bind_eq_some_iff.mp h
  have hrest : rest <:+ line.trimStart := by
    obtain ⟨digits, hsplit, -⟩ := Text.eq_append_of_readNat? hnat
    exact ⟨digits, hsplit.symm⟩
  obtain ⟨piece, hpiece, hbody⟩ := List.exists_of_findSome?_eq_some hbody
  have hsuffix : piece <:+ line := by
    obtain ⟨sep, hsep, -⟩ := afterSeparator_eq_append hpiece
    exact (hsep ▸ List.suffix_append sep piece : piece <:+ rest).trans
      (hrest.trans (List.dropWhile_suffix isBlank))
  have htext : body = text := by
    split at h
    · cases h
    · exact congrArg Prod.snd (Option.some.inj h)
  exact htext ▸ List.Subset.trans (body?_subset hbody) hsuffix.subset

/-- A number of at most six digits, with blanks in front and a separator behind. -/
def IsNumber (lead : Text) : Prop :=
  ∃ blanks digits sep, lead = blanks ++ digits ++ sep ∧ (∀ c ∈ blanks, isBlank c = true) ∧
    digits ≠ [] ∧ digits.length ≤ 6 ∧ (∀ c ∈ digits, isDigit c = true) ∧ Separates sep

private theorem body?_eq_self {s : Text} (hbreak : '\n' ∉ s) : body? s = some s := by
  have hlast : s.getLast? ≠ some '\n' := fun heq => hbreak (List.mem_of_getLast? heq)
  rw [body?, if_neg hlast, List.contains_eq_mem, decide_eq_false hbreak, if_neg Bool.false_ne_true]

/-- What is read off a line without a line feed is a number in front of it. -/
theorem readNumbered?_eq_some {line text : Text} {n : Nat} (hbreak : '\n' ∉ line)
    (h : readNumbered? line = some (n, text)) : ∃ lead, line = lead ++ text ∧ IsNumber lead := by
  obtain ⟨⟨m, rest⟩, hnat, h⟩ := Option.bind_eq_some_iff.mp h
  obtain ⟨body, hbody, h⟩ := Option.bind_eq_some_iff.mp h
  obtain ⟨digits, hsplit, hne, hdigits⟩ := Text.eq_append_of_readNat? hnat
  have hline : line = line.takeWhile isBlank ++ (digits ++ rest) := by
    rw [← hsplit]
    exact List.takeWhile_append_dropWhile.symm
  obtain ⟨piece, hpiece, hbodyOf⟩ := List.exists_of_findSome?_eq_some hbody
  obtain ⟨sep, rfl, hsep⟩ := afterSeparator_eq_append hpiece
  have hpieceBreak : '\n' ∉ piece := by
    intro hmem
    rw [hline] at hbreak
    simp [hmem] at hbreak
  split at h
  · cases h
  · rename_i hlength
    have htext : piece = text := by
      rw [body?_eq_self hpieceBreak] at hbodyOf
      exact (Option.some.inj hbodyOf).trans (congrArg Prod.snd (Option.some.inj h))
    subst htext
    refine ⟨line.takeWhile isBlank ++ digits ++ sep, by simpa using hline, _, digits, sep, rfl,
      List.all_eq_true.mp List.all_takeWhile, hne, ?_, hdigits, hsep⟩
    rw [hsplit, List.length_append] at hlength
    omega

/-- Behind a tab, or a colon with a space, everything without a line feed is text. -/
theorem readNumbered?_of_readNat? {line sep text : Text} {n : Nat}
    (hnat : line.trimStart.readNat? = some (n, sep ++ text)) (hsep : sep = ['\t'] ∨ sep = [':', ' '])
    (hlength : line.trimStart.length ≤ 6 + (sep ++ text).length) (hbreak : '\n' ∉ text) :
    readNumbered? line = some (n, text) := by
  have hfirst : (afterSeparator (sep ++ text)).findSome? body? = some text := by
    obtain ⟨others, hothers⟩ : ∃ others, afterSeparator (sep ++ text) = text :: others := by
      rcases hsep with rfl | rfl <;> exact ⟨_, rfl⟩
    rw [hothers, List.findSome?_cons, body?_eq_self hbreak]
  simp only [readNumbered?, hnat, hfirst, Option.bind_eq_bind, Option.bind_some]
  rw [if_neg (by omega)]

theorem stripEdit_text_subset (e : Edit) : (stripEdit e).text ⊆ e.text := by
  unfold stripEdit
  split
  · rename_i n text h
    unfold numbered? at h
    split at h
    · exact readNumbered?_subset h
    · cases h
  · exact List.Subset.refl _

theorem stripEdit_cases {e : Edit} (hbreak : '\n' ∉ e.text) : stripEdit e = e ∨
    ∃ lead text, e.text = lead ++ text ∧ IsNumber lead ∧ stripEdit e = { e with text } := by
  unfold stripEdit
  split
  · rename_i n text h
    unfold numbered? at h
    split at h
    · obtain ⟨lead, hsplit, hlead⟩ := readNumbered?_eq_some hbreak h
      exact .inr ⟨lead, text, hsplit, hlead, rfl⟩
    · cases h
  · exact .inl rfl

theorem strip_text_subset {edits : List Edit} {e : Edit} (h : e ∈ strip edits) :
    ∃ e' ∈ edits, e.text ⊆ e'.text := by
  unfold strip at h
  split at h
  · obtain ⟨e', he', rfl⟩ := List.mem_map.mp h
    exact ⟨e', he', stripEdit_text_subset e'⟩
  · exact ⟨e, h, List.Subset.refl _⟩

end LoosePatch.Numbering
