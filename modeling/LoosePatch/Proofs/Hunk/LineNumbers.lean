import LoosePatch.Hunk.Numbering
import LoosePatch.Proofs.Text.Numeral

/-!
Hunks copied out of a numbered view. Every line but an ellipsis is shown behind a label, a line number and
what separates it from the line; taking copied numbers off gives the lines back (`strip_shown`).
-/

namespace LoosePatch.Numbering

/-! ## Labels -/

/-- What stands between a number and its line. -/
inductive Separator where
  | tab
  | colon
  deriving DecidableEq, Repr

def Separator.text : Separator → Text
  | tab => ['\t']
  | colon => [':', ' ']

/-- A number of one to six digits, with spaces in front and a separator behind. -/
structure Label where
  indent : Nat
  digits : Text
  separator : Separator
  isDigit_of_mem : ∀ c ∈ digits, isDigit c = true
  nonempty : digits ≠ []
  length_le : digits.length ≤ 6

namespace Label

/-- A label with a plain numeral. -/
def ofNumeral (indent n : Nat) (separator : Separator) (h : (numeral n).length ≤ 6) : Label :=
  ⟨indent, numeral n, separator, forall_isDigit_numeral n, Nat.toDigits_ne_nil, h⟩

variable (label : Label)

def number : Nat := label.digits.digitsValue

def text : Text := List.replicate label.indent ' ' ++ label.digits ++ label.separator.text

theorem isBlank_of_mem {c : Char} (h : c ∈ label.digits) : isBlank c = false :=
  isBlank_of_isDigit (label.isDigit_of_mem c h)

theorem isBlankText_text_append (line : Text) : (label.text ++ line).isBlankText = false := by
  obtain ⟨c, hc⟩ := List.exists_mem_of_ne_nil _ label.nonempty
  refine List.all_eq_false.mpr ⟨c, ?_, by rw [label.isBlank_of_mem hc]; exact Bool.false_ne_true⟩
  simp [text, hc]

theorem trimStart_text_append (line : Text) :
    (label.text ++ line).trimStart = label.digits ++ (label.separator.text ++ line) := by
  have hindent : ∀ c ∈ List.replicate label.indent ' ', isBlank c = true := fun c hc => by
    rw [List.eq_of_mem_replicate hc]
    rfl
  obtain ⟨c, ds, hdigits⟩ := List.exists_cons_of_ne_nil label.nonempty
  have hc : isBlank c = false := label.isBlank_of_mem (hdigits ▸ List.mem_cons_self)
  rw [text, List.append_assoc, List.append_assoc, Text.trimStart, List.dropWhile_append_of_pos hindent,
    hdigits, List.cons_append, List.dropWhile_cons_of_neg (Bool.eq_false_iff.mp hc)]

/-- A label is read off whatever line it stands in front of, and nothing of the line with it. -/
theorem readNumbered?_text_append {line : Text} (hbreak : '\n' ∉ line) :
    readNumbered? (label.text ++ line) = some (label.number, line) := by
  have hstop : (label.separator.text ++ line).head?.all (!isDigit ·) = true := by
    cases label.separator <;> rfl
  have hsep : label.separator.text = ['\t'] ∨ label.separator.text = [':', ' '] := by
    cases label.separator with
    | tab => exact .inl rfl
    | colon => exact .inr rfl
  refine readNumbered?_of_readNat? ?_ hsep ?_ hbreak
  · rw [label.trimStart_text_append, readNat?_digits label.isDigit_of_mem label.nonempty hstop, number]
  · rw [label.trimStart_text_append, List.length_append]
    have hlength := label.length_le
    omega

end Label

/-! ## Views -/

/-- A line as a view shows it. An ellipsis has no number. -/
def shown (x : Edit × Label) : Edit :=
  if x.1.isEllipsis then x.1 else { x.1 with text := x.2.text ++ x.1.text }

/-- The rows of a view that have a number. -/
def numberedRows (rows : List (Edit × Label)) : List (Edit × Label) := rows.filter (!·.1.isEllipsis)

def shownNumbers (rows : List (Edit × Label)) : List Nat := (numberedRows rows).map (·.2.number)

/-- How many numbers repeat or follow the one before them. -/
def regularSteps (numbers : List Nat) : Nat :=
  (numbers.zip numbers.tail).countP fun (m, n) => n = m ∨ n = m + 1

theorem steps_eq_regularSteps (numbers : List Nat) : steps numbers = regularSteps numbers := by
  induction numbers with
  | nil => rfl
  | cons m numbers ih =>
    cases numbers with
    | nil => rfl
    | cons n rest =>
      have hcons : regularSteps (m :: n :: rest) =
          regularSteps (n :: rest) + if n = m ∨ n = m + 1 then 1 else 0 := by
        simp only [regularSteps, List.tail_cons, List.zip_cons_cons, List.countP_cons, decide_eq_true_eq]
      rw [steps, ih, hcons, Nat.add_comm]

variable {rows : List (Edit × Label)} {x : Edit × Label}

theorem shown_of_isEllipsis (h : x.1.isEllipsis = true) : shown x = x.1 := if_pos h

theorem shown_of_not_isEllipsis (h : x.1.isEllipsis = false) :
    shown x = { x.1 with text := x.2.text ++ x.1.text } := by
  rw [shown, h, if_neg Bool.false_ne_true]

theorem isEllipsis_shown (x : Edit × Label) : (shown x).isEllipsis = x.1.isEllipsis := by
  unfold shown
  split <;> rfl

theorem isCandidate_shown (x : Edit × Label) : isCandidate (shown x) = !x.1.isEllipsis := by
  rw [isCandidate, isEllipsis_shown]
  cases h : x.1.isEllipsis with
  | true => rfl
  | false => rw [shown_of_not_isEllipsis h, x.2.isBlankText_text_append]; rfl

theorem numbered?_shown (hbreak : x.1.isEllipsis = false → '\n' ∉ x.1.text) :
    numbered? (shown x) = if x.1.isEllipsis then none else some (x.2.number, x.1.text) := by
  rw [numbered?, isCandidate_shown]
  cases h : x.1.isEllipsis with
  | true => rfl
  | false =>
    rw [shown_of_not_isEllipsis h]
    exact x.2.readNumbered?_text_append (hbreak h)

theorem stripEdit_shown (hbreak : x.1.isEllipsis = false → '\n' ∉ x.1.text) : stripEdit (shown x) = x.1 := by
  rw [stripEdit, numbered?_shown hbreak]
  cases h : x.1.isEllipsis with
  | true => exact shown_of_isEllipsis h
  | false => rw [shown_of_not_isEllipsis h]; rfl

theorem countP_isCandidate_shown (rows : List (Edit × Label)) :
    (rows.map shown).countP isCandidate = (shownNumbers rows).length := by
  rw [List.countP_map, shownNumbers, List.length_map, numberedRows, ← List.countP_eq_length_filter]
  exact List.countP_congr fun x _ => by rw [Function.comp_apply, isCandidate_shown]

theorem filterMap_numbered?_shown (hbreak : ∀ x ∈ rows, x.1.isEllipsis = false → '\n' ∉ x.1.text) :
    (rows.map shown).filterMap (fun e => (numbered? e).map Prod.fst) = shownNumbers rows := by
  induction rows with
  | nil => rfl
  | cons x rows ih =>
    obtain ⟨hx, hrows⟩ := List.forall_mem_cons.mp hbreak
    rw [List.map_cons, List.filterMap_cons, numbered?_shown hx, ih hrows]
    cases h : x.1.isEllipsis with
    | true =>
      have hskip : numberedRows (x :: rows) = numberedRows rows := List.filter_cons_of_neg (by simp [h])
      rw [shownNumbers, shownNumbers, hskip]
      rfl
    | false =>
      have hnext : numberedRows (x :: rows) = x :: numberedRows rows :=
        List.filter_cons_of_pos (by simp [h])
      rw [shownNumbers, shownNumbers, hnext]
      rfl

/-- **Numbers taken off.** A view shows edits, two of them with numbers at least, and three fifths of the
steps from number to number are from a line to itself or to the next one. Without the copied numbers the
edits are what they were, however the numbers are set off and whatever the lines look like, blank ones and
numbers in front of lines included. -/
theorem strip_shown (hbreak : ∀ x ∈ rows, x.1.isEllipsis = false → '\n' ∉ x.1.text)
    (htwo : 2 ≤ (numberedRows rows).length)
    (hregular : 3 * ((numberedRows rows).length - 1) ≤ 5 * regularSteps (shownNumbers rows)) :
    strip (rows.map shown) = rows.map Prod.fst := by
  have hlength : (shownNumbers rows).length = (numberedRows rows).length := List.length_map _
  have hview : isView (rows.map shown) = true := by
    simp only [isView, countP_isCandidate_shown, filterMap_numbered?_shown hbreak, hlength,
      steps_eq_regularSteps, Bool.and_eq_true, decide_eq_true_eq]
    omega
  rw [strip, hview, if_pos rfl, List.map_map]
  exact List.map_congr_left fun x hx => stripEdit_shown (hbreak x hx)

/-- Numbers of unequal lengths, the last one out of step, before a blank line, a line that opens with a
number of its own and a line indented with a tab; and an ellipsis, which has none. -/
theorem strip_shown_four_steps :
    let nine := Label.ofNumeral 2 9 .tab (by decide)
    let ten := Label.ofNumeral 1 10 .colon (by decide)
    let eleven := Label.ofNumeral 1 11 .tab (by decide)
    let late := Label.ofNumeral 0 200 .colon (by decide)
    let rows : List (Edit × Label) := [(⟨.keep, "def f():".toList⟩, nine), (⟨.ellipsis, []⟩, nine),
      (⟨.keep, []⟩, ten), (⟨.remove, "    7: x".toList⟩, eleven), (⟨.add, "\ty".toList⟩, eleven),
      (⟨.keep, "end".toList⟩, late)]
    shownNumbers rows = [9, 10, 11, 11, 200] ∧
      (rows.map shown).map (·.text) = ["  9\tdef f():".toList, [], " 10: ".toList,
        " 11\t    7: x".toList, " 11\t\ty".toList, "200: end".toList] ∧
      strip (rows.map shown) = rows.map Prod.fst := by
  intro nine ten eleven late rows
  exact ⟨by decide, by decide, strip_shown (by decide) (by decide) (by decide)⟩

end LoosePatch.Numbering
