import LoosePatch.Proofs.LineRef.Checked
import LoosePatch.Proofs.Text.Numeral
import LoosePatch.Proofs.Text.Trim
import Mathlib.Data.List.Range

/-!
References as they are shown. A reference is read as the line that it was shown for, alone and as
an end of a range (`LineTarget.Shown.read`), and dropped from a row that was copied with it
(`LineRef.dropCopied_rows`).
-/

namespace LoosePatch

/-! ## Characters of references -/

/-- A digit, a lower-case hexadecimal digit or a colon. -/
def isReferenceChar (c : Char) : Bool := c.isDigit || c == ':' || ('a' ≤ c && c ≤ 'f')

variable {c : Char} {s t : Text} {lines : List Text} {j k n : Nat}

theorem isBlank_of_isReferenceChar (h : isReferenceChar c = true) : isBlank c = false := by
  have hrange : (48 ≤ c.toNat ∧ c.toNat ≤ 58) ∨ (97 ≤ c.toNat ∧ c.toNat ≤ 102) := by
    simp only [isReferenceChar, Char.isDigit, Bool.or_eq_true, Bool.and_eq_true, decide_eq_true_eq,
      beq_iff_eq] at h
    rcases h with (⟨hle, hge⟩ | rfl) | ⟨hle, hge⟩
    · exact .inl ⟨hle, Nat.le_succ_of_le hge⟩
    · decide
    · exact .inr ⟨hle, hge⟩
  simp only [isBlank, Bool.or_eq_false_iff, Bool.and_eq_false_iff, decide_eq_false_iff_not,
    beq_eq_false_iff_ne, ne_eq]
  omega

theorem not_mem_of_isReferenceChar (hc : isReferenceChar c = false)
    (hs : ∀ d ∈ s, isReferenceChar d = true) : c ∉ s := by
  intro hmem
  rw [hs c hmem] at hc
  cases hc

namespace Text

/-- The text before the first dots has no dot. -/
theorem cutAt_dots (h : '.' ∉ s) (t : Text) :
    cutAt LineTarget.dots (s ++ LineTarget.dots ++ t) = some (s, t) := by
  induction s with
  | nil => simp [cutAt, LineTarget.dots]
  | cons c s ih =>
    rw [List.mem_cons, not_or] at h
    have hfirst : LineTarget.dots.isPrefixOf (c :: (s ++ LineTarget.dots ++ t)) = false := by
      simp [LineTarget.dots, List.isPrefixOf, h.1]
    rw [List.cons_append, List.cons_append, cutAt, hfirst, ih h.2]
    rfl

theorem cutAt_dots_of_not_mem (h : '.' ∉ s) : cutAt LineTarget.dots s = none := by
  induction s with
  | nil => rfl
  | cons c s ih =>
    rw [List.mem_cons, not_or] at h
    have hfirst : LineTarget.dots.isPrefixOf (c :: s) = false := by
      simp [LineTarget.dots, List.isPrefixOf, h.1]
    rw [cutAt, hfirst, ih h.2]
    rfl

theorem not_occursIn_dots (h : '.' ∉ s) : occursIn LineTarget.dots s = false := by
  induction s with
  | nil => rfl
  | cons c s ih =>
    rw [List.mem_cons, not_or] at h
    have hfirst : LineTarget.dots.isPrefixOf (c :: s) = false := by
      simp [LineTarget.dots, List.isPrefixOf, h.1]
    rw [occursIn, hfirst, Bool.false_or, ih h.2]

end Text

/-! ## Hashes -/

theorem hexDigits_byte {b : Nat} (h : b < 256) : (hexDigits 2 b).length = 2 ∧
    ∀ c ∈ hexDigits 2 b, isHexDigit c = true ∧ isReferenceChar c = true ∧ c.toLower = c := by
  have hall : (List.range 256).all (fun b => (hexDigits 2 b).length == 2 &&
      (hexDigits 2 b).all fun c => isHexDigit c && isReferenceChar c && c.toLower == c) = true := by
    decide +kernel
  simpa only [Bool.and_eq_true, List.all_eq_true, beq_iff_eq, and_assoc] using
    List.all_eq_true.mp hall b (List.mem_range.mpr h)

namespace Sha256

theorem length_bytesOf (width n : Nat) : (bytesOf width n).length = width := by
  rw [bytesOf, List.length_map, List.length_range]

theorem length_digest (message : List UInt8) : (digest message).length = 32 := by
  simp only [digest, List.flatMap_cons, List.flatMap_nil, List.length_append, length_bytesOf,
    List.length_nil]

end Sha256

namespace LineRef

theorem mem_hashOf {number : Int} {line : Text} (h : c ∈ hashOf number line) :
    isHexDigit c = true ∧ isReferenceChar c = true ∧ c.toLower = c := by
  obtain ⟨b, -, hc⟩ := List.mem_flatMap.mp (List.mem_of_mem_take h)
  exact (hexDigits_byte b.toNat_lt).2 c hc

theorem length_hashOf (number : Int) (line : Text) : (hashOf number line).length = hashLength := by
  have hhex (bytes : List UInt8) :
      (bytes.flatMap fun b => hexDigits 2 b.toNat).length = 2 * bytes.length := by
    induction bytes with
    | nil => rfl
    | cons b bytes ih =>
      rw [List.flatMap_cons, List.length_append, ih, (hexDigits_byte b.toNat_lt).1,
        List.length_cons]
      omega
  rw [hashOf, List.length_take, hhex, Sha256.length_digest]
  rfl

/-! ## References -/

/-- The reference to a line of a file as it is now. -/
def ofLine (lines : List Text) (k : Nat) : LineRef := ⟨k, hashOf k (lines.getD (k - 1) [])⟩

/-- A reference as it is shown. -/
def shown (ref : LineRef) : Text := numeral ref.line ++ ':' :: ref.hash

/-- A line of a file as it is shown, after its reference. -/
def shownRow (lines : List Text) (k : Nat) : Text :=
  (ofLine lines k).shown ++ '|' :: ' ' :: lines.getD (k - 1) []

theorem shown_ne_nil (ref : LineRef) : ref.shown ≠ [] := by simp [shown]

theorem isReferenceChar_of_mem_numeral_hash (k : Nat) {hash : Text}
    (hchars : ∀ c ∈ hash, isReferenceChar c = true) :
    ∀ c ∈ numeral k ++ ':' :: hash, isReferenceChar c = true := by
  intro c hc
  rcases List.mem_append.mp hc with hc | hc
  · simp [isReferenceChar, isDigit_of_mem_numeral hc]
  · rcases List.mem_cons.mp hc with rfl | hc
    exacts [rfl, hchars c hc]

theorem isReferenceChar_of_mem_shown (h : c ∈ (ofLine lines k).shown) : isReferenceChar c = true :=
  isReferenceChar_of_mem_numeral_hash k (fun _ hd => (mem_hashOf hd).2.1) c h

theorem not_mem_shown (hc : isReferenceChar c = false) : c ∉ (ofLine lines k).shown :=
  not_mem_of_isReferenceChar hc fun _ hd => isReferenceChar_of_mem_shown hd

/-- A reference begins with a character of references. -/
theorem exists_shown_eq_cons (lines : List Text) (k : Nat) :
    ∃ c rest, (ofLine lines k).shown = c :: rest ∧ isReferenceChar c = true := by
  obtain ⟨c, rest, hshown⟩ := List.exists_cons_of_ne_nil (shown_ne_nil (ofLine lines k))
  exact ⟨c, rest, hshown, isReferenceChar_of_mem_shown (hshown ▸ List.mem_cons_self)⟩

theorem isPrefixOf?_dots_shown (lines : List Text) (k : Nat) (rest : Text) :
    LineTarget.dots.isPrefixOf? ((ofLine lines k).shown ++ rest) = none := by
  obtain ⟨c, s, hshown, hchar⟩ := exists_shown_eq_cons lines k
  have hc : '.' ≠ c := by
    rintro rfl
    cases hchar
  rw [hshown]
  simp [LineTarget.dots, List.isPrefixOf?, hc]

theorem isBlankText_shown (lines : List Text) (k : Nat) : (ofLine lines k).shown.isBlankText = false := by
  obtain ⟨c, s, hshown, hchar⟩ := exists_shown_eq_cons lines k
  rw [hshown, Text.isBlankText, List.all_cons, isBlank_of_isReferenceChar hchar, Bool.false_and]

theorem readNumeral?_shown (lines : List Text) (k : Nat) (rest : Text) :
    Text.readNumeral? ((ofLine lines k).shown ++ rest) =
      some (numeral k, ':' :: (ofLine lines k).hash ++ rest) := by
  rw [shown, List.append_assoc]
  exact readNumeral?_numeral k rfl

/-- A numeral before a hash is read unless it is too long or stands for 0. -/
theorem read_numeral_hash (k : Nat) {hash : Text} (hhash : isHash hash = true)
    (hchars : ∀ c ∈ hash, isReferenceChar c = true) :
    read (numeral k ++ ':' :: hash) = (do
      let line ← readNumber (numeral k)
      if line < 1 then refuse (.lineBelowOne line (numeral k ++ ':' :: hash))
      else .ok ⟨line, hash.map Char.toLower⟩) := by
  have hall := isReferenceChar_of_mem_numeral_hash k hchars
  have hbar : (numeral k ++ ':' :: hash).takeWhile (· ≠ '|') = numeral k ++ ':' :: hash :=
    List.takeWhile_eq_self_iff.mpr fun c hc => by
      simpa using fun heq : c = '|' => not_mem_of_isReferenceChar rfl hall (heq ▸ hc)
  have htrim : Text.trim (numeral k ++ ':' :: hash) = numeral k ++ ':' :: hash :=
    Text.trim_of_not_blank fun c hc => isBlank_of_isReferenceChar (hall c hc)
  have hnumeral : Text.readNumeral? (numeral k ++ ':' :: hash) = some (numeral k, ':' :: hash) :=
    readNumeral?_numeral k rfl
  simp only [read, hbar, htrim, hnumeral, hhash]
  rfl

/-- A reference is read as what it was shown for, unless its number is too long. -/
theorem read_shown (lines : List Text) (hpos : 1 ≤ k) (hfew : Readable k) :
    read (ofLine lines k).shown = .ok (ofLine lines k) := by
  have hlength : (ofLine lines k).hash.length = hashLength := length_hashOf _ _
  have hhash : isHash (ofLine lines k).hash = true := by
    have hall : ∀ c ∈ (ofLine lines k).hash, isHexDigit c = true := fun c hc => (mem_hashOf hc).1
    rw [isHash, Bool.and_eq_true, Bool.and_eq_true, List.all_eq_true]
    refine ⟨⟨?_, by rw [hlength]; rfl⟩, hall⟩
    rw [Bool.not_eq_true', List.isEmpty_eq_false_iff, ← List.length_pos_iff, hlength]
    decide
  have hlower : (ofLine lines k).hash.map Char.toLower = (ofLine lines k).hash :=
    (List.map_congr_left fun c hc => (mem_hashOf hc).2.2).trans (List.map_id _)
  have hread := read_numeral_hash k hhash fun c hc => (mem_hashOf hc).2.1
  rw [hfew.readNumber_numeral, hlower] at hread
  exact hread.trans (if_neg (Nat.not_lt.mpr hpos))

end LineRef

/-! ## Targets -/

namespace LineTarget

/-- The forms of targets that are made of the references to a file's lines. -/
inductive Shown (lines : List Text) : Text → LineTarget → Prop
  | single {k : Nat} (pos : 1 ≤ k) (le : k ≤ lines.length) :
    Shown lines (LineRef.ofLine lines k).shown (.single (.ofLine lines k))
  | range {j k : Nat} (pos : 1 ≤ j) (ascending : j ≤ k) (le : k ≤ lines.length) :
    Shown lines ((LineRef.ofLine lines j).shown ++ dots ++ (LineRef.ofLine lines k).shown)
      (.range (.ofLine lines j) (.ofLine lines k))
  | after {k : Nat} (pos : 1 ≤ k) (le : k ≤ lines.length) :
    Shown lines ((LineRef.ofLine lines k).shown ++ dots) (.after (.ofLine lines k))
  | before {k : Nat} (pos : 1 ≤ k) (le : k ≤ lines.length) :
    Shown lines (dots ++ (LineRef.ofLine lines k).shown) (.before (.ofLine lines k))

variable {src : Text} {target : LineTarget}

/-- A text of these characters and dots is one text on one line, with no blanks around it. -/
theorem bare_of_chars (h : ∀ c ∈ src, isReferenceChar c = true ∨ c = '.') :
    src.contains '\n' = false ∧ src.contains ',' = false ∧ src.trim = src := by
  have hnot {c : Char} (hc : isReferenceChar c = false) (hdot : c ≠ '.') : src.contains c = false := by
    refine Bool.eq_false_iff.mpr fun hmem => ?_
    rcases h c (List.contains_iff_mem.mp hmem) with hchar | heq
    · rw [hchar] at hc
      cases hc
    · exact hdot heq
  refine ⟨hnot (by decide) (by decide), hnot (by decide) (by decide), ?_⟩
  refine Text.trim_of_not_blank fun c hc => ?_
  rcases h c hc with hchar | rfl
  · exact isBlank_of_isReferenceChar hchar
  · decide

/-- A numeral before a hash is a single line, if it can be read. -/
theorem read_numeral_hash (k : Nat) {hash : Text} (hchars : ∀ c ∈ hash, isReferenceChar c = true) :
    read (numeral k ++ ':' :: hash) = (do
      return single (← LineRef.read (numeral k ++ ':' :: hash))) := by
  have hall := LineRef.isReferenceChar_of_mem_numeral_hash k hchars
  have hdot : '.' ∉ numeral k ++ ':' :: hash := not_mem_of_isReferenceChar rfl hall
  obtain ⟨hbreak, hcomma, htrim⟩ := bare_of_chars fun c hc => .inl (hall c hc)
  have hlead : dots.isPrefixOf? (numeral k ++ ':' :: hash) = none := by
    refine Option.eq_none_iff_forall_ne_some.mpr fun rest hrest => hdot ?_
    rw [← List.isPrefixOf?_eq_some_iff_append_eq.mp hrest]
    exact List.mem_append_left rest List.mem_cons_self
  rw [read, hbreak, hcomma]
  simp only [Bool.false_eq_true, if_false, htrim, hlead, Text.cutAt_dots_of_not_mem hdot]

namespace Shown

/-- Targets are written with the characters of references and dots. -/
theorem mem_src (h : Shown lines src target) (hc : c ∈ src) : isReferenceChar c = true ∨ c = '.' := by
  have hdots (h : c ∈ dots) : c = '.' := by simpa [dots] using h
  cases h with
  | single => exact .inl (LineRef.isReferenceChar_of_mem_shown hc)
  | range =>
    rcases List.mem_append.mp hc with hc | hc
    · exact (List.mem_append.mp hc).imp LineRef.isReferenceChar_of_mem_shown hdots
    · exact .inl (LineRef.isReferenceChar_of_mem_shown hc)
  | after => exact (List.mem_append.mp hc).imp LineRef.isReferenceChar_of_mem_shown hdots
  | before => exact (List.mem_append.mp hc).symm.imp LineRef.isReferenceChar_of_mem_shown hdots

/-- A shown target is read as the lines that it was shown for. -/
theorem read (h : Shown lines src target) (hfew : Readable lines.length) :
    LineTarget.read src = .ok target := by
  obtain ⟨hbreak, hcomma, htrim⟩ := bare_of_chars fun c hc => h.mem_src hc
  have hdot (k : Nat) : '.' ∉ (LineRef.ofLine lines k).shown := LineRef.not_mem_shown rfl
  rw [LineTarget.read, hbreak, hcomma]
  simp only [Bool.false_eq_true, if_false, htrim]
  cases h with
  | @single k pos le =>
    have hlead := LineRef.isPrefixOf?_dots_shown lines k []
    rw [List.append_nil] at hlead
    simp only [hlead, Text.cutAt_dots_of_not_mem (hdot k),
      LineRef.read_shown lines pos (hfew.of_le le)]
    rfl
  | @range j k pos ascending le =>
    simp only [List.append_assoc, LineRef.isPrefixOf?_dots_shown]
    rw [← List.append_assoc]
    simp only [Text.cutAt_dots (hdot j), LineRef.isBlankText_shown,
      LineRef.read_shown lines pos (hfew.of_le (ascending.trans le)),
      LineRef.read_shown lines (pos.trans ascending) (hfew.of_le le), Bool.false_eq_true, if_false]
    rfl
  | @after k pos le =>
    have hcut := Text.cutAt_dots (hdot k) []
    rw [List.append_nil] at hcut
    simp only [LineRef.isPrefixOf?_dots_shown, hcut, LineRef.read_shown lines pos (hfew.of_le le)]
    rfl
  | @before k pos le =>
    have hlead : dots.isPrefixOf? (dots ++ (LineRef.ofLine lines k).shown) =
        some (LineRef.ofLine lines k).shown := List.isPrefixOf?_eq_some_iff_append_eq.mpr rfl
    simp only [hlead, Text.not_occursIn_dots (hdot k), LineRef.read_shown lines pos (hfew.of_le le),
      Bool.false_eq_true, if_false]
    rfl

/-- An edit of the file with a shown target is accepted as fresh. -/
theorem current (h : Shown lines src target) {new : List Text}
    (hnew : target.isInsertion = true → new ≠ []) : TargetEdit.Current lines ⟨target, new⟩ := by
  have hfresh {k : Nat} (le : k ≤ lines.length) :
      (LineRef.ofLine lines k).line ≤ lines.length ∧
        LineRef.hashOf (LineRef.ofLine lines k).line
          (lines.getD ((LineRef.ofLine lines k).line - 1) []) = (LineRef.ofLine lines k).hash :=
    ⟨le, rfl⟩
  cases h with
  | single pos le =>
    refine ⟨⟨pos, le_rfl, le⟩, fun ref href => ?_, hnew⟩
    rw [List.mem_singleton.mp href]
    exact hfresh le
  | range pos ascending le =>
    refine ⟨⟨pos, ascending, le⟩, fun ref href => ?_, hnew⟩
    rcases List.mem_pair.mp href with rfl | rfl
    · exact hfresh (ascending.trans le)
    · exact hfresh le
  | after pos le =>
    refine ⟨⟨pos, le_rfl, le⟩, fun ref href => ?_, hnew⟩
    rw [List.mem_singleton.mp href]
    exact hfresh le
  | before pos le =>
    refine ⟨⟨pos, le_rfl, le⟩, fun ref href => ?_, hnew⟩
    rw [List.mem_singleton.mp href]
    exact hfresh le

end Shown
end LineTarget

/-! ## Rows -/

namespace LineRef

theorem row_eq_shownRow (lines : List Text) (k : Nat) :
    row k (lines.getD (k - 1) []) = shownRow lines k := by
  rw [row, signedNumeral_natCast]
  rfl

/-- The rows of the lines from `first` to `last`. -/
theorem rows_eq {first last : Nat} (hfirst : 1 ≤ first) (hlast : last ≤ lines.length) :
    rows first ((lines.take last).drop (first - 1)) =
      (List.range' first (last + 1 - first)).map (shownRow lines) := by
  generalize hn : last + 1 - first = n
  induction n generalizing first with
  | zero =>
    rw [List.drop_eq_nil_of_le (by rw [List.length_take]; omega)]
    rfl
  | succ n ih =>
    have hline : first - 1 < (lines.take last).length := by
      rw [List.length_take]
      omega
    have hget : (lines.take last)[first - 1] = lines.getD (first - 1) [] := by
      rw [List.getElem_take, List.getElem_eq_getD []]
    have hrest := @ih (first + 1) (by omega) (by omega)
    rw [Nat.add_sub_cancel] at hrest
    rw [List.drop_eq_getElem_cons hline, rows, hget, row_eq_shownRow, List.range'_succ, List.map_cons,
      Nat.sub_add_cancel hfirst]
    exact congrArg _ hrest

/-- What was shown of a line is found again behind its reference. -/
theorem afterReference?_shownRow (lines : List Text) (k : Nat) :
    afterReference? (shownRow lines k) = some (lines.getD (k - 1) []) := by
  have hlength : (ofLine lines k).hash.length = hashLength := length_hashOf _ _
  have hhash : ((ofLine lines k).hash ++ '|' :: ' ' :: lines.getD (k - 1) []).takeWhile isHexDigit =
      (ofLine lines k).hash := by
    have hall : ∀ c ∈ (ofLine lines k).hash, isHexDigit c = true := fun c hc => (mem_hashOf hc).1
    rw [List.takeWhile_append_of_pos hall, List.takeWhile_cons_of_neg (by decide), List.append_nil]
  have hnonempty : (ofLine lines k).hash.isEmpty = false := by
    rw [List.isEmpty_eq_false_iff, ← List.length_pos_iff, hlength]
    decide
  have hcolon : [':'].isPrefixOf? (':' :: (ofLine lines k).hash ++ '|' :: ' ' :: lines.getD (k - 1) []) =
      some ((ofLine lines k).hash ++ '|' :: ' ' :: lines.getD (k - 1) []) :=
    List.isPrefixOf?_eq_some_iff_append_eq.mpr rfl
  rw [afterReference?, shownRow, Text.readNat?, readNumeral?_shown]
  simp only [Option.map_some, Option.bind_eq_bind, Option.bind_some, hcolon, hhash, hnonempty,
    List.drop_left]
  rw [if_neg (by rw [hlength]; decide)]
  exact List.isPrefixOf?_eq_some_iff_append_eq.mpr rfl

/-- Rows that were copied are taken for what was shown in them. -/
theorem dropCopied_rows (lines : List Text) {ks : List Nat} (hne : ks ≠ []) :
    dropCopied (ks.map (shownRow lines)) = ks.map fun k => lines.getD (k - 1) [] := by
  have hmarked : (ks.map (shownRow lines)).countP (fun l => (afterReference? l).isSome) = ks.length := by
    rw [List.countP_map, List.countP_eq_length.mpr fun k _ => ?_]
    simp [afterReference?_shownRow]
  have husual : isUsual afterReference? (ks.map (shownRow lines)) = true := by
    have hle := List.countP_le_length (p := (!·.isEmpty)) (l := ks.map (shownRow lines))
    have hpos := List.length_pos_iff.mpr hne
    rw [List.length_map] at hle
    simp only [isUsual, hmarked, Bool.and_eq_true, decide_eq_true_eq]
    omega
  rw [dropCopied, if_pos husual, List.map_map]
  refine List.map_congr_left fun k _ => ?_
  rw [Function.comp_apply, dropMark, afterReference?_shownRow, Option.getD_some]

theorem keepSpacing_self (lines : List Text) : keepSpacing lines lines = lines := by
  rw [keepSpacing, if_pos rfl]
  refine List.ext_getElem (by simp) fun i hi hi' => ?_
  rw [List.getElem_zipWith, ite_self]

end LineRef
end LoosePatch
