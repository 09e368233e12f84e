import LoosePatch.Proofs.Hunk.Reading

/-!
Every line of a diff is accounted for. The lines that stand for edits are, in order, those of the edits
of all hunks: all lines that are not empty but headers and end-of-file markers, and the empty lines in
the body of a hunk but those between it and the next header (`parse_accounts`).
-/

namespace LoosePatch.Hunk

variable {line : Text} {lines rest : List Text} {edits : List Edit} {begun : Bool}

/-! ## What a line stands for -/

/-- An ellipsis takes up its line, blanks aside, and has no mark of an added or a removed line. -/
def IsEllipsis (line : Text) : Prop :=
  (line.trim = ['.', '.', '.'] ∨ line.trim = ['…']) ∧ line.head? ≠ some '+' ∧ line.head? ≠ some '-'

/-- The edit that a line is written for. -/
inductive Writes : Text → Edit → Prop
  | add (s : Text) : Writes ('+' :: s) ⟨.add, s⟩
  | remove (s : Text) : Writes ('-' :: s) ⟨.remove, s⟩
  | keep {s : Text} (h : ¬ IsEllipsis (' ' :: s)) : Writes (' ' :: s) ⟨.keep, s⟩
  | bare {line : Text} (h : ¬ IsEllipsis line) (hmark : isMarked line = false) :
      Writes line ⟨.keep, line⟩
  | ellipsis {line : Text} (h : IsEllipsis line) : Writes line ⟨.ellipsis, []⟩

/-- The edit that a line stands for, whose text may have lost a line number in front. -/
def StandsFor (line : Text) (e : Edit) : Prop :=
  ∃ written, Writes line written ∧ (e = written ∨
    ∃ lead text, written.text = lead ++ text ∧ Numbering.IsNumber lead ∧ e = { written with text })

theorem ellipses_contains_iff (line : Text) :
    (ellipses.contains line.trim && !line.head?.any fun c => c == '+' || c == '-') = true ↔
      IsEllipsis line := by
  cases line with
  | nil => simp [ellipses, IsEllipsis]
  | cons c s => simp [ellipses, IsEllipsis]

theorem writes_editOf (line : Text) : Writes line (editOf line) := by
  unfold editOf
  split
  · rename_i h
    exact .ellipsis ((ellipses_contains_iff line).mp h)
  · rename_i h
    have hdots : ¬ IsEllipsis line := mt (ellipses_contains_iff line).mpr h
    split
    · exact .keep hdots
    · exact .add _
    · exact .remove _
    · rename_i hspace hplus hminus
      refine .bare hdots ?_
      cases line with
      | nil => rfl
      | cons c s =>
        have hc : c ≠ ' ' ∧ c ≠ '+' ∧ c ≠ '-' :=
          ⟨fun h => hspace s (h ▸ rfl), fun h => hplus s (h ▸ rfl), fun h => hminus s (h ▸ rfl)⟩
        simpa [isMarked, and_assoc] using hc

/-! ## Lines with what becomes of them -/

/-- A line of a diff, and whether it stands for an edit. -/
structure Row where
  line : Text
  made : Bool
  deriving DecidableEq, Repr

/-- The lines that stand for edits. -/
def madeLines (rows : List Row) : List Text := (rows.filter Row.made).map Row.line

/-- Lines that stand for no edits. -/
def unmade (ls : List Text) : List Row := ls.map (⟨·, false⟩)

@[simp]
theorem map_line_unmade (ls : List Text) : (unmade ls).map Row.line = ls := by
  simp [unmade, Function.comp_def]

@[simp]
theorem madeLines_unmade (ls : List Text) : madeLines (unmade ls) = [] := by
  simp [madeLines, unmade]

theorem madeLines_subset (rows : List Row) : madeLines rows ⊆ rows.map Row.line :=
  List.map_subset Row.line (List.filter_subset_self rows)

@[simp]
theorem madeLines_append (rows rows' : List Row) :
    madeLines (rows ++ rows') = madeLines rows ++ madeLines rows' := by
  simp [madeLines]

/-- Rows as they may be read from a place on where a body has begun or not. In a body an empty line
stands for an edit unless a header follows it; elsewhere it may do so, and begins a body if it does. -/
inductive Accounted : (begun : Bool) → List Row → Prop
  | nil {begun : Bool} : Accounted begun []
  | header {begun : Bool} {line : Text} {rows : List Row} (h : Header.opens line = true)
      (hrest : Accounted false rows) : Accounted begun (⟨line, false⟩ :: rows)
  | fileEnd {begun : Bool} {line : Text} {rows : List Row} (h : endsFileAt line = true)
      (hrest : Accounted false rows) : Accounted begun (⟨line, false⟩ :: rows)
  | edit {begun : Bool} {line : Text} {rows : List Row} (hne : line ≠ [])
      (hopens : Header.opens line = false) (hends : endsFileAt line = false)
      (hrest : Accounted true rows) : Accounted begun (⟨line, true⟩ :: rows)
  | inside {made : Bool} {rows : List Row} (h : made = !headerFollows (rows.map Row.line))
      (hrest : Accounted true rows) : Accounted true (⟨[], made⟩ :: rows)
  | outside {made : Bool} {rows : List Row} (hrest : Accounted made rows) :
      Accounted false (⟨[], made⟩ :: rows)

namespace Accounted

variable {row : Row} {rows front between : List Row} {made : Bool}

/-- A line that is not empty stands for an edit unless it is a header or an end-of-file marker. -/
theorem made_iff (h : Accounted begun rows) :
    ∀ row ∈ rows, row.line ≠ [] →
      (row.made = true ↔ Header.opens row.line = false ∧ endsFileAt row.line = false) := by
  induction h with
  | nil => simp
  | header h _ ih => exact List.forall_mem_cons.mpr ⟨fun _ => by simp [h], ih⟩
  | fileEnd h _ ih => exact List.forall_mem_cons.mpr ⟨fun _ => by simp [h], ih⟩
  | edit _ hopens hends _ ih => exact List.forall_mem_cons.mpr ⟨fun _ => by simp [hopens, hends], ih⟩
  | inside _ _ ih => exact List.forall_mem_cons.mpr ⟨fun hne => absurd rfl hne, ih⟩
  | outside _ ih => exact List.forall_mem_cons.mpr ⟨fun hne => absurd rfl hne, ih⟩

/-- Rows are read from every place in them on, in one way or the other. -/
theorem of_append (h : Accounted begun (front ++ rows)) : ∃ begun', Accounted begun' rows := by
  induction front generalizing begun with
  | nil => exact ⟨begun, h⟩
  | cons row front ih => cases h <;> exact ih ‹_›

/-- Behind a line that stands for an edit a body has begun. -/
theorem of_made (h : Accounted begun (⟨line, true⟩ :: rows)) : Accounted true rows := by
  cases h <;> assumption

/-- A body goes on up to a header or an end-of-file marker. -/
theorem goes_on (h : Accounted true (between ++ rows))
    (hbetween : ∀ row ∈ between, Header.opens row.line = false ∧ endsFileAt row.line = false) :
    Accounted true rows := by
  induction between with
  | nil => exact h
  | cons row between ih =>
    obtain ⟨⟨hopens, hends⟩, hrest⟩ := List.forall_mem_cons.mp hbetween
    cases h with
    | header h _ => rw [h] at hopens; cases hopens
    | fileEnd h _ => rw [h] at hends; cases hends
    | edit _ _ _ h => exact ih h hrest
    | inside _ h => exact ih h hrest

/-- An empty line in a body stands for an edit unless a header follows it. -/
theorem made_of_inside (h : Accounted true (⟨[], made⟩ :: rows)) :
    made = !headerFollows (rows.map Row.line) := by
  cases h with
  | header h _ => cases h
  | fileEnd h _ => cases h
  | edit hne _ _ _ => exact absurd rfl hne
  | inside h _ => exact h

end Accounted

/-! ## Rows of a hunk -/

variable {rows tail : List Row}

/-- In front of a header it does not matter whether a body has begun. -/
theorem Accounted.of_header (h : Accounted false tail)
    (hfirst : (tail.map Row.line).head?.any Header.opens = true) : Accounted begun tail := by
  cases h with
  | nil => cases hfirst
  | header h hrest => exact .header h hrest
  | fileEnd h hrest => exact .fileEnd h hrest
  | edit hne hopens hends hrest => exact .edit hne hopens hends hrest
  | outside hrest => cases hfirst

/-- A line stands for an edit if it is no header, no end-of-file marker and not in a gap. -/
theorem Accounted.made (h : Accounted true rows) (hopens : Header.opens line = false)
    (hends : endsFileAt line = false)
    (hgap : (line.isEmpty && begun && headerFollows (rows.map Row.line)) = false) :
    Accounted begun (⟨line, true⟩ :: rows) := by
  by_cases hne : line = []
  · subst hne
    cases begun with
    | false => exact .outside h
    | true =>
      have hfollows : headerFollows (rows.map Row.line) = false := hgap
      exact .inside (by rw [hfollows]; rfl) h
  · exact .edit hne hopens hends h

theorem accounted_headers {ls : List Text} (hls : ∀ l ∈ ls, Header.opens l = true)
    (h : Accounted false tail) : Accounted false (unmade ls ++ tail) := by
  induction ls with
  | nil => exact h
  | cons l ls ih =>
    obtain ⟨hl, hls⟩ := List.forall_mem_cons.mp hls
    exact .header hl (ih hls)

theorem headerFollows_append {gap : List Text} (hgap : ∀ l ∈ gap, l.isEmpty = true) (ls : List Text) :
    headerFollows (gap ++ ls) = headerFollows ls := by
  rw [headerFollows, List.dropWhile_append_of_pos hgap, headerFollows]

theorem headerFollows_of_opens {ls : List Text} (h : ls.head?.any Header.opens = true) :
    headerFollows ls = true := by
  cases ls with
  | nil => cases h
  | cons l ls =>
    have hne : ¬ l.isEmpty = true := by
      intro hempty
      rw [List.isEmpty_iff.mp hempty] at h
      cases h
    rw [headerFollows, List.dropWhile_cons_of_neg hne]
    exact h

/-- Empty lines between a body and a header stand for no edits. -/
theorem accounted_gap {gap : List Text} (hgap : ∀ l ∈ gap, l.isEmpty = true)
    (hfollows : headerFollows (tail.map Row.line) = true) (h : Accounted true tail) :
    Accounted true (unmade gap ++ tail) := by
  induction gap with
  | nil => exact h
  | cons l gap ih =>
    obtain ⟨hl, hrest⟩ := List.forall_mem_cons.mp hgap
    obtain rfl := List.isEmpty_iff.mp hl
    refine .inside ?_ (ih hrest)
    show false = !headerFollows ((unmade gap ++ tail).map Row.line)
    rw [List.map_append, map_line_unmade, headerFollows_append hrest, hfollows]
    rfl

/-- Empty lines behind everything stand for no edits if no body has begun. -/
theorem accounted_empty {ls : List Text} (hls : ∀ l ∈ ls, l.isEmpty = true) :
    Accounted false (unmade ls) := by
  induction ls with
  | nil => exact .nil
  | cons l ls ih =>
    obtain ⟨hl, hrest⟩ := List.forall_mem_cons.mp hls
    obtain rfl := List.isEmpty_iff.mp hl
    exact .outside (ih hrest)

/-- The lines of a body stand for its edits, whatever is read behind them. -/
theorem exists_rows_readBody (begun : Bool) (lines : List Text) :
    ∃ rows : List Row, lines = rows.map Row.line ++ (readBody begun lines).2.2 ∧
      List.Forall₂ Writes (madeLines rows) (readBody begun lines).1 ∧
      ∀ tail, tail.map Row.line = (readBody begun lines).2.2 → Accounted false tail →
        Accounted begun (rows ++ tail) := by
  induction lines generalizing begun with
  | nil =>
    refine ⟨[], rfl, .nil, fun tail htail _ => ?_⟩
    obtain rfl := List.map_eq_nil_iff.mp htail
    exact .nil
  | cons line lines ih =>
    unfold readBody
    split
    · -- a gap in front of a header
      rename_i hgap
      simp only [Bool.and_eq_true] at hgap
      obtain ⟨⟨hempty, rfl⟩, hfollows⟩ := hgap
      have hall : ∀ l ∈ line :: lines.takeWhile List.isEmpty, l.isEmpty = true :=
        List.forall_mem_cons.mpr ⟨hempty, List.all_eq_true.mp List.all_takeWhile⟩
      refine ⟨unmade (line :: lines.takeWhile List.isEmpty), ?_, ?_, fun tail htail hrest => ?_⟩
      · rw [map_line_unmade, List.cons_append, List.takeWhile_append_dropWhile]
      · rw [madeLines_unmade]
        exact .nil
      · have hfirst : (tail.map Row.line).head?.any Header.opens = true := htail ▸ hfollows
        exact accounted_gap hall (headerFollows_of_opens hfirst) (hrest.of_header hfirst)
    · split
      · -- a header
        rename_i hopens
        refine ⟨[], rfl, .nil, fun tail htail hrest => hrest.of_header ?_⟩
        rw [htail]
        exact hopens
      · split
        · -- an end-of-file marker
          rename_i hends
          exact ⟨[⟨line, false⟩], rfl, .nil, fun tail _ hrest => .fileEnd hends hrest⟩
        · rename_i hgap hopens hends
          obtain ⟨rows, hlines, hwrites, hrows⟩ := ih true
          refine ⟨⟨line, true⟩ :: rows, ?_, ?_, fun tail htail hrest => ?_⟩
          · rw [List.map_cons, List.cons_append, ← hlines]
          · exact .cons (writes_editOf line) hwrites
          · have hall : (rows ++ tail).map Row.line = lines := by
              rw [List.map_append, hlines]
              exact congrArg (rows.map Row.line ++ ·) htail
            refine (hrows tail htail hrest).made (Bool.eq_false_iff.mpr hopens)
              (Bool.eq_false_iff.mpr hends) ?_
            rw [hall]
            exact Bool.eq_false_iff.mpr hgap

/-! ## Rows of a diff -/

theorem Writes.text_subset {e : Edit} (h : Writes line e) : e.text ⊆ line := by
  cases h with
  | add s => exact List.subset_cons_self _ s
  | remove s => exact List.subset_cons_self _ s
  | keep _ => exact List.subset_cons_self _ _
  | bare _ _ => exact List.Subset.refl line
  | ellipsis _ => exact List.nil_subset line

theorem Writes.standsFor {e : Edit} (h : Writes line e) : StandsFor line e := ⟨e, h, .inl rfl⟩

theorem Writes.standsFor_stripEdit {e : Edit} (h : Writes line e) (hbreak : '\n' ∉ line) :
    StandsFor line (Numbering.stripEdit e) :=
  ⟨e, h, Numbering.stripEdit_cases fun hmem => hbreak (h.text_subset hmem)⟩

theorem forall₂_strip (h : List.Forall₂ Writes lines edits) (hbreak : ∀ l ∈ lines, '\n' ∉ l) :
    List.Forall₂ StandsFor lines (Numbering.strip edits) := by
  have hmap : List.Forall₂ StandsFor lines (edits.map Numbering.stripEdit) := by
    induction h with
    | nil => exact .nil
    | cons hwrites _ ih =>
      obtain ⟨hl, hls⟩ := List.forall_mem_cons.mp hbreak
      exact .cons (hwrites.standsFor_stripEdit hl) (ih hls)
  unfold Numbering.strip
  split
  · exact hmap
  · exact h.imp fun _ _ => Writes.standsFor

theorem exists_rows_readHunk {hunk : Hunk} (hbreak : ∀ l ∈ lines, '\n' ∉ l)
    (h : readHunk lines = .ok (hunk, rest)) :
    ∃ rows : List Row, lines = rows.map Row.line ++ rest ∧
      List.Forall₂ StandsFor (madeLines rows) hunk.edits ∧
      ∀ tail, tail.map Row.line = rest → Accounted false tail → Accounted false (rows ++ tail) := by
  obtain ⟨heads, after, hheads, hedits, rfl⟩ := readHunk_eq_ok h
  obtain ⟨front, rfl, hfront⟩ := readHeaders_eq_append hheads
  obtain ⟨rows, hlines, hwrites, hrows⟩ := exists_rows_readBody false after
  refine ⟨unmade front ++ rows, ?_, ?_, fun tail htail hrest => ?_⟩
  · rw [List.map_append, map_line_unmade, List.append_assoc, ← hlines]
  · rw [madeLines_append, madeLines_unmade, List.nil_append, hedits]
    refine forall₂_strip hwrites fun l hl => hbreak l (List.mem_append_right front ?_)
    rw [hlines]
    exact List.mem_append_left _ (madeLines_subset rows hl)
  · rw [List.append_assoc]
    exact accounted_headers hfront (hrows tail htail hrest)

theorem opens_of_isBareHeader (h : isBareHeader line = true) : Header.opens line = true := by
  unfold isBareHeader at h
  split at h
  · rename_i s hlead
    obtain rfl : Header.sign ++ s = line := List.isPrefixOf?_eq_some_iff_append_eq.mp hlead
    rfl
  · cases h

theorem exists_rows_readAll {hunks : List Hunk} (hbreak : ∀ l ∈ lines, '\n' ∉ l)
    (h : readAll begun lines = .ok hunks) :
    ∃ rows : List Row, rows.map Row.line = lines ∧ Accounted false rows ∧
      List.Forall₂ StandsFor (madeLines rows) (hunks.flatMap Hunk.edits) := by
  fun_induction readAll begun lines generalizing hunks with
  | case1 =>
    cases h
    exact ⟨[], rfl, .nil, .nil⟩
  | case2 begun line rest hempty ih =>
    obtain ⟨rows, hlines, hrows, hedits⟩ := ih (fun l hl => hbreak l (List.mem_cons_of_mem line hl)) h
    obtain rfl := List.isEmpty_iff.mp hempty
    exact ⟨⟨[], false⟩ :: rows, by rw [List.map_cons, hlines], .outside hrows, hedits⟩
  | case3 begun line rest _ hbare =>
    -- a bare header closes the diff
    cases h
    simp only [Bool.and_eq_true] at hbare
    obtain ⟨⟨-, hheader⟩, hempty⟩ := hbare
    refine ⟨unmade (line :: rest), map_line_unmade _, ?_, ?_⟩
    · exact .header (opens_of_isBareHeader hheader) (accounted_empty (List.all_eq_true.mp hempty))
    · rw [madeLines_unmade]
      exact .nil
  | case4 => cases h
  | case5 begun line rest _ _ first rest' hfirst ih =>
    obtain ⟨more, hmore, h⟩ := bind_eq_ok.mp h
    cases h
    obtain ⟨rows, hlines, hwrites, hrows⟩ := exists_rows_readHunk hbreak hfirst
    obtain ⟨rows', hlines', hrows', hedits'⟩ :=
      ih (fun l hl => hbreak l ((readHunk_suffix hfirst).subset hl)) hmore
    refine ⟨rows ++ rows', ?_, hrows rows' hlines' hrows', ?_⟩
    · rw [List.map_append, hlines', ← hlines]
    · rw [madeLines_append, List.flatMap_cons]
      exact List.rel_append hwrites hedits'

/-! ## Counting -/

theorem StandsFor.kind {e : Edit} (h : StandsFor line e) :
    e.isAdd = (line.head? == some '+') ∧ e.isRemove = (line.head? == some '-') := by
  obtain ⟨written, hwrites, hsame⟩ := h
  have hkind : e.kind = written.kind := by
    rcases hsame with rfl | ⟨_, _, -, -, rfl⟩ <;> rfl
  rw [Edit.isAdd, Edit.isRemove, hkind]
  cases hwrites with
  | add s => exact ⟨rfl, rfl⟩
  | remove s => exact ⟨rfl, rfl⟩
  | keep _ => exact ⟨rfl, rfl⟩
  | bare _ hmark =>
    cases line with
    | nil => exact ⟨rfl, rfl⟩
    | cons c s =>
      simp only [isMarked, List.head?_cons, Option.any_some, Bool.or_eq_false_iff,
        beq_eq_false_iff_ne] at hmark
      constructor <;> simp [hmark]
  | ellipsis hdots =>
    obtain ⟨-, hplus, hminus⟩ := hdots
    rw [beq_eq_false_iff_ne.mpr hplus, beq_eq_false_iff_ne.mpr hminus]
    exact ⟨rfl, rfl⟩

theorem total_eq_countP (hunks : List Hunk) :
    total added hunks = (hunks.flatMap Hunk.edits).countP Edit.isAdd ∧
      total removed hunks = (hunks.flatMap Hunk.edits).countP Edit.isRemove := by
  induction hunks with
  | nil => exact ⟨rfl, rfl⟩
  | cons hunk hunks ih =>
    rw [List.flatMap_cons, List.countP_append, List.countP_append, ← ih.1, ← ih.2]
    exact ⟨rfl, rfl⟩

/-- Lines with a mark of their own are all among those that stand for edits. -/
theorem countP_madeLines {p : Text → Bool} {rows : List Row}
    (h : ∀ row ∈ rows, p row.line = true → row.made = true) :
    (madeLines rows).countP p = (rows.map Row.line).countP p := by
  rw [madeLines, List.countP_map, List.countP_map, List.countP_filter]
  refine List.countP_congr fun row hrow => ?_
  simpa using h row hrow

theorem headerFollows_iff (ls : List Text) : headerFollows ls = true ↔
    ∃ gap header rest, ls = gap ++ header :: rest ∧ (∀ l ∈ gap, l = []) ∧
      Header.opens header = true := by
  constructor
  · intro h
    have hsplit := List.takeWhile_append_dropWhile (p := List.isEmpty) (l := ls)
    cases hrest : ls.dropWhile List.isEmpty with
    | nil =>
      rw [headerFollows, hrest] at h
      cases h
    | cons header rest =>
      rw [headerFollows, hrest] at h
      rw [hrest] at hsplit
      refine ⟨_, header, rest, hsplit.symm, fun l hl => ?_, h⟩
      exact List.isEmpty_iff.mp (List.all_eq_true.mp List.all_takeWhile l hl)
  · rintro ⟨gap, header, rest, rfl, hgap, hopens⟩
    rw [headerFollows_append fun l hl => List.isEmpty_iff.mpr (hgap l hl)]
    exact headerFollows_of_opens hopens

/-- **Every line is accounted for.** Reading the hunks of a text ends with hunks, with a refusal, or at
a number in a header that is too long to be read. If it ends with hunks, the edits of all of them are,
in order, those that the lines stand for that do so: of the lines that are not empty all but headers and
end-of-file markers, and of those that are empty and follow an edit, with neither of the two between,
all but those with only empty lines between them and a header. So there are as many added and removed
lines as there are lines with their marks. -/
theorem parse_accounts (diff : Text) :
    ((∃ hunks, parse diff = .ok hunks) ∨ (∃ why, parse diff = refuse why) ∨
      ∃ digits, parse diff = .error (.fault (.numberTooLong digits)) ∧
        ∃ line ∈ diff.lines, Header.opens line = true ∧ line.HoldsLong digits) ∧
    ∀ hunks, parse diff = .ok hunks →
      (∃ rows : List Row, rows.map Row.line = diff.lines ∧
        List.Forall₂ StandsFor (madeLines rows) (hunks.flatMap Hunk.edits) ∧
        (∀ row ∈ rows, row.line ≠ [] →
          (row.made = true ↔ Header.opens row.line = false ∧ endsFileAt row.line = false)) ∧
        ∀ front line between made after,
          rows = front ++ ⟨line, true⟩ :: (between ++ ⟨[], made⟩ :: after) →
          (∀ row ∈ between, Header.opens row.line = false ∧ endsFileAt row.line = false) →
          (made = false ↔ ∃ gap header rest, after.map Row.line = gap ++ header :: rest ∧
            (∀ l ∈ gap, l = []) ∧ Header.opens header = true)) ∧
      total added hunks = diff.lines.countP (·.head? == some '+') ∧
      total removed hunks = diff.lines.countP (·.head? == some '-') := by
  constructor
  · cases hparse : parse diff with
    | ok hunks => exact .inl ⟨hunks, rfl⟩
    | error failure =>
      rcases parse_failsOnly diff failure hparse with
        ⟨why, rfl⟩ | ⟨line, hline, hopens, digits, rfl, hlong⟩
      · exact .inr (.inl ⟨why, rfl⟩)
      · exact .inr (.inr ⟨digits, rfl, line, hline, hopens, hlong⟩)
  · intro hunks hparse
    obtain ⟨rows, hlines, hrows, hedits⟩ :=
      exists_rows_readAll (fun l hl => Text.not_mem_of_mem_lines hl) hparse
    have hmade := hrows.made_iff
    refine ⟨⟨rows, hlines, hedits, hmade, ?_⟩, ?_⟩
    · rintro front line between made after rfl hbetween
      obtain ⟨begun, hfrom⟩ := hrows.of_append
      have hinside := (hfrom.of_made.goes_on hbetween).made_of_inside
      rw [← headerFollows_iff, hinside, Bool.not_eq_false']
    · have hmarked (c : Char) (hc : c = '+' ∨ c = '-') :
          ∀ row ∈ rows, (row.line.head? == some c) = true → row.made = true := by
        intro row hrow hhead
        obtain ⟨s, hs⟩ : ∃ s, row.line = c :: s := by
          cases hline : row.line with
          | nil => simp [hline] at hhead
          | cons c' s => exact ⟨s, by simpa [hline] using hhead⟩
        refine (hmade row hrow (by simp [hs])).mpr ?_
        rw [hs]
        rcases hc with rfl | rfl <;> exact ⟨rfl, rfl⟩
      obtain ⟨hadded, hremoved⟩ := total_eq_countP hunks
      rw [hadded, hremoved, ← countP_eq_of_forall₂ hedits fun _ _ h => h.kind.1.symm,
        ← countP_eq_of_forall₂ hedits fun _ _ h => h.kind.2.symm, countP_madeLines (hmarked '+' (.inl rfl)),
        countP_madeLines (hmarked '-' (.inr rfl)), hlines]
      exact ⟨rfl, rfl⟩

/-- A text with empty lines in front, in a body, before a header and at the end. -/
theorem parse_accounts_gaps :
    ∃ hunks, parse "\n@@ f\n a\n\n+b\n\n\n@@\n-c\n*** End of File\n+\n@@\n".toList = .ok hunks ∧
      hunks.map Hunk.edits =
        [[⟨.keep, ['a']⟩, ⟨.keep, []⟩, ⟨.add, ['b']⟩], [⟨.remove, ['c']⟩], [⟨.add, []⟩]] ∧
      total added hunks = 2 ∧ total removed hunks = 1 := by
  have hedits : (parse "\n@@ f\n a\n\n+b\n\n\n@@\n-c\n*** End of File\n+\n@@\n".toList).toOption.map
      (·.map Hunk.edits) = some
        [[⟨.keep, ['a']⟩, ⟨.keep, []⟩, ⟨.add, ['b']⟩], [⟨.remove, ['c']⟩], [⟨.add, []⟩]] := by
    decide +kernel
  obtain ⟨hunks, hparse, hedits⟩ := Option.map_eq_some_iff.mp hedits
  obtain ⟨-, hadded, hremoved⟩ := (parse_accounts _).2 hunks (toOption_eq_some.mp hparse)
  refine ⟨hunks, toOption_eq_some.mp hparse, hedits, ?_, ?_⟩
  · rw [hadded]
    decide +kernel
  · rw [hremoved]
    decide +kernel

end LoosePatch.Hunk
