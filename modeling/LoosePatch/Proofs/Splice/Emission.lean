import LoosePatch.Proofs.Splice.Origins

/-!
What emission writes, watched on a file whose lines are their own numbers: `emit_origins` says for
each line written where it comes from, that nothing else is left out than removed lines, and in which
order the lines stand.
-/

namespace LoosePatch.Splice

/-! ## What is written -/

/-- Numbered edits of which those matched below the cursor are still to come. -/
structure Matching (n : Nat) (lineOf? : Nat → Option Nat) (cursor : Nat) (edits : List (Edit × Nat)) :
    Prop where
  sorted : edits.Pairwise fun x y => x.2 < y.2
  old : ∀ x ∈ edits, ∀ line, lineOf? x.2 = some line → x.1.isOld = true
  mono : ∀ i j a b, lineOf? i = some a → lineOf? j = some b → (i < j ↔ a < b)
  inside : ∀ i line, lineOf? i = some line → line < n
  pending : ∀ i line, lineOf? i = some line → cursor ≤ line → ∃ e, (e, i) ∈ edits

/-- What is written for edits of hunk `h` from the cursor to the line reached: every line of the file
that none of the edits removes, and every added line. -/
structure Emitted (n : Nat) (lineAt? : Nat → Nat → Option Nat) (h cursor : Nat)
    (edits : List (Edit × Nat)) (out : List Origin) (stop : Nat) : Prop where
  cursor_le : cursor ≤ stop
  stop_le : stop ≤ n
  mem_file : ∀ line, .file line ∈ out ↔ cursor ≤ line ∧ line < stop ∧
    ¬ ∃ x ∈ edits, x.1.isRemove = true ∧ lineAt? h x.2 = some line
  mem_added : ∀ h' i, .added h' i ∈ out ↔ h' = h ∧ ∃ e, (e, i) ∈ edits ∧ e.isAdd = true
  ordered : out.Pairwise (Origin.Precedes lineAt?)
  lt_stop : ∀ x ∈ edits, ∀ line, lineAt? h x.2 = some line → line < stop
  reached : stop = cursor ∨ ∃ x ∈ edits, ∃ line, lineAt? h x.2 = some line ∧ stop = line + 1

theorem Matching.tail {n : Nat} {lineOf? : Nat → Option Nat} {cursor cursor' : Nat}
    {x : Edit × Nat} {edits : List (Edit × Nat)} (h : Matching n lineOf? cursor (x :: edits))
    (hcursor : cursor ≤ cursor') (hx : ∀ line, lineOf? x.2 = some line → line < cursor') :
    Matching n lineOf? cursor' edits where
  sorted := (List.pairwise_cons.mp h.sorted).2
  old y hy := h.old y (List.mem_cons_of_mem x hy)
  mono := h.mono
  inside := h.inside
  pending i line hline hle := by
    obtain ⟨e, he⟩ := h.pending i line hline (Nat.le_trans hcursor hle)
    rcases List.mem_cons.mp he with rfl | he
    · exact absurd hle (Nat.not_le_of_lt (hx line hline))
    · exact ⟨e, he⟩

/-! ## One edit -/

variable {n h cursor stop : Nat} {lineAt? : Nat → Nat → Option Nat} {x : Edit × Nat}
  {edits : List (Edit × Nat)} {out : List Origin}

/-- An edit that is not matched to a line removes it no more than the later edits do. -/
theorem exists_removes_cons {line : Nat} (hx : lineAt? h x.2 ≠ some line) :
    (∃ y ∈ x :: edits, y.1.isRemove = true ∧ lineAt? h y.2 = some line) ↔
      ∃ y ∈ edits, y.1.isRemove = true ∧ lineAt? h y.2 = some line := by
  rw [List.exists_mem_cons_iff]
  exact or_iff_right fun hremove => hx hremove.2

theorem exists_adds_cons {i : Nat} (hadd : x.1.isAdd = false) :
    (∃ e, (e, i) ∈ x :: edits ∧ e.isAdd = true) ↔ ∃ e, (e, i) ∈ edits ∧ e.isAdd = true := by
  refine exists_congr fun e => and_congr_left fun he => ?_
  rw [List.mem_cons, or_iff_right]
  rintro rfl
  exact Bool.false_ne_true (hadd.symm.trans he)

namespace Emitted

theorem nil (hcursor : cursor ≤ n) : Emitted n lineAt? h cursor [] [] cursor where
  cursor_le := Nat.le_refl cursor
  stop_le := hcursor
  mem_file line := iff_of_false List.not_mem_nil (by omega)
  mem_added h' i := iff_of_false List.not_mem_nil (by simp)
  ordered := List.Pairwise.nil
  lt_stop := by simp
  reached := Or.inl rfl

/-- An edit whose line is above the cursor, or which has none, writes nothing. -/
theorem skip (he : Emitted n lineAt? h cursor edits out stop) (hadd : x.1.isAdd = false)
    (hx : ∀ line, lineAt? h x.2 = some line → line < cursor) :
    Emitted n lineAt? h cursor (x :: edits) out stop where
  cursor_le := he.cursor_le
  stop_le := he.stop_le
  mem_file line := by
    rw [he.mem_file]
    refine and_congr_right fun hcursor => and_congr_right fun _ => not_congr ?_
    exact (exists_removes_cons fun hline => Nat.not_le_of_lt (hx line hline) hcursor).symm
  mem_added h' i := by rw [he.mem_added, exists_adds_cons hadd]
  ordered := he.ordered
  lt_stop := List.forall_mem_cons.mpr
    ⟨fun line hline => Nat.lt_of_lt_of_le (hx line hline) he.cursor_le, he.lt_stop⟩
  reached := he.reached.imp_right fun ⟨y, hy, hrest⟩ => ⟨y, List.mem_cons_of_mem x hy, hrest⟩

/-- An added line stands before all lines that later edits matched. -/
theorem add (he : Emitted n lineAt? h cursor edits out stop)
    (hm : Matching n (lineAt? h) cursor (x :: edits)) (hadd : x.1.isAdd = true)
    (hx : lineAt? h x.2 = none) :
    Emitted n lineAt? h cursor (x :: edits) (.added h x.2 :: out) stop where
  cursor_le := he.cursor_le
  stop_le := he.stop_le
  mem_file line := by
    rw [List.mem_cons, or_iff_right (by simp), he.mem_file, exists_removes_cons (by simp [hx])]
  mem_added h' i := by
    rw [List.mem_cons, he.mem_added, Origin.added.injEq]
    constructor
    · rintro (⟨rfl, rfl⟩ | ⟨rfl, e, hmem, hrest⟩)
      · exact ⟨rfl, x.1, List.mem_cons_self, hadd⟩
      · exact ⟨rfl, e, List.mem_cons_of_mem x hmem, hrest⟩
    · rintro ⟨rfl, e, hmem, hrest⟩
      rcases List.mem_cons.mp hmem with rfl | hmem
      · exact Or.inl ⟨rfl, rfl⟩
      · exact Or.inr ⟨rfl, e, hmem, hrest⟩
  ordered := by
    refine List.pairwise_cons.mpr ⟨fun o ho => ?_, he.ordered⟩
    have hlater {y : Edit × Nat} (hy : y ∈ edits) : x.2 < y.2 :=
      List.rel_of_pairwise_cons hm.sorted hy
    cases o with
    | file line =>
      intro i hi
      obtain ⟨e, hmem⟩ := hm.pending i line hi ((he.mem_file line).mp ho).1
      rcases List.mem_cons.mp hmem with rfl | hmem
      · rw [hx] at hi
        cases hi
      · exact hlater hmem
    | added h' i =>
      obtain ⟨-, e, hmem, -⟩ := (he.mem_added h' i).mp ho
      exact fun _ => hlater hmem
  lt_stop := List.forall_mem_cons.mpr ⟨by simp [hx], he.lt_stop⟩
  reached := he.reached.imp_right fun ⟨y, hy, hrest⟩ => ⟨y, List.mem_cons_of_mem x hy, hrest⟩

/-- File lines up to the next cursor are written in front of what the later edits write. -/
theorem advance {next : Nat} {front : List Origin} (he : Emitted n lineAt? h next edits out stop)
    (hcursor : cursor ≤ next) (hadd : x.1.isAdd = false)
    (hx : ∀ line, lineAt? h x.2 = some line → line < next)
    (hfront : front.Pairwise (Origin.Precedes lineAt?))
    (hfile : ∀ o, o ∈ front ↔ ∃ line, o = .file line ∧ cursor ≤ line ∧ line < next ∧
      ¬ ∃ y ∈ x :: edits, y.1.isRemove = true ∧ lineAt? h y.2 = some line)
    (hbefore : ∀ i line, lineAt? h i = some line → cursor ≤ line → line < next →
      ∀ y ∈ edits, i < y.2)
    (hreached : stop = next → stop = cursor ∨
      ∃ y ∈ x :: edits, ∃ line, lineAt? h y.2 = some line ∧ stop = line + 1) :
    Emitted n lineAt? h cursor (x :: edits) (front ++ out) stop where
  cursor_le := Nat.le_trans hcursor he.cursor_le
  stop_le := he.stop_le
  mem_file line := by
    rw [List.mem_append, he.mem_file, hfile]
    have hnext := he.cursor_le
    constructor
    · rintro (⟨line', heq, hle, hlt, hnot⟩ | ⟨hle, hlt, hnot⟩)
      · cases heq
        exact ⟨hle, by omega, hnot⟩
      · have hline : lineAt? h x.2 ≠ some line := fun hline => Nat.not_le_of_lt (hx line hline) hle
        refine ⟨by omega, hlt, ?_⟩
        rwa [exists_removes_cons hline]
    · rintro ⟨hle, hlt, hnot⟩
      by_cases hline : line < next
      · exact Or.inl ⟨line, rfl, hle, hline, hnot⟩
      · refine Or.inr ⟨Nat.le_of_not_lt hline, hlt, ?_⟩
        rintro ⟨y, hy, hrest⟩
        exact hnot ⟨y, List.mem_cons_of_mem x hy, hrest⟩
  mem_added h' i := by
    rw [List.mem_append, or_iff_right (by rw [hfile]; simp), he.mem_added, exists_adds_cons hadd]
  ordered := by
    refine List.pairwise_append.mpr ⟨hfront, he.ordered, fun o ho o' ho' => ?_⟩
    obtain ⟨line, rfl, hle, hlt, -⟩ := (hfile o).mp ho
    cases o' with
    | file line' => exact Nat.lt_of_lt_of_le hlt ((he.mem_file line').mp ho').1
    | added h' j =>
      obtain ⟨rfl, e, hmem, -⟩ := (he.mem_added h' j).mp ho'
      exact fun i hi => hbefore i line hi hle hlt (e, j) hmem
  lt_stop := List.forall_mem_cons.mpr
    ⟨fun line hline => Nat.lt_of_lt_of_le (hx line hline) he.cursor_le, he.lt_stop⟩
  reached := by
    rcases he.reached with hnext | ⟨y, hy, hrest⟩
    · exact hreached hnext
    · exact Or.inr ⟨y, List.mem_cons_of_mem x hy, hrest⟩

end Emitted

/-! ## All edits -/

/-- The lines up to a matched line that is not above the cursor. -/
theorem front_of_matched (hm : Matching n (lineAt? h) cursor (x :: edits)) {line : Nat}
    (hx : lineAt? h x.2 = some line) (hle : cursor ≤ line) (hadd : x.1.isAdd = false)
    (he : Emitted n lineAt? h (line + 1) edits out stop) {kept : List Origin}
    (hkept : ∀ o, o ∈ kept ↔ o = .file line ∧ x.1.isRemove = false)
    (hsingle : kept.Pairwise (Origin.Precedes lineAt?)) :
    Emitted n lineAt? h cursor (x :: edits) (slice (fileOrigins n) cursor line ++ kept ++ out)
      stop := by
  have hline : line < n := hm.inside x.2 line hx
  have hlater {y : Edit × Nat} (hy : y ∈ edits) : x.2 < y.2 := List.rel_of_pairwise_cons hm.sorted hy
  refine he.advance (by omega) hadd (fun line' hline' => ?_) ?_ (fun o => ?_)
    (fun i line' hi _ hlt y hy => ?_) (fun hstop => ?_)
  · rw [hx] at hline'
    cases hline'
    exact Nat.lt_succ_self line
  · refine List.pairwise_append.mpr
      ⟨slice_fileOrigins_ordered (Nat.le_of_lt hline) lineAt?, hsingle, ?_⟩
    intro o ho o' ho'
    obtain ⟨line', rfl, -, hlt⟩ := (mem_slice_fileOrigins (Nat.le_of_lt hline)).mp ho
    obtain ⟨rfl, -⟩ := (hkept o').mp ho'
    exact hlt
  · have hremoves {line' : Nat} (hle' : line' ≤ line) : (∃ y ∈ x :: edits, y.1.isRemove = true ∧
        lineAt? h y.2 = some line') ↔ line' = line ∧ x.1.isRemove = true := by
      constructor
      · rintro ⟨y, hy, hremove, hyline⟩
        rcases List.mem_cons.mp hy with rfl | hy
        · rw [hx] at hyline
          exact ⟨(Option.some.inj hyline).symm, hremove⟩
        · have hlt := (hm.mono x.2 y.2 line line' hx hyline).mp (hlater hy)
          omega
      · rintro ⟨rfl, hremove⟩
        exact ⟨x, List.mem_cons_self, hremove, hx⟩
    rw [List.mem_append, mem_slice_fileOrigins (Nat.le_of_lt hline), hkept]
    constructor
    · rintro (⟨line', rfl, hle', hlt'⟩ | ⟨rfl, hremove⟩)
      · refine ⟨line', rfl, hle', by omega, ?_⟩
        rw [hremoves (Nat.le_of_lt hlt')]
        rintro ⟨rfl, -⟩
        exact Nat.lt_irrefl _ hlt'
      · refine ⟨line, rfl, hle, Nat.lt_succ_self line, ?_⟩
        rw [hremoves (Nat.le_refl line), hremove]
        simp
    · rintro ⟨line', rfl, hle', hlt', hnot⟩
      rw [hremoves (by omega)] at hnot
      rcases Nat.lt_or_eq_of_le (Nat.le_of_lt_succ hlt') with hlt' | rfl
      · exact Or.inl ⟨line', rfl, hle', hlt'⟩
      · refine Or.inr ⟨rfl, ?_⟩
        simpa using hnot
  · have hi' : i ≤ x.2 := by
      by_contra hgt
      have := (hm.mono x.2 i line line' hx hi).mp (Nat.lt_of_not_le hgt)
      omega
    exact Nat.lt_of_le_of_lt hi' (hlater hy)
  · exact Or.inr ⟨x, List.mem_cons_self, line, hx, hstop⟩

/-- Emission on a file of numbers ends, and writes what it should. -/
def Emits (n : Nat) (lineAt? : Nat → Nat → Option Nat) (h cursor : Nat) (edits : List (Edit × Nat)) :
    Prop :=
  ∃ out stop, emit (fileOrigins n) (lineAt? h) cursor (addedOrigins h edits) edits =
    .ok (out, stop) ∧ Emitted n lineAt? h cursor edits out stop

/-- No matched line to come stands above that of the first matched edit. -/
theorem Matching.findSome?_le (hm : Matching n (lineAt? h) cursor (x :: edits)) {e : Edit}
    {i line : Nat} (hmem : (e, i) ∈ edits) (hline : lineAt? h i = some line) :
    ∃ first, (edits.findSome? fun (_, j) => lineAt? h j) = some first ∧ first ≤ line := by
  have hsome : (edits.findSome? fun (_, j) => lineAt? h j).isSome :=
    List.findSome?_isSome_iff.mpr ⟨(e, i), hmem, by simp only [hline, Option.isSome_some]⟩
  obtain ⟨first, hfirst⟩ := Option.isSome_iff_exists.mp hsome
  refine ⟨first, hfirst, ?_⟩
  obtain ⟨before, ⟨e', j⟩, after, rfl, hj, hbefore⟩ := List.findSome?_eq_some_iff.mp hfirst
  rcases List.mem_append.mp hmem with hmem | hmem
  · have hnone := hbefore (e, i) hmem
    simp only [hline] at hnone
    cases hnone
  · have hsorted := (List.pairwise_append.mp (List.pairwise_cons.mp hm.sorted).2).2.1
    rcases List.mem_cons.mp hmem with heq | hmem
    · cases heq
      simp only [hline] at hj
      cases hj
      exact Nat.le_refl _
    · have hlt := (hm.mono j i first line hj hline).mp (List.rel_of_pairwise_cons hsorted hmem)
      exact Nat.le_of_lt hlt

/-- Edits that are no old lines have no line. -/
theorem Matching.eq_none (hm : Matching n (lineAt? h) cursor (x :: edits)) (hold : x.1.isOld = false) :
    lineAt? h x.2 = none := by
  cases hline : lineAt? h x.2 with
  | none => rfl
  | some line =>
    rw [hm.old x List.mem_cons_self line hline] at hold
    cases hold

theorem emits_add (hkind : x.1.kind = .add) (hcursor : cursor ≤ n)
    (hm : Matching n (lineAt? h) cursor (x :: edits))
    (ih : ∀ {next}, next ≤ n → Matching n (lineAt? h) next edits → Emits n lineAt? h next edits) :
    Emits n lineAt? h cursor (x :: edits) := by
  have hadd : x.1.isAdd = true := by rw [Edit.isAdd, hkind]; rfl
  have hx : lineAt? h x.2 = none := hm.eq_none (by rw [Edit.isOld, hkind]; rfl)
  have htail : Matching n (lineAt? h) cursor edits :=
    hm.tail (Nat.le_refl cursor) fun line hline => by rw [hx] at hline; cases hline
  obtain ⟨out, stop, hemit, he⟩ := ih hcursor htail
  refine ⟨.added h x.2 :: out, stop, ?_, he.add hm hadd hx⟩
  rw [addedOrigins_cons_of_add hadd]
  simp only [emit, hkind]
  rw [hemit]
  rfl

theorem emits_ellipsis (hkind : x.1.kind = .ellipsis) (hcursor : cursor ≤ n)
    (hm : Matching n (lineAt? h) cursor (x :: edits))
    (ih : ∀ {next}, next ≤ n → Matching n (lineAt? h) next edits → Emits n lineAt? h next edits) :
    Emits n lineAt? h cursor (x :: edits) := by
  have hadd : x.1.isAdd = false := by rw [Edit.isAdd, hkind]; rfl
  have hx : lineAt? h x.2 = none := hm.eq_none (by rw [Edit.isOld, hkind]; rfl)
  have hbound (next line : Nat) (hline : lineAt? h x.2 = some line) : line < next := by
    rw [hx] at hline
    cases hline
  let first := edits.findSome? fun (_, j) => lineAt? h j
  let next := max cursor (first.getD cursor)
  have hle : cursor ≤ next := Nat.le_max_left _ _
  -- The ellipsis ends at the line that is matched next.
  have hnext : next = cursor ∨
      ∃ y ∈ edits, lineAt? h y.2 = some next ∧ cursor ≤ next := by
    cases hfirst : first with
    | none => exact Or.inl (by simp only [next, hfirst, Option.getD_none, Nat.max_self])
    | some line =>
      obtain ⟨y, hy, hline⟩ := List.exists_of_findSome?_eq_some hfirst
      simp only [next, hfirst, Option.getD_some]
      rcases Nat.le_total line cursor with hlt | hlt
      · exact Or.inl (Nat.max_eq_left hlt)
      · exact Or.inr ⟨y, hy, by rw [Nat.max_eq_right hlt]; exact hline, Nat.le_max_left _ _⟩
  have hfirst {i line : Nat} (hline : lineAt? h i = some line) (hcur : cursor ≤ line) :
      next ≤ line := by
    obtain ⟨e, hmem⟩ := hm.pending i line hline hcur
    rcases List.mem_cons.mp hmem with rfl | hmem
    · rw [hx] at hline
      cases hline
    · obtain ⟨line', hline', hle'⟩ := hm.findSome?_le hmem hline
      simp only [next, first, hline', Option.getD_some]
      exact Nat.max_le.mpr ⟨hcur, hle'⟩
  have hinside : next ≤ n := by
    rcases hnext with heq | ⟨y, -, hline, -⟩
    · rw [heq]
      exact hcursor
    · exact Nat.le_of_lt (hm.inside y.2 next hline)
  obtain ⟨out, stop, hemit, he⟩ := ih hinside (hm.tail hle (hbound next))
  refine ⟨slice (fileOrigins n) cursor next ++ out, stop, ?_, ?_⟩
  · rw [addedOrigins_cons_of_not_add hadd]
    simp only [emit, hkind]
    rw [hemit]
    rfl
  · refine he.advance hle hadd (hbound next) (slice_fileOrigins_ordered hinside lineAt?) (fun o => ?_)
      (fun i line hline hcur hlt => ?_) (fun hstop => ?_)
    · rw [mem_slice_fileOrigins hinside]
      constructor
      · rintro ⟨line, rfl, hcur, hlt⟩
        refine ⟨line, rfl, hcur, hlt, ?_⟩
        rintro ⟨y, -, -, hline⟩
        exact Nat.not_le_of_lt hlt (hfirst hline hcur)
      · rintro ⟨line, rfl, hcur, hlt, -⟩
        exact ⟨line, rfl, hcur, hlt⟩
    · exact absurd (hfirst hline hcur) (Nat.not_le_of_lt hlt)
    · rcases hnext with heq | ⟨y, hy, hline, -⟩
      · exact Or.inl (hstop.trans heq)
      · exact absurd (he.lt_stop y hy next hline) (by rw [hstop]; exact Nat.lt_irrefl next)

/-- Old lines that are left out of the view or stand above the cursor write nothing. -/
theorem emits_skip (hkind : x.1.kind = .keep ∨ x.1.kind = .remove) (hcursor : cursor ≤ n)
    (hm : Matching n (lineAt? h) cursor (x :: edits))
    (hx : ∀ line, lineAt? h x.2 = some line → line < cursor)
    (ih : ∀ {next}, next ≤ n → Matching n (lineAt? h) next edits → Emits n lineAt? h next edits) :
    Emits n lineAt? h cursor (x :: edits) := by
  have hadd : x.1.isAdd = false := by
    rcases hkind with hkind | hkind <;> rw [Edit.isAdd, hkind] <;> rfl
  obtain ⟨out, stop, hemit, he⟩ := ih hcursor (hm.tail (Nat.le_refl cursor) hx)
  refine ⟨out, stop, ?_, he.skip hadd hx⟩
  rw [addedOrigins_cons_of_not_add hadd]
  cases hline : lineAt? h x.2 with
  | none => rcases hkind with hkind | hkind <;> simp only [emit, hkind, hline] <;> exact hemit
  | some line =>
    rcases hkind with hkind | hkind <;> simp only [emit, hkind, hline, if_pos (hx line hline)] <;>
      exact hemit

/-- An edit whose line is not above the cursor writes the lines up to it, and what it keeps of the
line itself. -/
theorem emits_matched {line : Nat} (hline : lineAt? h x.2 = some line) (hle : cursor ≤ line)
    (hadd : x.1.isAdd = false) (kept : List Origin)
    (hkept : ∀ o, o ∈ kept ↔ o = .file line ∧ x.1.isRemove = false)
    (hsingle : kept.Pairwise (Origin.Precedes lineAt?))
    (hwrites : ∀ added out stop,
      emit (fileOrigins n) (lineAt? h) (line + 1) added edits = .ok (out, stop) →
      emit (fileOrigins n) (lineAt? h) cursor added (x :: edits) =
        .ok (slice (fileOrigins n) cursor line ++ kept ++ out, stop))
    (hm : Matching n (lineAt? h) cursor (x :: edits))
    (ih : ∀ {next}, next ≤ n → Matching n (lineAt? h) next edits → Emits n lineAt? h next edits) :
    Emits n lineAt? h cursor (x :: edits) := by
  have htail : Matching n (lineAt? h) (line + 1) edits := hm.tail (by omega) fun line' hline' => by
    rw [hline] at hline'
    cases hline'
    exact Nat.lt_succ_self line
  obtain ⟨out, stop, hemit, he⟩ := ih (hm.inside x.2 line hline) htail
  refine ⟨slice (fileOrigins n) cursor line ++ kept ++ out, stop, ?_,
    front_of_matched hm hline hle hadd he hkept hsingle⟩
  rw [addedOrigins_cons_of_not_add hadd]
  exact hwrites (addedOrigins h edits) out stop hemit

theorem emits_keep (hkind : x.1.kind = .keep) {line : Nat} (hline : lineAt? h x.2 = some line)
    (hle : cursor ≤ line) (hm : Matching n (lineAt? h) cursor (x :: edits))
    (ih : ∀ {next}, next ≤ n → Matching n (lineAt? h) next edits → Emits n lineAt? h next edits) :
    Emits n lineAt? h cursor (x :: edits) := by
  have hadd : x.1.isAdd = false := by rw [Edit.isAdd, hkind]; rfl
  have hremove : x.1.isRemove = false := by rw [Edit.isRemove, hkind]; rfl
  refine emits_matched hline hle hadd [.file line] (fun o => ?_) (List.pairwise_singleton _ _)
    (fun added out stop hemit => ?_) hm ih
  · rw [List.mem_singleton, hremove]
    exact (and_iff_left rfl).symm
  · simp only [emit, hkind, hline, if_neg (Nat.not_lt_of_le hle)]
    rw [fetch_fileOrigins (hm.inside x.2 line hline)]
    simp only [hemit, List.append_assoc, List.singleton_append]
    rfl

theorem emits_remove (hkind : x.1.kind = .remove) {line : Nat} (hline : lineAt? h x.2 = some line)
    (hle : cursor ≤ line) (hm : Matching n (lineAt? h) cursor (x :: edits))
    (ih : ∀ {next}, next ≤ n → Matching n (lineAt? h) next edits → Emits n lineAt? h next edits) :
    Emits n lineAt? h cursor (x :: edits) := by
  have hadd : x.1.isAdd = false := by rw [Edit.isAdd, hkind]; rfl
  have hremove : x.1.isRemove = true := by rw [Edit.isRemove, hkind]; rfl
  refine emits_matched hline hle hadd [] (fun o => ?_) List.Pairwise.nil
    (fun added out stop hemit => ?_) hm ih
  · rw [hremove]
    simp
  · simp only [emit, hkind, hline, if_neg (Nat.not_lt_of_le hle)]
    simp only [hemit, List.append_nil]
    rfl

theorem emit_origins (hcursor : cursor ≤ n) (hm : Matching n (lineAt? h) cursor edits) :
    Emits n lineAt? h cursor edits := by
  induction edits generalizing cursor with
  | nil => exact ⟨[], cursor, rfl, Emitted.nil hcursor⟩
  | cons x edits ih =>
    by_cases habove : ∀ line, lineAt? h x.2 = some line → line < cursor
    · cases hkind : x.1.kind with
      | add => exact emits_add hkind hcursor hm ih
      | ellipsis => exact emits_ellipsis hkind hcursor hm ih
      | keep => exact emits_skip (Or.inl hkind) hcursor hm habove ih
      | remove => exact emits_skip (Or.inr hkind) hcursor hm habove ih
    · obtain ⟨line, hnot⟩ := not_forall.mp habove
      obtain ⟨hline, hlt⟩ := Classical.not_imp.mp hnot
      have hle := Nat.le_of_not_lt hlt
      have hold := hm.old x List.mem_cons_self line hline
      cases hkind : x.1.kind with
      | add => rw [Edit.isOld, hkind] at hold; cases hold
      | ellipsis => rw [Edit.isOld, hkind] at hold; cases hold
      | keep => exact emits_keep hkind hline hle hm ih
      | remove => exact emits_remove hkind hline hle hm ih

end LoosePatch.Splice
