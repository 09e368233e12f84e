import LoosePatch.Text.Break

/-!
Texts made of lines: joined by line feeds, or with a line feed after each. Every text is some
lines, each with a line feed at its end, and a piece behind the last of them
(`exists_terminated_append`).
-/

namespace LoosePatch.Text

/-- The text of these lines, each with a line feed at its end. -/
def terminated (ls : List Text) : Text := ls.flatMap (· ++ ['\n'])

variable {ls ls' : List Text} {c : Char}

theorem unlines_cons (l : Text) (h : ls ≠ []) : unlines (l :: ls) = l ++ '\n' :: unlines ls := by
  obtain ⟨l', rest, rfl⟩ := List.exists_cons_of_ne_nil h
  rw [unlines, unlines, List.intercalate_cons_cons, List.append_assoc, List.singleton_append]

theorem terminated_cons (l : Text) (ls : List Text) :
    terminated (l :: ls) = l ++ '\n' :: terminated ls := by
  rw [terminated, List.flatMap_cons, List.append_assoc, List.singleton_append, ← terminated]

theorem terminated_eq_unlines (ls : List Text) : terminated ls = unlines (ls ++ [[]]) := by
  induction ls with
  | nil => rfl
  | cons l ls ih =>
    rw [terminated_cons, ih, List.cons_append, unlines_cons l (by simp)]

theorem unlines_append_break (h : ls ≠ []) : unlines ls ++ ['\n'] = terminated ls := by
  induction ls with
  | nil => cases h rfl
  | cons l ls ih =>
    by_cases hne : ls = []
    · subst hne
      simp [unlines, terminated]
    · rw [unlines_cons l hne, List.append_assoc, List.cons_append, ih hne, terminated_cons]

theorem mem_of_mem_intercalate {sep : Text} (h : c ∈ sep.intercalate ls) :
    c ∈ sep ∨ ∃ l ∈ ls, c ∈ l := by
  induction ls with
  | nil => cases h
  | cons l ls ih =>
    by_cases hne : ls = []
    · subst hne
      exact .inr ⟨l, List.mem_cons_self, by simpa using h⟩
    · rw [List.intercalate_cons_of_ne_nil hne, List.mem_append, List.mem_append] at h
      rcases h with (h | h) | h
      · exact .inr ⟨l, List.mem_cons_self, h⟩
      · exact .inl h
      · exact (ih h).imp_right fun ⟨l', hl', hc⟩ => ⟨l', List.mem_cons_of_mem l hl', hc⟩

theorem mem_intercalate {sep : Char} (h : c ∈ [sep].intercalate ls) : c = sep ∨ ∃ l ∈ ls, c ∈ l :=
  (mem_of_mem_intercalate h).imp_left List.mem_singleton.mp

theorem mem_intercalate_of_mem {sep l : Text} (hl : l ∈ ls) (hc : c ∈ l) : c ∈ sep.intercalate ls := by
  induction ls with
  | nil => cases hl
  | cons l' ls ih =>
    by_cases hne : ls = []
    · subst hne
      simpa [List.mem_singleton.mp hl] using hc
    · rw [List.intercalate_cons_of_ne_nil hne, List.mem_append]
      rcases List.mem_cons.mp hl with rfl | hl
      · exact .inl (List.mem_append_left _ hc)
      · exact .inr (ih hl)

theorem mem_unlines (h : c ∈ unlines ls) : c = '\n' ∨ ∃ l ∈ ls, c ∈ l := mem_intercalate h

/-- A character that is in none of the lines, and no line feed, is not in the text. -/
theorem not_mem_unlines (hc : c ≠ '\n') (h : ∀ l ∈ ls, c ∉ l) : c ∉ unlines ls := by
  intro hmem
  rcases mem_unlines hmem with heq | ⟨l, hl, hin⟩
  · exact hc heq
  · exact h l hl hin

theorem not_mem_terminated (hc : c ≠ '\n') (h : ∀ l ∈ ls, c ∉ l) : c ∉ terminated ls := by
  rw [terminated_eq_unlines]
  refine not_mem_unlines hc fun l hl => ?_
  rcases List.mem_append.mp hl with hl | hl
  · exact h l hl
  · rw [List.mem_singleton.mp hl]
    exact List.not_mem_nil

/-! ## Lines and what stands behind them -/

variable {s l last : Text}

theorem not_mem_of_mem_splitOn {sep : Char} (h : l ∈ s.splitOn sep) : sep ∉ l := by
  induction s generalizing l with
  | nil =>
    rw [List.splitOn_nil, List.mem_singleton] at h
    exact h ▸ List.not_mem_nil
  | cons c s ih =>
    rw [List.splitOn_cons_eq_if_modifyHead] at h
    split at h
    · rcases List.mem_cons.mp h with rfl | h
      · exact List.not_mem_nil
      · exact ih h
    · rename_i hc
      obtain ⟨first, rest, hsplit⟩ := List.exists_cons_of_ne_nil (List.splitOn_ne_nil sep s)
      rw [hsplit, List.modifyHead_cons] at h
      rcases List.mem_cons.mp h with rfl | h
      · have hfirst : sep ∉ first := ih (by rw [hsplit]; exact List.mem_cons_self)
        exact List.not_mem_cons_of_ne_of_not_mem (fun heq => hc (beq_iff_eq.mpr heq.symm)) hfirst
      · exact ih (by rw [hsplit]; exact List.mem_cons_of_mem first h)

theorem mem_of_mem_splitOn {sep : Char} (hl : l ∈ s.splitOn sep) (hc : c ∈ l) : c ∈ s := by
  have hjoined : [sep].intercalate (s.splitOn sep) = s := List.intercalate_splitOn sep
  rw [← hjoined]
  exact mem_intercalate_of_mem hl hc

theorem not_mem_of_mem_lines (h : l ∈ lines s) : '\n' ∉ l := not_mem_of_mem_splitOn h

theorem mem_of_mem_lines (hl : l ∈ lines s) (hc : c ∈ l) : c ∈ s := mem_of_mem_splitOn hl hc

theorem unlines_concat (ls : List Text) (last : Text) :
    unlines (ls ++ [last]) = terminated ls ++ last := by
  induction ls with
  | nil => simp [unlines, terminated]
  | cons l ls ih =>
    rw [List.cons_append, unlines_cons l (by simp), ih, terminated_cons, List.append_assoc,
      List.cons_append]

theorem lines_terminated_append (h : ∀ l ∈ ls, '\n' ∉ l) (hlast : '\n' ∉ last) :
    lines (terminated ls ++ last) = ls ++ [last] := by
  rw [← unlines_concat]
  refine lines_unlines _ (fun l hl => ?_) (by simp)
  rcases List.mem_append.mp hl with hl | hl
  · exact h l hl
  · exact List.mem_singleton.mp hl ▸ hlast

theorem lines_terminated (h : ∀ l ∈ ls, '\n' ∉ l) : lines (terminated ls) = ls ++ [[]] := by
  rw [← lines_terminated_append h List.not_mem_nil, List.append_nil]

theorem terminated_injective (h : ∀ l ∈ ls, '\n' ∉ l) (h' : ∀ l ∈ ls', '\n' ∉ l)
    (heq : terminated ls = terminated ls') : ls = ls' := by
  have hlines := congrArg lines heq
  rw [lines_terminated h, lines_terminated h'] at hlines
  exact List.append_cancel_right hlines

theorem count_terminated (h : ∀ l ∈ ls, '\n' ∉ l) : (terminated ls).count '\n' = ls.length := by
  induction ls with
  | nil => rfl
  | cons l ls ih =>
    rw [terminated_cons, List.count_append, List.count_eq_zero.mpr (h l List.mem_cons_self),
      List.count_cons_self, ih fun l' hl' => h l' (List.mem_cons_of_mem l hl'), List.length_cons,
      Nat.zero_add]

theorem exists_terminated_append (s : Text) :
    ∃ ls last, s = terminated ls ++ last ∧ (∀ l ∈ ls, '\n' ∉ l) ∧ '\n' ∉ last := by
  have hne : lines s ≠ [] := List.splitOn_ne_nil '\n' s
  refine ⟨(lines s).dropLast, (lines s).getLast hne, ?_, ?_, ?_⟩
  · rw [← unlines_concat, List.dropLast_concat_getLast, unlines_lines]
  · exact fun l hl => not_mem_of_mem_lines (List.dropLast_subset _ hl)
  · exact not_mem_of_mem_lines (List.getLast_mem hne)

/-- The last line of a text has a line feed if there is nothing behind the lines that have one. -/
theorem ends_terminated_append (hlast : '\n' ∉ last) :
    terminated ls ++ last = [] ∨ (terminated ls ++ last).getLast? = some '\n' ↔ last = [] := by
  cases last with
  | nil =>
    refine iff_of_true ?_ rfl
    by_cases hne : ls = []
    · exact .inl (by rw [hne]; rfl)
    · exact .inr (by rw [List.append_nil, ← unlines_append_break hne, List.getLast?_concat])
  | cons c last =>
    refine iff_of_false ?_ (List.cons_ne_nil c last)
    rintro (h | h)
    · simp at h
    · have hd := List.getLast?_eq_some_getLast (List.cons_ne_nil c last)
      rw [List.getLast?_append, hd, Option.some_or] at h
      exact hlast (List.mem_of_getLast? (hd.trans h))

/-! ## Carriage returns before line feeds -/

/-- Every line feed of the text follows a carriage return. -/
def FeedsReturned (s : Text) : Prop :=
  ∀ before after, s = before ++ '\n' :: after → before.getLast? = some '\r'

theorem feedsReturned_of_not_mem (h : '\n' ∉ s) : FeedsReturned s := by
  rintro before after rfl
  exact absurd (List.mem_append_right before List.mem_cons_self) h

theorem feedsReturned_append_break (hl : '\n' ∉ l) (s : Text) :
    FeedsReturned (l ++ '\n' :: s) ↔ l.getLast? = some '\r' ∧ FeedsReturned s := by
  constructor
  · intro h
    refine ⟨h l s rfl, ?_⟩
    rintro before after rfl
    have hlast := h (l ++ '\n' :: before) after (by simp)
    cases before with
    | nil => simp at hlast
    | cons c before => simpa [List.getLast?_cons_cons] using hlast
  · rintro ⟨hlast, hs⟩ before after heq
    rcases List.append_eq_append_iff.mp heq with ⟨more, rfl, hmore⟩ | ⟨more, rfl, hmore⟩
    · cases more with
      | nil => rwa [List.append_nil]
      | cons c more =>
        obtain ⟨rfl, rfl⟩ := List.cons_eq_cons.mp hmore
        rw [List.getLast?_append, List.getLast?_cons, hs more after rfl]
        rfl
    · cases more with
      | nil => rwa [List.append_nil] at hlast
      | cons c more =>
        obtain ⟨rfl, -⟩ := List.cons_eq_cons.mp hmore
        exact absurd (List.mem_append_right before List.mem_cons_self) hl

/-- It is enough to look at the ends of the lines. -/
theorem feedsReturned_iff (h : ∀ l ∈ ls, '\n' ∉ l) (hlast : '\n' ∉ last) :
    FeedsReturned (terminated ls ++ last) ↔ ∀ l ∈ ls, l.getLast? = some '\r' := by
  induction ls with
  | nil => exact iff_of_true (feedsReturned_of_not_mem hlast) (fun l hl => by cases hl)
  | cons l ls ih =>
    rw [terminated_cons, List.append_assoc, List.cons_append,
      feedsReturned_append_break (h l List.mem_cons_self),
      ih fun l' hl' => h l' (List.mem_cons_of_mem l hl'), List.forall_mem_cons]

theorem feedsReturned_cons (c : Char) (hfeed : c ≠ '\n') (hreturn : c ≠ '\r') :
    FeedsReturned (c :: s) ↔ FeedsReturned s := by
  obtain ⟨ls, last, rfl, h, hlast⟩ := exists_terminated_append s
  cases ls with
  | nil =>
    have hnone : '\n' ∉ c :: last := List.not_mem_cons_of_ne_of_not_mem hfeed.symm hlast
    exact iff_of_true (feedsReturned_of_not_mem hnone) (feedsReturned_of_not_mem hlast)
  | cons l ls =>
    have hl := h l List.mem_cons_self
    rw [terminated_cons, List.append_assoc, List.cons_append, feedsReturned_append_break hl,
      ← List.cons_append, feedsReturned_append_break (List.not_mem_cons_of_ne_of_not_mem hfeed.symm hl)]
    cases l with
    | nil => simp [hreturn]
    | cons c' l => rw [List.getLast?_cons_cons]

/-! ## What stands before line feeds -/

/-- A word before a line feed ends the line, or stands further down. -/
theorem infix_append_break {w : Text} (hw : '\n' ∉ w) (hl : '\n' ∉ l) (s : Text) :
    w ++ ['\n'] <:+: l ++ '\n' :: s ↔ w <:+ l ∨ w ++ ['\n'] <:+: s := by
  constructor
  · rintro ⟨before, after, heq⟩
    have hsplit : before ++ w ++ '\n' :: after = l ++ '\n' :: s := by simpa using heq
    rcases List.append_eq_append_iff.mp hsplit with ⟨more, rfl, hmore⟩ | ⟨more, hbefore, hmore⟩
    · cases more with
      | nil => exact .inl ⟨before, (List.append_nil _).symm⟩
      | cons c more =>
        obtain ⟨rfl, -⟩ := List.cons_eq_cons.mp hmore
        exact absurd (List.mem_append_right _ List.mem_cons_self) hl
    · cases more with
      | nil =>
        rw [List.append_nil] at hbefore
        exact .inl ⟨before, hbefore⟩
      | cons c more =>
        obtain ⟨rfl, rfl⟩ := List.cons_eq_cons.mp hmore
        -- the word is too short to reach back over the first line feed
        have hsuffix : w <:+ more := by
          rcases List.suffix_or_suffix_of_suffix (hbefore ▸ List.suffix_append before w)
            (List.suffix_append l ('\n' :: more)) with h | h
          · rcases List.suffix_cons_iff.mp h with rfl | h
            · exact absurd List.mem_cons_self hw
            · exact h
          · exact absurd (h.subset List.mem_cons_self) hw
        obtain ⟨front, rfl⟩ := hsuffix
        exact .inr ⟨front, after, by simp⟩
  · rintro (⟨front, rfl⟩ | h)
    · exact ⟨front, s, by simp⟩
    · exact h.trans (List.IsSuffix.isInfix ⟨l ++ ['\n'], by simp⟩)

/-- A word stands before a line feed where it ends a line. -/
theorem infix_terminated_append {w : Text} (hw : '\n' ∉ w) (h : ∀ l ∈ ls, '\n' ∉ l)
    (hlast : '\n' ∉ last) : w ++ ['\n'] <:+: terminated ls ++ last ↔ ∃ l ∈ ls, w <:+ l := by
  induction ls with
  | nil =>
    refine iff_of_false (fun hstands => ?_) (fun ⟨l, hl, _⟩ => by cases hl)
    exact hlast (hstands.subset (List.mem_append_right w (List.mem_singleton_self '\n')))
  | cons l ls ih =>
    rw [terminated_cons, List.append_assoc, List.cons_append,
      infix_append_break hw (h l List.mem_cons_self),
      ih fun l' hl' => h l' (List.mem_cons_of_mem l hl')]
    simp only [List.mem_cons, exists_eq_or_imp]

/-! ## Lines cut at any break -/

theorem anyLines_unlines (hbreak : ∀ l ∈ ls, '\n' ∉ l) (hreturn : ∀ l ∈ ls, '\r' ∉ l)
    (hne : ls ≠ []) : anyLines (unlines ls) = ls := by
  rw [anyLines, unifyBreaks_of_not_mem (not_mem_unlines (by decide) hreturn),
    lines_unlines ls hbreak hne]

theorem anyLines_terminated (hbreak : ∀ l ∈ ls, '\n' ∉ l) (hreturn : ∀ l ∈ ls, '\r' ∉ l) :
    anyLines (terminated ls) = ls ++ [[]] := by
  rw [anyLines, unifyBreaks_of_not_mem (not_mem_terminated (by decide) hreturn),
    lines_terminated hbreak]

/-- What may end a line. -/
def breaks : List Text := [['\n'], ['\r', '\n'], ['\r']]

theorem unifyBreaks_append (h : '\r' ∉ l) (s : Text) : unifyBreaks (l ++ s) = l ++ unifyBreaks s := by
  induction l with
  | nil => rfl
  | cons c l ih =>
    obtain ⟨hc, hl⟩ := List.ne_and_not_mem_of_not_mem_cons h
    rw [List.cons_append, unifyBreaks_cons hc.symm, ih hl, List.cons_append]

/-- Lines joined by any break are the same text once breaks are unified. -/
theorem unifyBreaks_intercalate {ending : Text} (hending : ending ∈ breaks) (hbreak : ∀ l ∈ ls, '\n' ∉ l)
    (hreturn : ∀ l ∈ ls, '\r' ∉ l) : unifyBreaks (ending.intercalate ls) = unlines ls := by
  have hjoin (hhead : ending.head? = some '\r')
      (hstep : ∀ s : Text, s.head? ≠ some '\n' → unifyBreaks (ending ++ s) = '\n' :: unifyBreaks s) :
      unifyBreaks (ending.intercalate ls) = unlines ls := by
    induction ls with
    | nil => rfl
    | cons l ls ih =>
      obtain ⟨-, hbreaks⟩ := List.forall_mem_cons.mp hbreak
      obtain ⟨hl, hreturns⟩ := List.forall_mem_cons.mp hreturn
      cases ls with
      | nil => simpa [unlines] using unifyBreaks_of_not_mem hl
      | cons next rest =>
        -- the text that follows begins with no line feed, so that a return stands alone
        have hnext : (ending.intercalate (next :: rest)).head? ≠ some '\n' := by
          cases next with
          | nil =>
            cases rest with
            | nil => simp
            | cons => simp [List.intercalate_cons_cons, List.head?_append, hhead]
          | cons c next =>
            have hc : '\n' ∉ c :: next := hbreaks _ List.mem_cons_self
            have hne : c ≠ '\n' := fun heq => hc (heq ▸ List.mem_cons_self)
            cases rest <;> simp [List.intercalate_cons_cons, hne]
        rw [List.intercalate_cons_cons, List.append_assoc, unifyBreaks_append hl, hstep _ hnext,
          ih hbreaks hreturns, unlines_cons l (by simp)]
  simp only [breaks, List.mem_cons, List.not_mem_nil, or_false] at hending
  rcases hending with rfl | rfl | rfl
  · exact unifyBreaks_of_not_mem (not_mem_unlines (by decide) hreturn)
  · exact hjoin rfl fun s _ => unifyBreaks_return_feed s
  · exact hjoin rfl fun s hs => unifyBreaks_return hs

theorem anyLines_intercalate {ending : Text} (hending : ending ∈ breaks) (hbreak : ∀ l ∈ ls, '\n' ∉ l)
    (hreturn : ∀ l ∈ ls, '\r' ∉ l) (hne : ls ≠ []) : anyLines (ending.intercalate ls) = ls := by
  rw [anyLines, unifyBreaks_intercalate hending hbreak hreturn, lines_unlines ls hbreak hne]

end LoosePatch.Text
