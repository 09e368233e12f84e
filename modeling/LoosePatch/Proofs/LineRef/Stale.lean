import LoosePatch.Proofs.LineRef.Blocks
import LoosePatch.Proofs.LineRef.Faults
import LoosePatch.Proofs.LineRef.Shown
import LoosePatch.Proofs.Text.Letters

/-!
Stale references. Line edits are read and checked before any of them is made, and while one of them
is not as it has to be (`LineEdit.Addresses`), none is called stale. Once all of them are, the
references with another hash are reported together, each in its place (`applyLineEdits_validates`).
Of the letters in a reference the case does not matter (`LineTarget.read_toLower`).
-/

namespace LoosePatch

/-! ## Capitals -/

theorem LineRef.isHash_toLower (hash : Text) : isHash (hash.map Char.toLower) = isHash hash := by
  rw [isHash, isHash, List.isEmpty_map, List.length_map, Text.all_toLower ignoresCase_isHexDigit]

/-- A colon after a number is one in either case. -/
theorem map_toLower_eq_some {numeral : Option (Text × Text)} {digits hash : Text} :
    (numeral.map fun (digits, rest) => (digits, rest.map Char.toLower)) = some (digits, ':' :: hash) ↔
      ∃ hash', numeral = some (digits, ':' :: hash') ∧ hash'.map Char.toLower = hash := by
  rw [Option.map_eq_some_iff]
  constructor
  · rintro ⟨⟨n, rest⟩, rfl, h⟩
    obtain ⟨rfl, hrest⟩ := Prod.mk.inj h
    obtain ⟨c, hash', rfl, hc, hhash⟩ := List.map_eq_cons_iff.mp hrest
    obtain rfl := (toLower_eq_iff (by decide)).mp hc
    exact ⟨hash', rfl, hhash⟩
  · rintro ⟨hash', rfl, rfl⟩
    exact ⟨_, rfl, rfl⟩

theorem LineRef.read_toLower {given : Text} {ref : LineRef} :
    read (given.map Char.toLower) = .ok ref ↔ read given = .ok ref := by
  have hbar : IgnoresCase fun c => decide (c ≠ '|') :=
    fun c => decide_eq_decide.mpr (not_congr (toLower_eq_iff (by decide)))
  rw [read_eq_ok, read_eq_ok, Text.takeWhile_toLower hbar, Text.trim_toLower,
    Text.readNumeral?_toLower]
  simp only [map_toLower_eq_some]
  constructor
  · rintro ⟨digits, line, _, ⟨hash, hnumeral, rfl⟩, hhash, hline, hpos, rfl⟩
    rw [isHash_toLower] at hhash
    exact ⟨digits, line, hash, hnumeral, hhash, hline, hpos, by rw [Text.map_toLower_toLower]⟩
  · rintro ⟨digits, line, hash, hnumeral, hhash, hline, hpos, rfl⟩
    rw [← isHash_toLower] at hhash
    exact ⟨digits, line, _, ⟨hash, hnumeral, rfl⟩, hhash, hline, hpos,
      by rw [Text.map_toLower_toLower]⟩

/-- A target is read from small letters and from capitals alike. -/
theorem LineTarget.read_toLower {src : Text} {target : LineTarget} :
    read (src.map Char.toLower) = .ok target ↔ read src = .ok target := by
  have hdots : ∀ d ∈ dots, d.toNat < 65 ∨ 122 < d.toNat := by simp [dots]
  have hblank (s : Text) : Text.isBlankText (s.map Char.toLower) = s.isBlankText :=
    Text.all_toLower ignoresCase_isBlank s
  have hread {f : LineRef → LineTarget} (given : Text) :
      (do return f (← LineRef.read (given.map Char.toLower)) : Outcome LineTarget) = .ok target ↔
        (do return f (← LineRef.read given) : Outcome LineTarget) = .ok target := by
    simp only [bind_eq_ok, LineRef.read_toLower]
  simp only [read, Text.contains_toLower (d := '\n') (by decide),
    Text.contains_toLower (d := ',') (by decide), Text.trim_toLower, Text.isPrefixOf?_toLower hdots,
    Text.cutAt_toLower hdots]
  split
  · exact iff_of_false (by rintro ⟨⟩) (by rintro ⟨⟩)
  split
  · exact iff_of_false (by rintro ⟨⟩) (by rintro ⟨⟩)
  cases dots.isPrefixOf? src.trim with
  | some rest =>
    simp only [Option.map_some, Text.occursIn_toLower hdots]
    split
    · exact iff_of_false (by rintro ⟨⟩) (by rintro ⟨⟩)
    · exact hread rest
  | none =>
    simp only [Option.map_none]
    cases Text.cutAt dots src.trim with
    | none => exact hread src.trim
    | some ends =>
      obtain ⟨first, last⟩ := ends
      simp only [Option.map_some, Prod.map_apply, hblank]
      split
      · exact hread first
      · simp only [bind_eq_ok, LineRef.read_toLower]

namespace LineEdit

/-- The edit is read as this target: its lines exist, they are in order, and an insert has text. -/
structure Addresses (file : List Text) (g : LineEdit) (target : LineTarget) : Prop where
  read : LineTarget.read g.src = .ok target
  ordered : target.first ≤ target.last
  inside : ∀ ref ∈ target.refs, ref.line ≤ file.length
  inserts : target.isInsertion = true → g.dst ≠ []

/-- The edits differ in nothing but the case of letters in their references. -/
def SameButCase (g g' : LineEdit) : Prop :=
  g.src.map Char.toLower = g'.src.map Char.toLower ∧ g.dst = g'.dst

variable {file : List Text} {given given' : List LineEdit} {g g' : LineEdit} {target : LineTarget}
  {e : TargetEdit} {edits : List TargetEdit}

theorem addresses_iff : Addresses file g target ↔
    ∃ e, g.read = .ok e ∧ e.target = target ∧ e.Sound file := by
  constructor
  · intro h
    let e : TargetEdit := ⟨target, LineRef.dropCopied (if g.dst.isEmpty then [] else g.dst.lines)⟩
    have hread : g.read = .ok e := bind_eq_ok.mpr ⟨target, h.read, rfl⟩
    have hinserts : e.target.isInsertion = true → e.lines ≠ [] := fun hinsertion =>
      mt (lines_eq_nil_iff hread).mp (h.inserts hinsertion)
    exact ⟨e, hread, rfl, h.ordered, hinserts, h.inside⟩
  · rintro ⟨e, hread, rfl, hsound⟩
    obtain ⟨target, htarget, h⟩ := bind_eq_ok.mp hread
    obtain rfl : target = e.target := congrArg TargetEdit.target (Except.ok.inj h)
    exact ⟨htarget, hsound.ordered, hsound.inside,
      fun hinsertion => mt (lines_eq_nil_iff hread).mpr (hsound.inserts hinsertion)⟩

theorem forall₂_addresses_iff {targets : List LineTarget} :
    List.Forall₂ (Addresses file) given targets ↔
      ∃ edits, given.mapM read = .ok edits ∧ edits.map TargetEdit.target = targets ∧
        ∀ e ∈ edits, e.Sound file := by
  constructor
  · intro h
    induction h with
    | nil => exact ⟨[], rfl, rfl, List.forall_mem_nil _⟩
    | cons hfirst _ ih =>
      obtain ⟨e, hread, rfl, hsound⟩ := addresses_iff.mp hfirst
      obtain ⟨edits, hreads, rfl, hsounds⟩ := ih
      exact ⟨e :: edits, mapM_eq_ok.mpr (.cons hread (mapM_eq_ok.mp hreads)), rfl,
        List.forall_mem_cons.mpr ⟨hsound, hsounds⟩⟩
  · rintro ⟨edits, hreads, rfl, hsounds⟩
    have hall := mapM_eq_ok.mp hreads
    clear hreads
    induction hall with
    | nil => exact .nil
    | cons hread _ ih =>
      obtain ⟨hsound, hsounds⟩ := List.forall_mem_cons.mp hsounds
      exact .cons (addresses_iff.mpr ⟨_, hread, rfl, hsound⟩) (ih hsounds)

theorem SameButCase.read_eq (h : SameButCase g g') (hread : g.read = .ok e) : g'.read = .ok e := by
  obtain ⟨hsrc, hdst⟩ := h
  obtain ⟨target, htarget, heq⟩ := bind_eq_ok.mp hread
  rw [hdst] at heq
  refine bind_eq_ok.mpr ⟨target, ?_, heq⟩
  rw [← LineTarget.read_toLower, ← hsrc, LineTarget.read_toLower]
  exact htarget

theorem mapM_read_of_sameButCase (h : List.Forall₂ SameButCase given given')
    (hread : given.mapM read = .ok edits) : given'.mapM read = .ok edits := by
  rw [mapM_eq_ok] at hread ⊢
  induction h generalizing edits with
  | nil => exact hread
  | cons hfirst _ ih =>
    cases hread with
    | cons hread hreads => exact .cons (hfirst.read_eq hread) (ih hreads)

end LineEdit

/-! ## The outcome -/

section Outcome

variable {file : List Text} {given : List LineEdit} {edits : List TargetEdit}

/-- Sound edits are made unless one of their references is stale. -/
theorem applyLineEdits_of_sound (hread : given.mapM LineEdit.read = .ok edits)
    (h : ∀ e ∈ edits, e.Sound file) :
    applyLineEdits file given =
      if (LineTarget.staleRefs file (edits.map TargetEdit.target)).isEmpty then
        (edits.mergeSort TargetEdit.le).foldlM TargetEdit.step { lines := file }
      else refuse (.staleReferences ((LineTarget.staleRefs file (edits.map TargetEdit.target)).map
        (LineRef.mismatch file)) file) := by
  rw [applyLineEdits, hread]
  show (TargetEdit.checkAll file edits >>= fun _ => _) = _
  rw [TargetEdit.checkAll_of_sound h]
  split <;> rfl

/-- Making edits is nothing they are refused for. -/
theorem run_not_refused (done : LineOutcome) (why : Refusal) :
    edits.foldlM TargetEdit.step done ≠ .error (.refused why) := by
  intro h
  have hfault := FailsOnly.foldlM (fun done e _ => TargetEdit.step_failsOnly done e) _ _ h
  cases hfault

/-- If an edit is not as it has to be, the edits are refused for that, or the number in a reference is
too long to be read. -/
theorem applyLineEdits_refuses_form (h : ¬ ∃ targets, List.Forall₂ (LineEdit.Addresses file) given targets) :
    ∃ failure, applyLineEdits file given = .error failure ∧
      (failure.IsRefusalOf LineEdit.formKinds ∨ ∃ g ∈ given, failure.IsLongNumber g.src) := by
  cases hread : given.mapM LineEdit.read with
  | error failure =>
    exact ⟨failure, by rw [applyLineEdits, hread]; rfl,
      LineEdit.mapM_read_failsOnly given failure hread⟩
  | ok edits =>
    cases hcheck : edits.mapM (TargetEdit.check file) with
    | error failure =>
      have hform := (FailsOnly.mapM fun e _ => TargetEdit.check_failsOnly file e) failure hcheck
      refine ⟨failure, ?_, .inl hform⟩
      rw [applyLineEdits, hread]
      show (TargetEdit.checkAll file edits >>= fun _ => _) = _
      rw [TargetEdit.checkAll, hcheck]
      rfl
    | ok found =>
      refine absurd ⟨_, LineEdit.forall₂_addresses_iff.mpr ⟨edits, hread, rfl, fun e he => ?_⟩⟩ h
      obtain ⟨_, -, hsound⟩ := exists_mem_of_forall₂ (mapM_eq_ok.mp hcheck).flip he
      exact (TargetEdit.check_eq_ok.mp hsound).1

/-- A first reference with a number that is too long fails all edits. -/
theorem applyLineEdits_of_long (file : List Text) (dst : Text) {k : Nat} {hash : Text}
    (hlong : ¬ Readable k) (hhash : LineRef.isHash hash = true)
    (hchars : ∀ c ∈ hash, isReferenceChar c = true) :
    applyLineEdits file (⟨numeral k ++ ':' :: hash, dst⟩ :: given) =
      .error (.fault (.numberTooLong (numeral k).length)) := by
  have hread : LineEdit.read ⟨numeral k ++ ':' :: hash, dst⟩ =
      .error (.fault (.numberTooLong (numeral k).length)) := by
    rw [LineEdit.read, LineTarget.read_numeral_hash k hchars,
      LineRef.read_numeral_hash k hhash hchars, readNumber_numeral_of_not_readable hlong]
    rfl
  rw [applyLineEdits, List.mapM_cons, hread]
  rfl

end Outcome

/-- Line edits that are as they have to be are refused as stale exactly if the line of some reference
has another hash now, in whatever case the reference is written; and the report lists just these
references, in the order of the edits. If an edit is not as it has to be, none is made: the refusal is
for its form or its lines, unless the number in a reference is too long to be read. -/
theorem applyLineEdits_validates (file : List Text) (given : List LineEdit) :
    (∀ targets, List.Forall₂ (LineEdit.Addresses file) given targets →
      ((∃ why, applyLineEdits file given = .error (.refused why) ∧ why.kind = .staleContent) ↔
        ∃ target ∈ targets, ∃ ref ∈ target.refs,
          LineRef.hashOf ref.line (file.getD (ref.line - 1) []) ≠ ref.hash) ∧
      (∀ why, applyLineEdits file given = .error (.refused why) →
        let stale := LineTarget.staleRefs file targets
        why.staleReport? = some (stale.map fun ref => numeral ref.line ++ ':' :: ref.hash,
          stale.map fun ref =>
            numeral ref.line ++ ':' :: LineRef.hashOf ref.line (file.getD (ref.line - 1) []),
          stale.map (·.line))) ∧
      ∀ given', List.Forall₂ LineEdit.SameButCase given given' →
        applyLineEdits file given' = applyLineEdits file given) ∧
    ((¬ ∃ targets, List.Forall₂ (LineEdit.Addresses file) given targets) →
      (∃ why, applyLineEdits file given = .error (.refused why) ∧
        (why.kind = .invalidEnvelope ∨ why.kind = .invalidAnchor)) ∨
      ∃ digits, applyLineEdits file given = .error (.fault (.numberTooLong digits)) ∧
        ∃ g ∈ given, g.src.HoldsLong digits) := by
  refine ⟨fun targets htargets => ?_, fun h => ?_⟩
  · obtain ⟨edits, hread, rfl, hsound⟩ := LineEdit.forall₂_addresses_iff.mp htargets
    have happly := applyLineEdits_of_sound hread hsound
    have hcase (given' : List LineEdit) (hgiven' : List.Forall₂ LineEdit.SameButCase given given') :
        applyLineEdits file given' = applyLineEdits file given := by
      rw [happly]
      exact applyLineEdits_of_sound (LineEdit.mapM_read_of_sameButCase hgiven' hread) hsound
    cases hstale : LineTarget.staleRefs file (edits.map TargetEdit.target) with
    | nil =>
      rw [hstale, List.isEmpty_nil, if_pos rfl] at happly
      have hfresh := LineTarget.staleRefs_eq_nil_iff.mp hstale
      refine ⟨iff_of_false ?_ ?_, fun why hwhy => ?_, hcase⟩
      · rintro ⟨why, hwhy, -⟩
        exact run_not_refused _ why (happly.symm.trans hwhy)
      · rintro ⟨target, htarget, ref, href, hhash⟩
        rw [← LineRef.isStale_eq_true, hfresh target htarget ref href] at hhash
        cases hhash
      · exact absurd (happly.symm.trans hwhy) (run_not_refused _ why)
    | cons ref rest =>
      have hmem : ref ∈ LineTarget.staleRefs file (edits.map TargetEdit.target) :=
        hstale ▸ List.mem_cons_self
      obtain ⟨href, hhash⟩ := List.mem_filter.mp hmem
      obtain ⟨target, htarget, href⟩ := List.mem_flatMap.mp href
      rw [hstale, List.isEmpty_cons, if_neg Bool.false_ne_true] at happly
      refine ⟨iff_of_true ⟨_, happly, rfl⟩ ⟨target, htarget, ref, href,
        LineRef.isStale_eq_true.mp hhash⟩, fun why hwhy => ?_, hcase⟩
      obtain rfl := Failure.refused.inj (Except.error.inj (happly.symm.trans hwhy))
      simp only [Refusal.staleReport?, List.map_map]
      rfl
  · obtain ⟨_, hfailure, ⟨why, rfl, hkind⟩ | ⟨g, hg, digits, rfl, hlong⟩⟩ :=
      applyLineEdits_refuses_form h
    · exact .inl ⟨why, hfailure, by simpa [LineEdit.formKinds] using hkind⟩
    · exact .inr ⟨digits, hfailure, g, hg, hlong⟩

/-- One reference in capitals that is current, an end of a range and an insert that are stale; and the
same with a line that does not exist. -/
theorem applyLineEdits_validates_three :
    let file : List Text := [['a'], ['b'], ['c']]
    let given : List LineEdit := [⟨"1:03A9".toList, ['x']⟩, ⟨"2:0000..3:4670".toList, []⟩,
      ⟨"3:FFFF..".toList, ['y']⟩]
    (∃ why, applyLineEdits file given = .error (.refused why) ∧ why.kind = .staleContent ∧
      why.staleReport? = some (["2:0000".toList, "3:ffff".toList], ["2:c19f".toList, "3:4670".toList],
        [2, 3])) ∧
    ∃ why, applyLineEdits file (⟨"4:0000".toList, ['z']⟩ :: given) = .error (.refused why) ∧
      (why.kind = .invalidEnvelope ∨ why.kind = .invalidAnchor) := by
  intro file given
  have ha : LineRef.hashOf 1 ['a'] = "03a9".toList := by decide +kernel
  have hb : LineRef.hashOf 2 ['b'] = "c19f".toList := by decide +kernel
  have hc : LineRef.hashOf 3 ['c'] = "4670".toList := by decide +kernel
  have htwo : numeral 2 = ['2'] := by decide
  have hthree : numeral 3 = ['3'] := by decide
  constructor
  · let targets : List LineTarget := [.single ⟨1, "03a9".toList⟩,
      .range ⟨2, "0000".toList⟩ ⟨3, "4670".toList⟩, .after ⟨3, "ffff".toList⟩]
    have htargets : List.Forall₂ (LineEdit.Addresses file) given targets := by
      refine .cons ⟨by decide +kernel, by decide, by decide, by decide⟩ ?_
      refine .cons ⟨by decide +kernel, by decide, by decide, by decide⟩ ?_
      exact .cons ⟨by decide +kernel, by decide, by decide, by decide⟩ .nil
    have hstale : LineTarget.staleRefs file targets = [⟨2, "0000".toList⟩, ⟨3, "ffff".toList⟩] := by
      simp [LineTarget.staleRefs, LineRef.isStale, targets, file, LineTarget.refs, ha, hb, hc]
    obtain ⟨hrefused, hreport, -⟩ := (applyLineEdits_validates file given).1 targets htargets
    obtain ⟨why, hwhy, hkind⟩ := hrefused.mpr
      ⟨_, List.mem_cons_of_mem _ List.mem_cons_self, _, List.mem_cons_self, by
        simp [file, hb]⟩
    refine ⟨why, hwhy, hkind, ?_⟩
    have hwhole := hreport why hwhy
    simp only [hstale] at hwhole
    simpa [file, hb, hc, htwo, hthree] using hwhole
  · have hmissing : ¬ ∃ targets, List.Forall₂ (LineEdit.Addresses file)
        (⟨"4:0000".toList, ['z']⟩ :: given) targets := by
      rintro ⟨targets, htargets⟩
      cases htargets with
      | cons hfirst _ =>
        have hread : LineTarget.read "4:0000".toList = .ok (.single ⟨4, "0000".toList⟩) := by decide +kernel
        obtain rfl := Except.ok.inj (hfirst.read.symm.trans hread)
        exact absurd (hfirst.inside _ List.mem_cons_self) (by decide)
    have hshort : ∀ g ∈ (⟨"4:0000".toList, ['z']⟩ :: given : List LineEdit),
        g.src.length ≤ mostDigits := by decide
    refine ((applyLineEdits_validates file _).2 hmissing).resolve_right ?_
    rintro ⟨digits, -, g, hg, hlong⟩
    exact absurd hlong.lt_length (Nat.not_lt.mpr (hshort g hg))

/-- A number with one digit more than is read is neither looked up nor refused. -/
theorem applyLineEdits_far_line :
    applyLineEdits [['a']] [⟨numeral (10 ^ mostDigits) ++ ':' :: "0000".toList, []⟩] =
      .error (.fault (.numberTooLong (mostDigits + 1))) := by
  have hhash : LineRef.isHash "0000".toList = true := by decide
  have hchars : "0000".toList.all isReferenceChar = true := by decide
  rw [← length_numeral_pow]
  exact applyLineEdits_of_long [['a']] [] not_readable_pow hhash (List.all_eq_true.mp hchars)

end LoosePatch
