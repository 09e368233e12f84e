import LoosePatch.LineRef.Apply
import LoosePatch.Proofs.Text.Readable
import LoosePatch.Proofs.Text.Trim

/-!
What reading and checking line edits leaves behind: edits that name lines of the file, first and last
line in order (`TargetEdit.Fits`). An edit is refused for its form or for lines that do not exist
(`TargetEdit.Sound`); what is stale is only collected, and refused once all edits are sound.
-/

namespace LoosePatch

/-- The failure is a refusal of one of these kinds. -/
def Failure.IsRefusalOf (kinds : List RefusalKind) (failure : Failure) : Prop :=
  ∃ why, failure = .refused why ∧ why.kind ∈ kinds

/-- What a line edit can be refused for on its own: its form, or the lines it names. -/
def LineEdit.formKinds : List RefusalKind := [.invalidEnvelope, .invalidAnchor]

/-- What line edits can be refused for: their form, the lines they name, or the hashes of these. -/
def LineEdit.refusalKinds : List RefusalKind := [.invalidEnvelope, .invalidAnchor, .staleContent]

variable {β : Type}

theorem failsOnly_refuse {kinds : List RefusalKind} {why : Refusal} (h : why.kind ∈ kinds) :
    FailsOnly (Failure.IsRefusalOf kinds) (refuse why : Outcome β) :=
  failsOnly_error ⟨why, rfl, h⟩

theorem Failure.IsRefusalOf.of_formKinds {failure : Failure}
    (h : failure.IsRefusalOf LineEdit.formKinds) : failure.IsRefusalOf LineEdit.refusalKinds := by
  have hsub : LineEdit.formKinds ⊆ LineEdit.refusalKinds := by decide
  obtain ⟨why, rfl, hkind⟩ := h
  exact ⟨why, rfl, hsub hkind⟩

/-! ## Reading -/

/-- The texts before and after a separator are pieces of the text. -/
theorem Text.pieces_of_cutAt {sep s before after : Text} (h : cutAt sep s = some (before, after)) :
    before <:+: s ∧ after <:+: s := by
  suffices hsuffix : before <+: s ∧ after <:+ s from ⟨hsuffix.1.isInfix, hsuffix.2.isInfix⟩
  induction s generalizing before with
  | nil =>
    unfold cutAt at h
    split at h
    · cases h
      exact ⟨List.prefix_rfl, List.suffix_rfl⟩
    · cases h
  | cons c s ih =>
    unfold cutAt at h
    split at h
    · cases h
      exact ⟨List.nil_prefix, List.drop_suffix _ _⟩
    · obtain ⟨⟨before', after'⟩, hrest, heq⟩ := Option.map_eq_some_iff.mp h
      cases heq
      obtain ⟨hbefore, hafter⟩ := ih hrest
      exact ⟨List.cons_prefix_cons.mpr ⟨rfl, hbefore⟩, hafter.trans (List.suffix_cons c s)⟩

namespace LineRef

theorem read_failsOnly (given : Text) :
    FailsOnly (Failure.OrLongNumber (Failure.IsRefusalOf LineEdit.formKinds) given) (read given) := by
  unfold read
  extract_lets cleaned
  have hcleaned : cleaned <:+: given :=
    (Text.trim_isInfix _).trans (List.takeWhile_prefix _).isInfix
  split
  · rename_i digits hash hnumeral
    split
    · exact (failsOnly_refuse (by simp [Refusal.kind, LineEdit.formKinds])).orLongNumber _
    · have hdigits := (Text.hasDigits_of_readNumeral? hnumeral).of_piece hcleaned
      refine (readNumber_failsOnly hdigits).bind fun line _ => ?_
      split
      · exact (failsOnly_refuse (by simp [Refusal.kind, LineEdit.formKinds])).orLongNumber _
      · exact failsOnly_ok _
  · exact (failsOnly_refuse (by simp [Refusal.kind, LineEdit.formKinds])).orLongNumber _

/-- What is read as a reference is a number from 1 on, a colon and the digits of a hash. -/
theorem read_eq_ok {given : Text} {ref : LineRef} :
    read given = .ok ref ↔ ∃ digits line hash,
      Text.readNumeral? (Text.trim (given.takeWhile (· ≠ '|'))) = some (digits, ':' :: hash) ∧
        isHash hash = true ∧ readNumber digits = .ok line ∧ 1 ≤ line ∧
        ref = ⟨line, hash.map Char.toLower⟩ := by
  unfold read
  extract_lets cleaned
  split
  · rename_i digits hash hnumeral
    rw [hnumeral]
    simp only [Option.some.injEq, Prod.mk.injEq, List.cons.injEq, true_and]
    split
    · rename_i hbad
      refine iff_of_false (by rintro ⟨⟩) ?_
      rintro ⟨_, _, _, ⟨rfl, rfl⟩, hhash, -⟩
      rw [hhash] at hbad
      cases hbad
    · rename_i hgood
      have hhash : isHash hash = true := by simpa using hgood
      constructor
      · intro h
        obtain ⟨line, hline, h⟩ := bind_eq_ok.mp h
        split at h
        · cases h
        · exact ⟨digits, line, hash, ⟨rfl, rfl⟩, hhash, hline, by omega, (Except.ok.inj h).symm⟩
      · rintro ⟨_, line, _, ⟨rfl, rfl⟩, -, hline, hpos, rfl⟩
        exact bind_eq_ok.mpr ⟨line, hline, if_neg (Nat.not_lt.mpr hpos)⟩
  · rename_i hnone
    refine iff_of_false (by rintro ⟨⟩) ?_
    rintro ⟨digits, line, hash, hnumeral, -⟩
    exact hnone digits hash hnumeral

/-- Lines are counted from 1. -/
theorem line_pos_of_read {given : Text} {ref : LineRef} (h : read given = .ok ref) : 1 ≤ ref.line := by
  obtain ⟨digits, line, hash, -, -, -, hpos, rfl⟩ := read_eq_ok.mp h
  exact hpos

end LineRef

namespace LineTarget

theorem read_failsOnly (src : Text) :
    FailsOnly (Failure.OrLongNumber (Failure.IsRefusalOf LineEdit.formKinds) src) (read src) := by
  have href {given : Text} (hpiece : given <:+: src.trim) :=
    (LineRef.read_failsOnly given).of_piece (hpiece.trans (Text.trim_isInfix src))
  unfold read
  split
  · exact (failsOnly_refuse (by simp [Refusal.kind, LineEdit.formKinds])).orLongNumber _
  · split
    · exact (failsOnly_refuse (by simp [Refusal.kind, LineEdit.formKinds])).orLongNumber _
    · extract_lets src'
      split
      · rename_i rest hlead
        split
        · exact (failsOnly_refuse (by simp [Refusal.kind, LineEdit.formKinds])).orLongNumber _
        · have hrest : rest <:+ src' := ⟨dots, List.isPrefixOf?_eq_some_iff_append_eq.mp hlead⟩
          exact (href hrest.isInfix).bind fun _ _ => failsOnly_ok _
      · split
        · exact (href List.infix_rfl).bind fun _ _ => failsOnly_ok _
        · rename_i first last hcut
          obtain ⟨hfirst, hlast⟩ := Text.pieces_of_cutAt hcut
          split
          · exact (href hfirst).bind fun _ _ => failsOnly_ok _
          · refine (href hfirst).bind fun _ _ => ?_
            exact (href hlast).bind fun _ _ => failsOnly_ok _

theorem line_pos_of_read {src : Text} {target : LineTarget} (h : read src = .ok target) :
    ∀ ref ∈ target.refs, 1 ≤ ref.line := by
  unfold read at h
  split at h
  · cases h
  split at h
  · cases h
  extract_lets src' at h
  split at h
  · split at h
    · cases h
    · obtain ⟨ref, href, h⟩ := bind_eq_ok.mp h
      cases Except.ok.inj h
      simpa [refs] using LineRef.line_pos_of_read href
  split at h
  · obtain ⟨ref, href, h⟩ := bind_eq_ok.mp h
    cases Except.ok.inj h
    simpa [refs] using LineRef.line_pos_of_read href
  split at h
  · obtain ⟨ref, href, h⟩ := bind_eq_ok.mp h
    cases Except.ok.inj h
    simpa [refs] using LineRef.line_pos_of_read href
  · obtain ⟨first, hfirst, h⟩ := bind_eq_ok.mp h
    obtain ⟨last, hlast, h⟩ := bind_eq_ok.mp h
    cases Except.ok.inj h
    simpa [refs] using ⟨LineRef.line_pos_of_read hfirst, LineRef.line_pos_of_read hlast⟩

theorem first_mem_refs (target : LineTarget) : ∃ ref ∈ target.refs, ref.line = target.first := by
  cases target <;> simp [refs, first]

theorem last_mem_refs (target : LineTarget) : ∃ ref ∈ target.refs, ref.line = target.last := by
  cases target <;> simp [refs, last]

end LineTarget

theorem LineEdit.read_failsOnly (e : LineEdit) :
    FailsOnly (Failure.OrLongNumber (Failure.IsRefusalOf LineEdit.formKinds) e.src) e.read :=
  (LineTarget.read_failsOnly e.src).bind fun _ _ => failsOnly_ok _

/-- Edits are read up to the first that is not as it has to be. -/
theorem LineEdit.mapM_read_failsOnly (edits : List LineEdit) :
    FailsOnly (fun failure => failure.IsRefusalOf LineEdit.formKinds ∨
        ∃ g ∈ edits, failure.IsLongNumber g.src)
      (edits.mapM LineEdit.read) :=
  FailsOnly.mapM fun g hg => g.read_failsOnly.imp fun _ h => h.imp_right fun hlong => ⟨g, hg, hlong⟩

/-! ## Checking -/

namespace LineRef

/-- What the file holds at a reference. -/
def mismatch (file : List Text) (ref : LineRef) : Mismatch :=
  ⟨ref.line, ref.hash, hashOf ref.line (file.getD (ref.line - 1) [])⟩

/-- The line of a reference has another hash now. -/
def isStale (file : List Text) (ref : LineRef) : Bool :=
  hashOf ref.line (file.getD (ref.line - 1) []) != ref.hash

theorem isStale_eq_true {file : List Text} {ref : LineRef} :
    ref.isStale file = true ↔ hashOf ref.line (file.getD (ref.line - 1) []) ≠ ref.hash :=
  bne_iff_ne

end LineRef

/-- The references of targets that are stale, in their order. -/
def LineTarget.staleRefs (file : List Text) (targets : List LineTarget) : List LineRef :=
  (targets.flatMap refs).filter (LineRef.isStale file)

theorem LineTarget.staleRefs_eq_nil_iff {file : List Text} {targets : List LineTarget} :
    staleRefs file targets = [] ↔
      ∀ target ∈ targets, ∀ ref ∈ target.refs, ref.isStale file = false := by
  simp only [staleRefs, List.filter_eq_nil_iff, List.mem_flatMap, Bool.not_eq_true,
    forall_exists_index, and_imp]
  exact ⟨fun h target htarget ref href => h ref target htarget href,
    fun h ref target htarget href => h target htarget ref href⟩

namespace TargetEdit

/-- The edit makes sense on its own: its lines exist, they are in order, and an insert has lines. -/
structure Sound (file : List Text) (e : TargetEdit) : Prop where
  ordered : e.target.first ≤ e.target.last
  inserts : e.target.isInsertion = true → e.lines ≠ []
  inside : ∀ ref ∈ e.target.refs, ref.line ≤ file.length

/-- The edit names lines of the file, the first one not after the last. -/
structure Fits (file : List Text) (e : TargetEdit) : Prop where
  first_pos : 1 ≤ e.target.first
  first_le_last : e.target.first ≤ e.target.last
  last_le : e.target.last ≤ file.length

variable {file : List Text}

theorem checkRef_failsOnly (file : List Text) (ref : LineRef) :
    FailsOnly (Failure.IsRefusalOf LineEdit.formKinds) (checkRef file ref) := by
  unfold checkRef
  split
  · exact failsOnly_refuse (by simp [Refusal.kind, LineEdit.formKinds])
  · exact failsOnly_ok _

theorem check_failsOnly (file : List Text) (e : TargetEdit) :
    FailsOnly (Failure.IsRefusalOf LineEdit.formKinds) (check file e) := by
  unfold check
  split
  · exact failsOnly_refuse (by simp [Refusal.kind, LineEdit.formKinds])
  · split
    · exact failsOnly_refuse (by simp [Refusal.kind, LineEdit.formKinds])
    · exact (FailsOnly.mapM fun ref _ => checkRef_failsOnly file ref).bind fun _ _ => failsOnly_ok _

theorem checkAll_failsOnly (file : List Text) (edits : List TargetEdit) :
    FailsOnly (Failure.IsRefusalOf LineEdit.refusalKinds) (checkAll file edits) := by
  refine FailsOnly.bind ?_ fun mismatches _ => ?_
  · exact FailsOnly.mapM fun e _ => (check_failsOnly file e).imp fun _ => .of_formKinds
  extract_lets all
  split
  · exact failsOnly_ok _
  · exact failsOnly_refuse (by simp [Refusal.kind, LineEdit.refusalKinds])

theorem checkRef_eq_ok {ref : LineRef} {found : List LineRef.Mismatch} :
    checkRef file ref = .ok found ↔
      ref.line ≤ file.length ∧
        found = ([ref].filter (LineRef.isStale file)).map (LineRef.mismatch file) := by
  have hfound : (if LineRef.hashOf ref.line (file.getD (ref.line - 1) []) = ref.hash then []
      else [LineRef.mismatch file ref]) =
      ([ref].filter (LineRef.isStale file)).map (LineRef.mismatch file) := by
    by_cases hstale : LineRef.isStale file ref = true
    · rw [if_neg (LineRef.isStale_eq_true.mp hstale), List.filter_cons_of_pos hstale]
      rfl
    · rw [if_pos (not_not.mp (mt LineRef.isStale_eq_true.mpr hstale)),
        List.filter_cons_of_neg hstale]
      rfl
  rw [← hfound]
  unfold checkRef
  split
  · rename_i hmissing
    exact iff_of_false (by rintro ⟨⟩) fun h => absurd h.1 (Nat.not_le_of_lt hmissing)
  · rename_i hinside
    rw [Except.ok.injEq, eq_comm, and_iff_right (Nat.le_of_not_lt hinside)]
    rfl

theorem checkRefs_eq_ok {refs : List LineRef} {found : List (List LineRef.Mismatch)}
    (h : refs.mapM (checkRef file) = .ok found) : (∀ ref ∈ refs, ref.line ≤ file.length) ∧
      found.flatten = (refs.filter (LineRef.isStale file)).map (LineRef.mismatch file) := by
  have hall := mapM_eq_ok.mp h
  clear h
  induction hall with
  | nil => exact ⟨List.forall_mem_nil _, rfl⟩
  | @cons ref _ refs _ href _ ih =>
    obtain ⟨hinside, rfl⟩ := checkRef_eq_ok.mp href
    obtain ⟨hrest, hflat⟩ := ih
    refine ⟨List.forall_mem_cons.mpr ⟨hinside, hrest⟩, ?_⟩
    rw [List.flatten_cons, hflat, ← List.map_append, ← List.filter_append, List.singleton_append]

/-- An edit passes if it is sound, with the references of it that are stale. -/
theorem check_eq_ok {e : TargetEdit} {found : List LineRef.Mismatch} :
    check file e = .ok found ↔ e.Sound file ∧
      found = (e.target.refs.filter (LineRef.isStale file)).map (LineRef.mismatch file) := by
  unfold check
  split
  · rename_i hbackward
    exact iff_of_false (by rintro ⟨⟩) fun h => absurd h.1.ordered (Nat.not_le_of_lt hbackward)
  rename_i hforward
  split
  · rename_i hempty
    refine iff_of_false (by rintro ⟨⟩) fun h => ?_
    obtain ⟨hinsertion, hlines⟩ := Bool.and_eq_true_iff.mp hempty
    exact h.1.inserts hinsertion (List.isEmpty_iff.mp hlines)
  rename_i hfull
  have hinserts : e.target.isInsertion = true → e.lines ≠ [] := by simpa using hfull
  constructor
  · intro h
    obtain ⟨all, hall, h⟩ := bind_eq_ok.mp h
    obtain ⟨hinside, hflat⟩ := checkRefs_eq_ok hall
    exact ⟨⟨Nat.le_of_not_lt hforward, hinserts, hinside⟩, hflat ▸ (Except.ok.inj h).symm⟩
  · rintro ⟨hsound, rfl⟩
    obtain ⟨all, hall⟩ := exists_forall₂ fun ref href =>
      (⟨_, checkRef_eq_ok.mpr ⟨hsound.inside ref href, rfl⟩⟩ : ∃ found, checkRef file ref = .ok found)
    have hrefs := mapM_eq_ok.mpr hall
    rw [hrefs, ← (checkRefs_eq_ok hrefs).2]
    rfl

/-- Of sound edits the stale references are found, and refused together if there are any. -/
theorem checkAll_of_sound {edits : List TargetEdit} (h : ∀ e ∈ edits, e.Sound file) :
    checkAll file edits =
      if (LineTarget.staleRefs file (edits.map TargetEdit.target)).isEmpty then .ok ()
      else refuse (.staleReferences ((LineTarget.staleRefs file (edits.map TargetEdit.target)).map
        (LineRef.mismatch file)) file) := by
  let found (e : TargetEdit) := (e.target.refs.filter (LineRef.isStale file)).map (LineRef.mismatch file)
  have hall : edits.mapM (check file) = .ok (edits.map found) := by
    refine mapM_eq_ok.mpr (List.forall₂_map_right_iff.mpr (List.forall₂_same.mpr fun e he => ?_))
    exact check_eq_ok.mpr ⟨h e he, rfl⟩
  have hflat : (edits.map found).flatten =
      (LineTarget.staleRefs file (edits.map TargetEdit.target)).map (LineRef.mismatch file) := by
    rw [LineTarget.staleRefs, List.flatMap_map, List.filter_flatMap, List.map_flatMap,
      List.flatMap_def]
  rw [checkAll, hall]
  show (if (edits.map found).flatten.isEmpty then _ else _) = _
  rw [hflat, List.isEmpty_map]
  rfl

/-- The edit names lines of the file as they are now, and has lines if it inserts. -/
structure Current (file : List Text) (e : TargetEdit) : Prop extends e.Fits file where
  current : ∀ ref ∈ e.target.refs, ref.line ≤ file.length ∧
    LineRef.hashOf ref.line (file.getD (ref.line - 1) []) = ref.hash
  inserts : e.target.isInsertion = true → e.lines ≠ []

theorem Current.sound {e : TargetEdit} (h : e.Current file) : e.Sound file :=
  ⟨h.first_le_last, h.inserts, fun ref href => (h.current ref href).1⟩

theorem checkAll_of_current {edits : List TargetEdit} (h : ∀ e ∈ edits, e.Current file) :
    checkAll file edits = .ok () := by
  have hnone : LineTarget.staleRefs file (edits.map TargetEdit.target) = [] := by
    refine LineTarget.staleRefs_eq_nil_iff.mpr (List.forall_mem_map.mpr fun e he ref href => ?_)
    rw [Bool.eq_false_iff]
    exact fun hstale => LineRef.isStale_eq_true.mp hstale ((h e he).current ref href).2
  rw [checkAll_of_sound fun e he => (h e he).sound, hnone]
  rfl

theorem fits_of_check {e : TargetEdit} {mismatches : List LineRef.Mismatch}
    (hpos : ∀ ref ∈ e.target.refs, 1 ≤ ref.line) (h : check file e = .ok mismatches) :
    e.Fits file := by
  have hsound := (check_eq_ok.mp h).1
  obtain ⟨first, hfirst, hfirstLine⟩ := e.target.first_mem_refs
  obtain ⟨last, hlast, hlastLine⟩ := e.target.last_mem_refs
  exact ⟨hfirstLine ▸ hpos first hfirst, hsound.ordered, hlastLine ▸ hsound.inside last hlast⟩

theorem fits_of_checkAll {edits : List TargetEdit}
    (hpos : ∀ e ∈ edits, ∀ ref ∈ e.target.refs, 1 ≤ ref.line) (h : checkAll file edits = .ok ()) :
    ∀ e ∈ edits, e.Fits file := by
  intro e he
  obtain ⟨found, hfound, -⟩ := bind_eq_ok.mp h
  obtain ⟨mismatches, -, hcheck⟩ := exists_mem_of_forall₂ (mapM_eq_ok.mp hfound).flip he
  exact fits_of_check (hpos e he) hcheck

/-- Edits that were read and checked name lines of the file. -/
theorem fits_of_read {given : List LineEdit} {edits : List TargetEdit}
    (hread : given.mapM LineEdit.read = .ok edits) (hcheck : checkAll file edits = .ok ()) :
    ∀ e ∈ edits, e.Fits file := by
  refine fits_of_checkAll (fun e he => ?_) hcheck
  obtain ⟨g, -, hg⟩ := exists_mem_of_forall₂ (mapM_eq_ok.mp hread) he
  obtain ⟨target, htarget, heq⟩ := bind_eq_ok.mp hg
  cases Except.ok.inj heq
  exact LineTarget.line_pos_of_read htarget

end TargetEdit

/-- Granted edits were read and checked before they were made, from the bottom up. -/
theorem applyLineEdits_eq_ok {file : List Text} {given : List LineEdit} {done : LineOutcome} :
    applyLineEdits file given = .ok done ↔ ∃ edits, given.mapM LineEdit.read = .ok edits ∧
      TargetEdit.checkAll file edits = .ok () ∧
      (edits.mergeSort TargetEdit.le).foldlM TargetEdit.step { lines := file } = .ok done := by
  rw [applyLineEdits, bind_eq_ok]
  refine exists_congr fun edits => and_congr_right fun _ => ?_
  rw [bind_eq_ok]
  exact ⟨fun ⟨_, hcheck, hrun⟩ => ⟨hcheck, hrun⟩, fun ⟨hcheck, hrun⟩ => ⟨(), hcheck, hrun⟩⟩

/-- What is left of edits that were read and are current is to make them, from the bottom up. -/
theorem applyLineEdits_of_current {file : List Text} {given : List LineEdit}
    {edits : List TargetEdit} (hread : given.mapM LineEdit.read = .ok edits)
    (h : ∀ e ∈ edits, e.Current file) :
    applyLineEdits file given =
      (edits.mergeSort TargetEdit.le).foldlM TargetEdit.step { lines := file } := by
  rw [applyLineEdits, hread]
  show (TargetEdit.checkAll file edits >>= fun _ => _) = _
  rw [TargetEdit.checkAll_of_current h]
  rfl

/-- One edit alone is one step. -/
theorem applyLineEdits_single {file : List Text} {given : LineEdit} {e : TargetEdit}
    (hread : given.read = .ok e) (h : e.Current file) :
    applyLineEdits file [given] = TargetEdit.step { lines := file } e := by
  have hreads : [given].mapM LineEdit.read = .ok [e] := by
    rw [List.mapM_cons, hread]
    rfl
  rw [applyLineEdits_of_current hreads fun e' he' => List.mem_singleton.mp he' ▸ h,
    List.mergeSort_singleton, List.foldlM_cons]
  cases TargetEdit.step { lines := file } e <;> rfl

end LoosePatch
