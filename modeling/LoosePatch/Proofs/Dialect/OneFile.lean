import LoosePatch.Dialect.Marker
import LoosePatch.Proofs.Outcome
import LoosePatch.Proofs.Path
import LoosePatch.Proofs.Text.Trim

/-!
The one file that a diff may be about. Paths are compared by what they resolve to, less one `a/` or
`b/` in front (`Dialect.checkSingleFile_oneFile`); so two files can pass for one, if one of them lives
in a directory of such a name (`Dialect.checkSingleFile_sides`).
-/

namespace LoosePatch.Dialect

variable {raw diff path named : Text} {requested : Option Text}

/-! ## Paths of markers -/

/-- A path as it is spelled between blanks and quotes, with forward slashes. -/
def spelled (raw : Text) : Text := Path.forward (raw.trim.trimBy fun c => c == '"' || c == '\'')

/-- A path without the name of one side of a comparison in front. -/
def withoutSide (path : Text) : Text :=
  if ['a', '/'].isPrefixOf path || ['b', '/'].isPrefixOf path then path.drop 2 else path

/-- The resolved form of a path; nothing resolves to nothing. -/
def resolved (path : Text) : Text := if path.isEmpty then path else Path.normalize path

theorem cleanPath_eq (raw : Text) : cleanPath raw = resolved (withoutSide (spelled raw)) := by
  have hlead (path : Text) : Text.dropLead ['.', '/'] (resolved path) = resolved path := by
    rw [Text.dropLead, resolved]
    split
    · rename_i hempty
      rw [List.isEmpty_iff.mp hempty]
      rfl
    · rw [Path.not_here_lead_normalize, if_neg Bool.false_ne_true]
  exact hlead _

/-- A character that is not taken off the ends of a path. -/
def staysAtEnd (c : Char) : Bool := !isBlank c && !(c == '"' || c == '\'')

/-- A path that could stand in a marker as it is: nothing is left at its ends to be taken off. -/
structure Settled (path : Text) : Prop where
  head : path.head?.all staysAtEnd = true
  last : path.getLast?.all staysAtEnd = true
  side : ¬ ['a', '/'] <+: path ∧ ¬ ['b', '/'] <+: path

instance (path : Text) : Decidable (Settled path) :=
  decidable_of_iff (path.head?.all staysAtEnd = true ∧ path.getLast?.all staysAtEnd = true ∧
      ¬ ['a', '/'] <+: path ∧ ¬ ['b', '/'] <+: path)
    ⟨fun h => ⟨h.1, h.2.1, h.2.2⟩, fun h => ⟨h.head, h.last, h.side⟩⟩

theorem Settled.spelled_eq (h : Settled path) (hslash : '\\' ∉ path) : spelled path = path := by
  have hstays {c : Char} (hc : staysAtEnd c = true) :
      isBlank c = false ∧ (c == '"' || c == '\'') = false := by
    simpa only [staysAtEnd, Bool.and_eq_true, Bool.not_eq_true'] using hc
  have hhead (c : Char) (hc : path.head? = some c) := hstays ((Option.all_eq_true _ _).mp h.head c hc)
  have hlast (c : Char) (hc : path.getLast? = some c) :=
    hstays ((Option.all_eq_true _ _).mp h.last c hc)
  rw [spelled, Text.trim, Text.trimBy_eq_self (fun c hc => (hhead c hc).1) fun c hc => (hlast c hc).1,
    Text.trimBy_eq_self (fun c hc => (hhead c hc).2) fun c hc => (hlast c hc).2,
    Path.forward_of_not_mem hslash]

theorem Settled.withoutSide_eq (h : Settled path) : withoutSide path = path := by
  refine if_neg fun hside => ?_
  rcases Bool.or_eq_true_iff.mp hside with ha | hb
  · exact h.side.1 (List.isPrefixOf_iff_prefix.mp ha)
  · exact h.side.2 (List.isPrefixOf_iff_prefix.mp hb)

theorem resolved_resolved (path : Text) : resolved (resolved path) = resolved path := by
  by_cases hempty : path.isEmpty = true
  · have hsame : resolved path = path := if_pos hempty
    rw [hsame, hsame]
  · have hnormal : resolved path = Path.normalize path := if_neg hempty
    rw [hnormal, resolved, Path.normalize_normalize, ite_self]

theorem not_mem_resolved (h : '\\' ∉ path) : '\\' ∉ resolved path := by
  unfold resolved
  split
  · exact h
  · intro hmem
    rcases Path.mem_normalize hmem with hmem | hmem | hmem
    · exact h hmem
    · cases hmem
    · cases hmem

theorem not_mem_cleanPath (raw : Text) : '\\' ∉ cleanPath raw := by
  rw [cleanPath_eq]
  refine not_mem_resolved fun hmem => Path.not_mem_forward _ (?_ : '\\' ∈ spelled raw)
  unfold withoutSide at hmem
  split at hmem
  · exact List.mem_of_mem_drop hmem
  · exact hmem

/-- Cleaning takes nothing off a settled path that was cleaned. -/
theorem cleanPath_cleanPath (h : Settled (cleanPath raw)) : cleanPath (cleanPath raw) = cleanPath raw := by
  rw [cleanPath_eq (cleanPath raw), h.spelled_eq (not_mem_cleanPath raw), h.withoutSide_eq,
    cleanPath_eq raw, resolved_resolved]

/-- Paths that may name one file end in the components of one of them. -/
theorem parts_of_sameFile {a b : Text} (h : sameFile a b = true) :
    Path.parts (cleanPath a) <:+ Path.parts (cleanPath b) ∨
      Path.parts (cleanPath b) <:+ Path.parts (cleanPath a) := by
  simp only [sameFile, Bool.or_eq_true, beq_iff_eq, List.isSuffixOf_iff_suffix] at h
  rcases h with (heq | hb) | ha
  · rw [heq]
    exact .inl List.suffix_rfl
  · exact .inr (Path.parts_suffix hb)
  · exact .inl (Path.parts_suffix ha)

/-! ## Diffs -/

/-- A line of the diff outside its hunks is a marker for the file at this path. -/
def Marks (diff raw : Text) : Prop :=
  raw ≠ [] ∧ ∃ line ∈ diff.anyLines, Hunk.isMarked line = false ∧ fileMarker? line = some raw

instance (diff raw : Text) : Decidable (Marks diff raw) := by unfold Marks; infer_instance

theorem Marks.mem_markerPaths (h : Marks diff raw) : cleanPath raw ∈ markerPaths diff := by
  obtain ⟨hne, line, hline, hmarked, hraw⟩ := h
  refine List.mem_eraseDups.mpr (List.mem_filterMap.mpr ⟨line, hline, ?_⟩)
  have hempty : raw.isEmpty = false := by rwa [List.isEmpty_eq_false_iff]
  simp only [namedPath?, hmarked, hraw, hempty, Bool.false_eq_true, if_false]

theorem checkSingleFile_of_two {p q : Text} (hp : p ∈ markerPaths diff) (hq : q ∈ markerPaths diff)
    (hne : p ≠ q) :
    checkSingleFile diff requested = refuse (.severalFiles (markerPaths diff)) := by
  unfold checkSingleFile
  cases hpaths : markerPaths diff with
  | nil =>
    rw [hpaths] at hp
    cases hp
  | cons first rest =>
    cases rest with
    | nil =>
      rw [hpaths, List.mem_singleton] at hp hq
      exact absurd (hp.trans hq.symm) hne
    | cons second rest => rfl

theorem sameFile_of_checkSingleFile (hnamed : named ∈ markerPaths diff) (hne : path ≠ [])
    (h : checkSingleFile diff (some path) = .ok ()) : sameFile named path = true := by
  unfold checkSingleFile at h
  cases hpaths : markerPaths diff with
  | nil =>
    rw [hpaths] at hnamed
    cases hnamed
  | cons first rest =>
    rw [hpaths] at h hnamed
    cases rest with
    | nil =>
      rw [List.mem_singleton.mp hnamed]
      have hempty : path.isEmpty = false := by rwa [List.isEmpty_eq_false_iff]
      simp only [hempty, Bool.false_or] at h
      split at h
      · assumption
      · cases h
    | cons second rest => cases h

/-- **A diff is about one file.** Paths are taken as they are spelled between blanks and quotes, with
forward slashes, without one `a/` or `b/` in front, and resolved. If two markers of a diff have
different paths, the diff is refused; and if a diff is accepted for a path, the path of a marker, if it
is settled, ends in the components of the requested one or the other way round. -/
theorem checkSingleFile_oneFile (diff : Text) :
    (∀ requested raw raw', Marks diff raw → Marks diff raw' →
      resolved (withoutSide (spelled raw)) ≠ resolved (withoutSide (spelled raw')) →
      ∃ paths, checkSingleFile diff requested = refuse (.severalFiles paths) ∧
        resolved (withoutSide (spelled raw)) ∈ paths ∧
        resolved (withoutSide (spelled raw')) ∈ paths) ∧
    ∀ path raw, path ≠ [] → Marks diff raw → Settled (resolved (withoutSide (spelled raw))) →
      checkSingleFile diff (some path) = .ok () →
      Path.parts (resolved (withoutSide (spelled raw))) <:+
          Path.parts (resolved (withoutSide (spelled path))) ∨
        Path.parts (resolved (withoutSide (spelled path))) <:+
          Path.parts (resolved (withoutSide (spelled raw))) := by
  simp only [← cleanPath_eq]
  constructor
  · intro requested raw raw' hraw hraw' hne
    exact ⟨_, checkSingleFile_of_two hraw.mem_markerPaths hraw'.mem_markerPaths hne,
      hraw.mem_markerPaths, hraw'.mem_markerPaths⟩
  · intro path raw hne hraw hsettled h
    have hsame := parts_of_sameFile (sameFile_of_checkSingleFile hraw.mem_markerPaths hne h)
    rwa [cleanPath_cleanPath hsettled] at hsame

/-- Two markers for two files, and one marker for a file of which only the name is requested. -/
theorem checkSingleFile_oneFile_markers :
    (∃ paths, checkSingleFile "*** Update File: a.py\n*** Add File: b.py".toList none =
      refuse (.severalFiles paths)) ∧
    checkSingleFile "*** Update File: src/a.py".toList (some "a.py".toList) = .ok () ∧
    (Path.parts (resolved (withoutSide (spelled "src/a.py".toList))) <:+
        Path.parts (resolved (withoutSide (spelled "a.py".toList))) ∨
      Path.parts (resolved (withoutSide (spelled "a.py".toList))) <:+
        Path.parts (resolved (withoutSide (spelled "src/a.py".toList)))) := by
  refine ⟨?_, ?_, ?_⟩
  · obtain ⟨paths, hrefused, -, -⟩ :=
      (checkSingleFile_oneFile "*** Update File: a.py\n*** Add File: b.py".toList).1 none "a.py".toList
        "b.py".toList (by decide) (by decide) (by decide)
    exact ⟨paths, hrefused⟩
  · decide
  · exact (checkSingleFile_oneFile "*** Update File: src/a.py".toList).2 "a.py".toList "src/a.py".toList
      (by decide) (by decide) (by decide) (by decide)

/-- Names of directories are taken for those of sides: markers for `a/x` and `x` pass for one file, and
so do a marker for `a/x` and a request for `c/x`. -/
theorem checkSingleFile_sides :
    (Marks "*** Update File: a/x\n*** Update File: x".toList "a/x".toList ∧
      Marks "*** Update File: a/x\n*** Update File: x".toList "x".toList ∧
      resolved (spelled "a/x".toList) ≠ resolved (spelled "x".toList) ∧
      checkSingleFile "*** Update File: a/x\n*** Update File: x".toList (some "x".toList) = .ok ()) ∧
    (Marks "*** Update File: a/x".toList "a/x".toList ∧
      checkSingleFile "*** Update File: a/x".toList (some "c/x".toList) = .ok () ∧
      ¬ Path.parts (resolved (spelled "a/x".toList)) <:+ Path.parts (resolved (spelled "c/x".toList)) ∧
      ¬ Path.parts (resolved (spelled "c/x".toList)) <:+
        Path.parts (resolved (spelled "a/x".toList))) := by
  decide

end LoosePatch.Dialect
