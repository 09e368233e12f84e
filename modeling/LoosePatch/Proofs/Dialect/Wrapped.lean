import LoosePatch.Proofs.Dialect.Envelope
import LoosePatch.Proofs.Dialect.OneFile
import LoosePatch.Proofs.Text.Letters

/-!
Update diffs in an envelope that names their file, with lines of git about it. What is read from such
a diff is what is read from the lines inside with the blank lines behind the envelope after them
(`Dialect.normalize_wrapped`), and the file it names passes for the requested one
(`Dialect.checkSingleFile_wrapped`).
-/

namespace LoosePatch.Dialect

open Hunk (isMarked)
open Text (rdropWhile_append_of_all rdropWhile_append_of_exists rdropWhile_cons)

variable {l path : Text} {ls after : List Text}

/-! ## The path of the marker -/

/-- Nothing in the path is taken off it, or is spelled in another way, when it stands in a marker. -/
structure PlainPath (path : Text) : Prop where
  ne_nil : path ≠ []
  plain : ∀ c ∈ path, isBlank c = false ∧ c ≠ '"' ∧ c ≠ '\'' ∧ c ≠ '\\'

instance (path : Text) : Decidable (PlainPath path) :=
  decidable_of_iff (path ≠ [] ∧ path.all fun c => !isBlank c && c != '"' && c != '\'' && c != '\\')
    ⟨fun h => ⟨h.1, by simpa [and_assoc] using h.2⟩, fun h => ⟨h.1, by simpa [and_assoc] using h.2⟩⟩

theorem spelled_of_plain (h : ∀ c ∈ path, isBlank c = false ∧ c ≠ '"' ∧ c ≠ '\'' ∧ c ≠ '\\') :
    spelled path = path := by
  have hquote (c : Char) (hc : c ∈ path) : (c == '"' || c == '\'') = false := by
    simpa using ⟨(h c hc).2.1, (h c hc).2.2.1⟩
  rw [spelled, Text.trim_of_not_blank fun c hc => (h c hc).1,
    Text.trimBy_eq_self (fun c hc => hquote c (List.mem_of_head? hc))
      fun c hc => hquote c (List.mem_of_getLast? hc),
    Path.forward_of_not_mem fun hmem => (h _ hmem).2.2.2 rfl]

theorem withoutSide_subset (path : Text) : withoutSide path ⊆ path := by
  unfold withoutSide
  split
  · exact List.drop_subset 2 path
  · exact List.Subset.refl path

theorem mem_resolved {c : Char} (h : c ∈ resolved path) : c ∈ path ∨ c = '/' ∨ c = '.' := by
  unfold resolved at h
  split at h
  · exact .inl h
  · exact Path.mem_normalize h

/-- A side in front of a resolved path can be taken off: the rest is resolved. -/
theorem withoutSide_cases (path : Text) (h : resolved path = path) :
    withoutSide path = path ∨
      ∃ side rest, path = side :: '/' :: rest ∧ withoutSide path = rest ∧ resolved rest = rest := by
  unfold withoutSide
  split
  · rename_i hside
    right
    obtain ⟨side, hslash, rest, rfl⟩ : ∃ side, side ≠ '/' ∧ ∃ rest, path = side :: '/' :: rest := by
      rcases Bool.or_eq_true_iff.mp hside with ha | hb
      · obtain ⟨rest, rfl⟩ := List.isPrefixOf_iff_prefix.mp ha
        exact ⟨'a', by decide, rest, rfl⟩
      · obtain ⟨rest, rfl⟩ := List.isPrefixOf_iff_prefix.mp hb
        exact ⟨'b', by decide, rest, rfl⟩
    refine ⟨side, rest, rfl, rfl, ?_⟩
    have hside : '/' ∉ [side] := by simpa using hslash.symm
    obtain ⟨hne, hrest⟩ := Path.normalize_behind (List.cons_ne_nil side []) hside h
    rw [resolved, List.isEmpty_eq_false_iff.mpr hne, if_neg Bool.false_ne_true, hrest]
  · exact .inl rfl

/-- The path that a plain path is cleaned to passes for it, even if it begins with another side. -/
theorem sameFile_cleanPath (h : PlainPath path) : sameFile (cleanPath path) path = true := by
  have hclean : cleanPath path = resolved (withoutSide path) := by
    rw [cleanPath_eq, spelled_of_plain h.plain]
  have hspelled : spelled (cleanPath path) = cleanPath path := by
    refine spelled_of_plain fun c hc => ?_
    rw [hclean] at hc
    rcases mem_resolved hc with hc | rfl | rfl
    · exact h.plain c (withoutSide_subset path hc)
    · decide
    · decide
  have hresolved : resolved (cleanPath path) = cleanPath path := by rw [hclean, resolved_resolved]
  have hagain : cleanPath (cleanPath path) = resolved (withoutSide (cleanPath path)) := by
    rw [cleanPath_eq (cleanPath path), hspelled]
  rw [sameFile, hagain]
  rcases withoutSide_cases (cleanPath path) hresolved with hsame | ⟨side, rest, hsplit, hrest, hnormal⟩
  · simp [hsame, hresolved]
  · have hsuffix : ('/' :: rest).isSuffixOf (cleanPath path) = true := by
      rw [List.isSuffixOf_iff_suffix, hsplit]
      exact List.suffix_cons side _
    simp [hrest, hnormal, hsuffix]

/-! ## Lines that are dropped -/

def updateLine (path : Text) : Text := "*** Update File: ".toList ++ path

/-- How lines of git about modes, similarity and renames begin. -/
def toldOpenings : List Text := [
  "old mode".toList, "new mode".toList, "new file mode".toList, "deleted file mode".toList,
  "similarity index".toList, "dissimilarity index".toList, "rename from".toList, "rename to".toList]

/-- Lines of git about the file as a whole, such as `index 12ab..34cd 100644`. -/
inductive GitLine : Text → Prop
  | index {old : Text} {digit : Char} (hne : old ≠ []) (hold : ∀ c ∈ old, isHexDigit c = true)
      (hnew : isHexDigit digit = true) (rest : Text) :
      GitLine ("index ".toList ++ (old ++ '.' :: '.' :: digit :: rest))
  | told {opening : Text} (h : opening ∈ toldOpenings) (rest : Text) : GitLine (opening ++ ' ' :: rest)

theorem isIndexLine_append {old : Text} {digit : Char} (hne : old ≠ [])
    (hold : ∀ c ∈ old, isHexDigit c = true) (hnew : isHexDigit digit = true) (rest : Text) :
    isIndexLine ("index ".toList ++ (old ++ '.' :: '.' :: digit :: rest)) = true := by
  have hstart : Text.trimStart (old ++ '.' :: '.' :: digit :: rest) =
      old ++ '.' :: '.' :: digit :: rest := by
    obtain ⟨first, more, rfl⟩ := List.exists_cons_of_ne_nil hne
    exact List.dropWhile_cons_of_neg
      (Bool.eq_false_iff.mp (isBlank_of_isHexDigit (hold first List.mem_cons_self)))
  have hread : (Text.readLead? "index".toList
      ("index ".toList ++ (old ++ '.' :: '.' :: digit :: rest))).bind Text.readBlanks? =
        some (old ++ '.' :: '.' :: digit :: rest) := congrArg some hstart
  have hrun : (old ++ '.' :: '.' :: digit :: rest).takeWhile isHexDigit = old := by
    rw [List.takeWhile_append_of_pos hold, List.takeWhile_cons_of_neg (by decide), List.append_nil]
  have hdots : Text.readLead? ['.', '.'] ('.' :: '.' :: digit :: rest) = some (digit :: rest) := rfl
  have hsome : old.isEmpty = false := by rwa [List.isEmpty_eq_false_iff]
  rw [isIndexLine, hread, Option.any_some]
  simp [hrun, hdots, hnew, hsome]

theorem GitLine.isMetadata (h : GitLine l) : isMetadata l = true := by
  cases h with
  | index hne hold hnew rest =>
    rw [Dialect.isMetadata, isIndexLine_append hne hold hnew, Bool.true_or]
  | @told opening hopening rest =>
    have hknown : toldOpenings ⊆ metadataOpenings := by decide
    have hends : (Text.readLead? opening (opening ++ ' ' :: rest)).any Text.wordEnds = true := by
      rw [readLead?_append, Option.any_some, Text.wordEnds, List.head?_cons, Option.all_some]
      decide
    rw [Dialect.isMetadata, List.any_eq_true.mpr ⟨opening, hknown hopening, hends⟩, Bool.or_true]

theorem GitLine.unmarked (h : GitLine l) :
    Header.opens l = false ∧ isMarked l = false ∧ namedPath? l = none := by
  cases h with
  | index hne hold hnew rest => exact ⟨rfl, rfl, rfl⟩
  | told h rest =>
    simp only [toldOpenings, List.mem_cons, List.not_mem_nil, or_false] at h
    rcases h with rfl | rfl | rfl | rfl | rfl | rfl | rfl | rfl <;> exact ⟨rfl, rfl, rfl⟩

/-! ## Wrappers -/

/-- The two lines that name the files of a comparison. -/
def fileLines : Option (Text × Text) → List Text
  | none => []
  | some (old, new) => ["--- ".toList ++ old, "+++ ".toList ++ new]

/-- What stands around the lines of an update: blank lines on both sides of the envelope, lines of git
and file lines in it. -/
structure Wrapper where
  before : List Text := []
  gitLines : List Text := []
  files : Option (Text × Text) := none
  after : List Text := []
  blank : ∀ l ∈ before ++ after, l.isBlankText = true
  told : ∀ l ∈ gitLines, GitLine l
  plain : ∀ l ∈ before ++ gitLines ++ fileLines files ++ after, '\n' ∉ l ∧ '\r' ∉ l ∧ '\x00' ∉ l

namespace Wrapper

/-- The lines between the beginning of the envelope and those of the update. -/
def lead (w : Wrapper) (path : Text) : List Text := updateLine path :: (w.gitLines ++ fileLines w.files)

/-- An update for the file at this path in its envelope. -/
def wrap (w : Wrapper) (path : Text) (ls : List Text) : List Text :=
  enveloped w.before (w.lead path ++ ls) w.after

theorem append_subset_wrap (w : Wrapper) (path : Text) (ls : List Text) :
    ls ++ w.after ⊆ w.wrap path ls := by
  intro l hl
  rcases List.mem_append.mp hl with hl | hl
  · exact List.mem_append_right _
      (List.mem_cons_of_mem _ (List.mem_append_left _ (List.mem_append_right _ hl)))
  · exact List.mem_append_right _
      (List.mem_cons_of_mem _ (List.mem_append_right _ (List.mem_cons_of_mem _ hl)))

/-- Line breaks and NULs in a wrapped update are those of its lines. -/
theorem mem_of_mem_wrap {w : Wrapper} {c : Char} (hc : c ∈ ['\n', '\r', '\x00']) (hpath : c ∉ path)
    (hl : l ∈ w.wrap path ls) (hcl : c ∈ l) : l ∈ ls := by
  have haround : c ∉ beginLine ∧ c ∉ endLine ∧ c ∉ "*** Update File: ".toList ∧
      ∀ l ∈ w.before ++ w.gitLines ++ fileLines w.files ++ w.after, c ∉ l := by
    simp only [List.mem_cons, List.not_mem_nil, or_false] at hc
    rcases hc with rfl | rfl | rfl
    · exact ⟨by decide, by decide, by decide, fun l hl => (w.plain l hl).1⟩
    · exact ⟨by decide, by decide, by decide, fun l hl => (w.plain l hl).2.1⟩
    · exact ⟨by decide, by decide, by decide, fun l hl => (w.plain l hl).2.2⟩
  obtain ⟨hbegin, hend, hopening, hplain⟩ := haround
  have hupdate : c ∉ updateLine path := fun hmem => (List.mem_append.mp hmem).elim hopening hpath
  rcases mem_enveloped hl with h | rfl | h | rfl | h
  · exact absurd hcl (hplain l (by simp [h]))
  · exact absurd hcl hbegin
  · rcases List.mem_append.mp h with h | h
    · rcases List.mem_cons.mp h with rfl | h
      · exact absurd hcl hupdate
      · exact absurd hcl (hplain l (by rcases List.mem_append.mp h with h | h <;> simp [h]))
    · exact h
  · exact absurd hcl hend
  · exact absurd hcl (hplain l (by simp [h]))

theorem wrap_ne_nil (w : Wrapper) (path : Text) (ls : List Text) : w.wrap path ls ≠ [] := by
  simp [wrap, enveloped]

theorem unbroken_append (w : Wrapper) (hls : ∀ l ∈ ls, '\n' ∉ l ∧ '\r' ∉ l) :
    ∀ l ∈ ls ++ w.after, '\n' ∉ l ∧ '\r' ∉ l := by
  intro l hl
  rcases List.mem_append.mp hl with hl | hl
  · exact hls l hl
  · have hplain := w.plain l (List.mem_append_right _ hl)
    exact ⟨hplain.1, hplain.2.1⟩

theorem unbroken_wrap (w : Wrapper) (hpath : PlainPath path) (hls : ∀ l ∈ ls, '\n' ∉ l ∧ '\r' ∉ l) :
    ∀ l ∈ w.wrap path ls, '\n' ∉ l ∧ '\r' ∉ l := by
  have hblank {c : Char} (hc : isBlank c = true) : c ∉ path := by
    intro hmem
    rw [(hpath.plain c hmem).1] at hc
    cases hc
  intro l hl
  refine ⟨fun hc => ?_, fun hc => ?_⟩
  · exact (hls l (mem_of_mem_wrap (by simp) (hblank (by decide)) hl hc)).1 hc
  · exact (hls l (mem_of_mem_wrap (by simp) (hblank (by decide)) hl hc)).2 hc

end Wrapper

/-! ## Trimming -/

/-- A blank line behind an envelope is taken off if it begins with no space. -/
theorem closesEnvelope_of_isBlankText (h : l.isBlankText = true) (hspace : l.head? ≠ some ' ') :
    closesEnvelope l = true := by
  simp [closesEnvelope, h, hspace]

/-! ## Dropping -/

theorem dropMarkers_cons_of_isEnvelope (hopens : Header.opens l = false) (h : isEnvelope l = true)
    (inHunk : Bool) (ls : List Text) : dropMarkers inHunk (l :: ls) = dropMarkers inHunk ls := by
  rw [dropMarkers.eq_def]
  simp [hopens, h]

theorem GitLine.isEnvelope (h : GitLine l) : isEnvelope l = true := by
  simp [Dialect.isEnvelope, h.unmarked.2.1, h.isMetadata]

theorem dropMarkers_gitLines (h : ∀ l ∈ ls, GitLine l) (rest : List Text) :
    dropMarkers false (ls ++ rest) = dropMarkers false rest := by
  induction ls with
  | nil => rfl
  | cons l ls ih =>
    obtain ⟨hl, hls⟩ := List.forall_mem_cons.mp h
    rw [List.cons_append, dropMarkers_cons_of_isEnvelope hl.unmarked.1 hl.isEnvelope, ih hls]

theorem dropMarkers_fileLines (files : Option (Text × Text)) (rest : List Text) :
    dropMarkers false (fileLines files ++ rest) = dropMarkers false rest := by
  cases files with
  | none => rfl
  | some names => rfl

theorem fileMarker?_updateLine (path : Text) : fileMarker? (updateLine path) = some path.trim := by
  rw [← Text.trim_blank_cons (c := ' ') (by decide) path]
  rfl

theorem isEnvelope_updateLine (path : Text) : isEnvelope (updateLine path) = true := by
  have hmarked : isMarked (updateLine path) = false := rfl
  simp [isEnvelope, hmarked, fileMarker?_updateLine]

theorem dropMarkers_lead (w : Wrapper) (path : Text) (rest : List Text) :
    dropMarkers false (w.lead path ++ rest) = dropMarkers false rest := by
  rw [Wrapper.lead, List.cons_append, dropMarkers_cons_of_isEnvelope rfl (isEnvelope_updateLine path),
    List.append_assoc, dropMarkers_gitLines w.told, dropMarkers_fileLines]

/-! ## The lines inside -/

theorem trim_updateLine (h : PlainPath path) : Text.trim (updateLine path) = updateLine path := by
  refine Text.trimBy_eq_self (fun c hc => ?_) fun c hc => ?_
  · obtain rfl : '*' = c := Option.some.inj hc
    decide
  · have hlast : (updateLine path).getLast? = path.getLast? :=
      List.getLast?_append_of_ne_nil "*** Update File: ".toList h.ne_nil
    exact (h.plain c (List.mem_of_getLast? (hlast.symm.trans hc))).1

theorem opensEnvelope_updateLine (h : PlainPath path) : opensEnvelope (updateLine path) = false := by
  rw [opensEnvelope, trim_updateLine h]
  rfl

theorem dropWhile_wrap (w : Wrapper) (hpath : PlainPath path) (ls : List Text) :
    (w.wrap path ls).dropWhile opensEnvelope = w.lead path ++ (ls ++ endLine :: w.after) := by
  have hbefore : ∀ l ∈ w.before, opensEnvelope l = true := by
    intro l hl
    rw [opensEnvelope, w.blank l (List.mem_append_left _ hl)]
    rfl
  have hbegin : opensEnvelope beginLine = true := by decide
  rw [Wrapper.wrap, enveloped, List.dropWhile_append_of_pos hbefore, List.dropWhile_cons_of_pos hbegin,
    Wrapper.lead, List.cons_append, List.cons_append,
    List.dropWhile_cons_of_neg (Bool.eq_false_iff.mp (opensEnvelope_updateLine hpath))]
  simp

theorem not_edge_of_opens (h : Header.opens l = true) :
    opensEnvelope l = false ∧ closesEnvelope l = false := by
  obtain ⟨s, rfl⟩ := List.isPrefixOf_iff_prefix.mp h
  exact ⟨opensEnvelope_cons (by decide) (by decide) _, closesEnvelope_cons (.inr (by decide)) _⟩

/-- An update that is wrapped has the lines that it has with the blank lines of its wrapper alone. -/
theorem dropMarkers_wrap (w : Wrapper) (hpath : PlainPath path) (hopens : Header.opens l = true)
    (ls : List Text) : dropMarkers false (trimEnvelope (w.wrap path (l :: ls))) =
      dropMarkers false (trimEnvelope (l :: ls ++ w.after)) := by
  obtain ⟨hfront, hcloses⟩ := not_edge_of_opens hopens
  have htrim : trimEnvelope (w.wrap path (l :: ls)) =
      w.lead path ++ l :: (ls ++ endLine :: w.after).rdropWhile closesEnvelope := by
    rw [trimEnvelope, dropWhile_wrap w hpath]
    show List.rdropWhile closesEnvelope _ = _
    rw [rdropWhile_append_of_exists ⟨l, by simp, hcloses⟩, List.cons_append, rdropWhile_cons hcloses]
  have htrim' : trimEnvelope (l :: ls ++ w.after) = l :: (ls ++ w.after).rdropWhile closesEnvelope := by
    rw [List.cons_append, trimEnvelope_cons hfront, rdropWhile_cons hcloses]
  have hfirst (rest : List Text) : dropMarkers false (l :: rest) = l :: dropMarkers true rest := by
    rw [dropMarkers.eq_def]
    simp [hopens]
  have hend : (Header.opens endLine || !isEnvelope endLine) = false := by decide
  rw [htrim, htrim', dropMarkers_lead, hfirst, hfirst, dropMarkers_true, dropMarkers_true]
  by_cases hall : ∀ l ∈ w.after, closesEnvelope l = true
  · have hall' : ∀ l ∈ endLine :: w.after, closesEnvelope l = true :=
      List.forall_mem_cons.mpr ⟨by decide, hall⟩
    rw [rdropWhile_append_of_all hall, rdropWhile_append_of_all hall']
  · -- the end of the envelope stays, and is dropped as a marker
    have hsome : ∃ l ∈ w.after, closesEnvelope l = false := by simpa using hall
    rw [List.append_cons, rdropWhile_append_of_exists hsome, rdropWhile_append_of_exists hsome]
    simp [hend]

theorem trimEnvelope_append_of_closes (hopens : Header.opens l = true)
    (hafter : ∀ l ∈ after, closesEnvelope l = true) (ls : List Text) :
    trimEnvelope (l :: ls ++ after) = trimEnvelope (l :: ls) := by
  have hfront := (not_edge_of_opens hopens).1
  rw [List.cons_append, trimEnvelope_cons hfront, trimEnvelope_cons hfront, ← List.cons_append,
    rdropWhile_append_of_all hafter]

/-! ## The file that is named -/

theorem namedPath?_of_isBlankText (h : l.isBlankText = true) : namedPath? l = none := by
  have hgit : gitHeader? l = none := by
    cases l with
    | nil => rfl
    | cons c l =>
      have hc : c ≠ 'd' := by
        rintro rfl
        cases h
      simp [gitHeader?, Text.readLead?, List.isPrefixOf?, hc.symm]
  rw [namedPath?, not_fileMarker_of_isBlankText h, hgit, Option.map_none, ite_self]

theorem namedPath?_eq_none (h : isMarked l = false → fileMarker? l = none ∧ gitHeader? l = none) :
    namedPath? l = none := by
  unfold namedPath?
  cases hmarked : isMarked l with
  | true => rfl
  | false => simp [h hmarked]

theorem namedPath?_append (hls : ∀ l ∈ ls, namedPath? l = none)
    (hafter : ∀ l ∈ after, l.isBlankText = true) : ∀ l ∈ ls ++ after, namedPath? l = none := by
  intro l hl
  rcases List.mem_append.mp hl with hl | hl
  · exact hls l hl
  · exact namedPath?_of_isBlankText (hafter l hl)

theorem namedPath?_fileLines {files : Option (Text × Text)} (h : l ∈ fileLines files) :
    namedPath? l = none := by
  cases files with
  | none => cases h
  | some names =>
    simp only [fileLines, List.mem_cons, List.not_mem_nil, or_false] at h
    rcases h with rfl | rfl <;> rfl

theorem namedPath?_updateLine (h : PlainPath path) :
    namedPath? (updateLine path) = some (cleanPath path) := by
  have hmarked : isMarked (updateLine path) = false := rfl
  have htrim : path.trim = path := Text.trim_of_not_blank fun c hc => (h.plain c hc).1
  have hempty : path.isEmpty = false := List.isEmpty_eq_false_iff.mpr h.ne_nil
  simp only [namedPath?, hmarked, fileMarker?_updateLine, htrim, hempty, Bool.false_eq_true, if_false]

/-- The only file that a wrapped update names is its own. -/
theorem filterMap_wrap (w : Wrapper) (hpath : PlainPath path) (hls : ∀ l ∈ ls, namedPath? l = none) :
    (w.wrap path ls).filterMap namedPath? = [cleanPath path] := by
  have hbefore : w.before.filterMap namedPath? = [] := List.filterMap_eq_nil_iff.mpr fun l hl =>
    namedPath?_of_isBlankText (w.blank l (List.mem_append_left _ hl))
  have hafter : w.after.filterMap namedPath? = [] := List.filterMap_eq_nil_iff.mpr fun l hl =>
    namedPath?_of_isBlankText (w.blank l (List.mem_append_right _ hl))
  have hgit : w.gitLines.filterMap namedPath? = [] := List.filterMap_eq_nil_iff.mpr fun l hl =>
    (w.told l hl).unmarked.2.2
  have hfiles : (fileLines w.files).filterMap namedPath? = [] :=
    List.filterMap_eq_nil_iff.mpr fun l hl => namedPath?_fileLines hl
  have hbegin : namedPath? beginLine = none := by decide
  have hend : namedPath? endLine = none := by decide
  simp only [Wrapper.wrap, enveloped, Wrapper.lead, List.filterMap_append, List.filterMap_cons,
    List.cons_append, hbefore, hbegin, namedPath?_updateLine hpath, hgit, hfiles,
    List.filterMap_eq_nil_iff.mpr hls, hend, hafter, List.append_nil, List.nil_append]

theorem checkSingleFile_wrap (w : Wrapper) (hpath : PlainPath path)
    (hls : ∀ l ∈ ls, namedPath? l = none) {s : Text} (hs : s.anyLines = w.wrap path ls) :
    checkSingleFile s (some path) = .ok () := by
  have hpaths : markerPaths s = [cleanPath path] := by
    rw [markerPaths, hs, filterMap_wrap w hpath hls]
    rfl
  simp only [checkSingleFile, hpaths, sameFile_cleanPath hpath, Bool.or_true, if_true]

/-! ## Texts that are read alike -/

/-- A text that is these lines, joined by a break of one's choice. -/
structure Joined (ls : List Text) (s : Text) : Prop where
  lines : s.anyLines = ls
  mem : ∀ c ∉ ['\n', '\r'], c ∈ s ↔ ∃ l ∈ ls, c ∈ l

theorem joined_intercalate {ending : Text} (hending : ending ∈ Text.breaks) (hne : ls ≠ [])
    (hplain : ∀ l ∈ ls, '\n' ∉ l ∧ '\r' ∉ l) : Joined ls (ending.intercalate ls) where
  lines := Text.anyLines_intercalate hending (fun l hl => (hplain l hl).1)
    (fun l hl => (hplain l hl).2) hne
  mem c hc := by
    have hsep : ∀ sep ∈ Text.breaks, sep ⊆ ['\n', '\r'] := by decide
    constructor
    · intro h
      exact (Text.mem_of_mem_intercalate h).resolve_left fun hmem => hc (hsep ending hending hmem)
    · rintro ⟨l, hl, hcl⟩
      exact Text.mem_intercalate_of_mem hl hcl

theorem joined_lines {diff : Text} (h : '\r' ∉ diff) : Joined diff.lines diff := by
  have hjoined := joined_intercalate (List.mem_cons_self : ['\n'] ∈ Text.breaks)
    (List.splitOn_ne_nil '\n' diff)
    fun l hl => ⟨Text.not_mem_of_mem_lines hl, fun hmem => h (Text.mem_of_mem_lines hl hmem)⟩
  have hsame : ['\n'].intercalate (diff.splitOn '\n') = diff := Text.unlines_lines diff
  rwa [hsame] at hjoined

theorem Joined.isBlankText {s : Text} (h : Joined ls s) : s.isBlankText = ls.all Text.isBlankText := by
  have hbreak : ∀ c ∈ ['\n', '\r'], isBlank c = true :=
    List.forall_mem_cons.mpr ⟨by decide, List.forall_mem_singleton.mpr (by decide)⟩
  rw [Bool.eq_iff_iff, Text.isBlankText, List.all_eq_true, List.all_eq_true]
  constructor
  · refine fun hs l hl => List.all_eq_true.mpr fun c hc => ?_
    by_cases hmem : c ∈ ['\n', '\r']
    · exact hbreak c hmem
    · exact hs c ((h.mem c hmem).mpr ⟨l, hl, hc⟩)
  · intro hls c hc
    by_cases hmem : c ∈ ['\n', '\r']
    · exact hbreak c hmem
    · obtain ⟨l, hl, hcl⟩ := (h.mem c hmem).mp hc
      exact List.all_eq_true.mp (hls l hl) c hcl

/-- Nothing that is read from a diff for this file tells the two texts apart. -/
structure ReadAlike (path s t : Text) : Prop where
  blank : s.isBlankText = t.isBlankText
  nul : '\x00' ∈ s ↔ '\x00' ∈ t
  check : checkSingleFile s (some path) = checkSingleFile t (some path)
  normal : normalize s = normalize t

variable {s t : Text}

theorem ReadAlike.trans {u : Text} (h : ReadAlike path s t) (h' : ReadAlike path t u) :
    ReadAlike path s u :=
  ⟨h.blank.trans h'.blank, h.nul.trans h'.nul, h.check.trans h'.check, h.normal.trans h'.normal⟩

theorem readAlike_of_joined (hs : Joined ls s) (ht : Joined ls t) (path : Text) : ReadAlike path s t where
  blank := hs.isBlankText.trans ht.isBlankText.symm
  nul := (hs.mem _ (by decide)).trans (ht.mem _ (by decide)).symm
  check := by
    have hpaths : markerPaths s = markerPaths t := by rw [markerPaths, markerPaths, hs.lines, ht.lines]
    unfold checkSingleFile
    rw [hpaths]
  normal := by rw [normalize, normalize, hs.lines, ht.lines]

section Update

variable (hopens : Header.opens l = true) (hunnamed : ∀ l' ∈ l :: ls, namedPath? l' = none)

include hopens

theorem all_isBlankText_eq_false {body : List Text} (h : l ∈ body) :
    body.all Text.isBlankText = false := by
  obtain ⟨s, rfl⟩ := List.isPrefixOf_iff_prefix.mp hopens
  exact List.all_eq_false.mpr ⟨_, h, Bool.false_ne_true⟩

include hunnamed

/-- An update in its wrapper is read as it is with the blank lines behind the envelope after it. -/
theorem readAlike_wrap (w : Wrapper) (hpath : PlainPath path) (hnul : '\x00' ∉ path)
    (hs : Joined (w.wrap path (l :: ls)) s) (ht : Joined (l :: ls ++ w.after) t) : ReadAlike path s t where
  blank := by
    have hmem : l ∈ w.wrap path (l :: ls) := w.append_subset_wrap path _ (by simp)
    rw [hs.isBlankText, ht.isBlankText, all_isBlankText_eq_false hopens hmem,
      all_isBlankText_eq_false hopens (by simp)]
  nul := by
    rw [hs.mem _ (by decide), ht.mem _ (by decide)]
    constructor
    · rintro ⟨l', hl', hc⟩
      exact ⟨l', List.mem_append_left _ (w.mem_of_mem_wrap (by decide) hnul hl' hc), hc⟩
    · rintro ⟨l', hl', hc⟩
      exact ⟨l', w.append_subset_wrap path (l :: ls) hl', hc⟩
  check := by
    have hafter (l' : Text) (hl' : l' ∈ w.after) := w.blank l' (List.mem_append_right _ hl')
    rw [checkSingleFile_wrap w hpath hunnamed hs.lines,
      checkSingleFile_of_unnamed (ht.lines ▸ namedPath?_append hunnamed hafter)]
  normal := by
    rw [normalize, normalize, hs.lines, ht.lines, dropMarkers_wrap w hpath hopens]

/-- Blank lines behind an update that begin with no space are not read. -/
theorem readAlike_append (hblank : ∀ l ∈ after, l.isBlankText = true)
    (hspace : ∀ l ∈ after, l.head? ≠ some ' ') (hs : Joined (l :: ls ++ after) s)
    (ht : Joined (l :: ls) t) (path : Text) : ReadAlike path s t where
  blank := by
    rw [hs.isBlankText, ht.isBlankText, all_isBlankText_eq_false hopens (by simp),
      all_isBlankText_eq_false hopens (by simp)]
  nul := by
    rw [hs.mem _ (by decide), ht.mem _ (by decide)]
    refine ⟨fun ⟨l', hl', hc⟩ => ⟨l', ?_, hc⟩,
      fun ⟨l', hl', hc⟩ => ⟨l', List.mem_append_left _ hl', hc⟩⟩
    refine (List.mem_append.mp hl').resolve_right fun hl' => ?_
    have hall := List.all_eq_true.mp (hblank l' hl') _ hc
    exact absurd hall (by decide)
  check := by
    rw [checkSingleFile_of_unnamed (hs.lines ▸ namedPath?_append hunnamed hblank),
      checkSingleFile_of_unnamed (ht.lines ▸ hunnamed)]
  normal := by
    rw [normalize, normalize, hs.lines, ht.lines, trimEnvelope_append_of_closes hopens fun l hl =>
      closesEnvelope_of_isBlankText (hblank l hl) (hspace l hl)]

end Update

end LoosePatch.Dialect
