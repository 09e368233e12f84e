import LoosePatch.Engine
import LoosePatch.Proofs.Splice.Accepted
import LoosePatch.Proofs.Splice.Counting
import LoosePatch.Proofs.Splice.Stacking

/-!
What all hunks together do to a file. `Merges` says that the result is a merge of the file lines that
no hunk removes and of all added lines: nothing is lost, nothing is there twice, and the order is
right. Every result is one.
-/

namespace LoosePatch

variable {α : Type}

/-- The lines of a result with their origins: those lines of the file that no edit removes, byte for
byte, and all added lines, changed at most in the spaces and tabs in front; each once and in the
right order. Every removed line of a hunk is matched, and no two of them share a line. -/
structure Merges (lines : List Text) (hunks : List Hunk) (placements : List (Placement α))
    (new : List Text) (origins : List Origin) : Prop where
  placed : placements.length = hunks.length
  removes : ∀ (h i : Nat) (e : Edit), editAt? hunks h i = some e → e.isRemove = true →
    ∃ line, RemovesLine hunks placements h i line
  removes_once : ∀ h i h' i' line, RemovesLine hunks placements h i line →
    RemovesLine hunks placements h' i' line → h = h' ∧ i = i'
  spells : List.Forall₂ (Origin.Spells lines hunks) origins new
  nodup : origins.Nodup
  ordered : origins.Pairwise (Origin.Precedes (lineAt? placements))
  mem_file : ∀ line, .file line ∈ origins ↔
    line < lines.length ∧ ¬ ∃ h i, RemovesLine hunks placements h i line
  mem_added : ∀ h i, .added h i ∈ origins ↔ ∃ e, editAt? hunks h i = some e ∧ e.isAdd = true
  length_eq : new.length + Hunk.total Hunk.removed hunks =
    lines.length + Hunk.total Hunk.added hunks

namespace Accepted

variable {lines : List Text} {hunks : List Hunk} {located : List (Located α)}
  {floors : Located.Floors}

theorem removesLine_iff (h : Accepted lines hunks located floors) {k i line : Nat} :
    RemovesLine hunks (located.map Located.placement) k i line ↔
      ∃ x ∈ located, x.number - 1 = k ∧ (i, line) ∈ x.placement.positions ∧
        ∃ e, x.hunk.edits[i]? = some e ∧ e.isRemove = true := by
  constructor
  · rintro ⟨e, he, hremove, hline⟩
    obtain ⟨x, hx, rfl, hedit⟩ := h.editAt?_eq_some.mp he
    rw [h.lineAt?_eq hx] at hline
    exact ⟨x, hx, rfl, (h.fits x hx).lineOf?_eq_some.mp hline, e, hedit, hremove⟩
  · rintro ⟨x, hx, rfl, hline, e, he, hremove⟩
    refine ⟨e, h.editAt?_eq_some.mpr ⟨x, hx, rfl, he⟩, hremove, ?_⟩
    rw [h.lineAt?_eq hx]
    exact (h.fits x hx).lineOf?_eq_some.mpr hline

theorem removes (h : Accepted lines hunks located floors) {k i : Nat} {e : Edit}
    (he : editAt? hunks k i = some e) (hremove : e.isRemove = true) :
    ∃ line, RemovesLine hunks (located.map Located.placement) k i line := by
  obtain ⟨x, hx, rfl, hedit⟩ := h.editAt?_eq_some.mp he
  obtain ⟨line, hline⟩ := (h.fits x hx).removes i e hedit hremove
  exact ⟨line, h.removesLine_iff.mpr ⟨x, hx, rfl, hline, e, hedit, hremove⟩⟩

theorem removes_once (h : Accepted lines hunks located floors) {k i k' i' line : Nat}
    (hremoves : RemovesLine hunks (located.map Located.placement) k i line)
    (hremoves' : RemovesLine hunks (located.map Located.placement) k' i' line) :
    k = k' ∧ i = i' := by
  obtain ⟨x, hx, rfl, hline, e, he, hremove⟩ := h.removesLine_iff.mp hremoves
  obtain ⟨y, hy, rfl, hline', e', he', hremove'⟩ := h.removesLine_iff.mp hremoves'
  obtain rfl := h.eq_of_line hx hy (h.mem_splice_of_isRemove hx he hremove hline)
    (h.mem_splice_of_isRemove hy he' hremove' hline')
  have hlt := (h.fits x hx).lt_iff_lt hline hline'
  have hgt := (h.fits x hx).lt_iff_lt hline' hline
  exact ⟨rfl, by omega⟩

/-- Inside the splice of a hunk, this hunk alone removes lines. -/
theorem removed_iff (h : Accepted lines hunks located floors) {x : Located α} (hx : x ∈ located)
    {line : Nat} (hline : Located.beginning floors x ≤ line ∧ line < x.stop) :
    (∃ k i, RemovesLine hunks (located.map Located.placement) k i line) ↔
      ∃ i e, x.hunk.edits[i]? = some e ∧ e.isRemove = true ∧
        lineAt? (located.map Located.placement) (x.number - 1) i = some line := by
  constructor
  · rintro ⟨k, i, hremoves⟩
    obtain ⟨y, hy, rfl, hmem, e, he, hremove⟩ := h.removesLine_iff.mp hremoves
    obtain rfl := h.eq_of_line hx hy hline (h.mem_splice_of_isRemove hy he hremove hmem)
    obtain ⟨e', -, -, hat⟩ := hremoves
    exact ⟨i, e, he, hremove, hat⟩
  · rintro ⟨i, e, he, hremove, hat⟩
    exact ⟨x.number - 1, i, e, h.editAt?_eq_some.mpr ⟨x, hx, rfl, he⟩, hremove, hat⟩

end Accepted

/-- The regions behind all splices, from the top of the file down, and the lines that they spell
together. -/
structure Overlay (lines : List Text) (hunks : List Hunk) (located : List (Located α))
    (floors : Located.Floors) (rs : List (Region Origin)) (new : List Text) : Prop where
  stacked : Stacked lines.length 0 rs
  spells : List.Forall₂ (Origin.Spells lines hunks)
    (assemble (Splice.fileOrigins lines.length) 0 rs) new
  traced : ∀ r ∈ rs, ∃ x ∈ located, Splice.OfRegion (lineAt? (located.map Located.placement))
    (x.number - 1) x.hunk x.placement (Located.beginning floors x) r
  complete : ∀ x ∈ located, ∃ r ∈ rs, Splice.OfRegion (lineAt? (located.map Located.placement))
    (x.number - 1) x.hunk x.placement (Located.beginning floors x) r
  distinct : rs.Pairwise fun r r' =>
    ∀ k j k' j', .added k j ∈ r.body → .added k' j' ∈ r'.body → k ≠ k'

section Overlay

variable {lines new : List Text} {hunks : List Hunk} {located : List (Located α)}
  {floors : Located.Floors} {splices : List NumberedSplice} {rs : List (Region Origin)}

theorem Accepted.exists_overlay (h : Accepted lines hunks located floors)
    (hsplices : List.Forall₂ (Renders lines floors) located splices) :
    ∃ rs, Overlay lines hunks located floors rs (spliceAll lines splices) := by
  obtain ⟨htraced, hin, hapart, hnumbers⟩ := h.splices_apart hsplices
  obtain ⟨sorted, hperm, -, hstacked, hresult⟩ := spliceAll_eq_assemble hin hapart
  have hregions : ∀ z ∈ sorted, ∃ r x, Traced lines hunks located floors z x r := by
    intro z hz
    obtain ⟨x, r, ht⟩ := htraced z (hperm.mem_iff.mp hz)
    exact ⟨r, x, ht⟩
  obtain ⟨rs, hrs⟩ := exists_forall₂ hregions
  -- Sorting moves the splices but leaves their numbers apart.
  have hdistinct : sorted.Pairwise fun z z' => z.1 ≠ z'.1 := by
    refine List.pairwise_map.mp ((hperm.map Prod.fst).nodup_iff.mpr ?_)
    rw [hnumbers, h.numbers]
    exact List.nodup_range'
  refine ⟨rs, ?_, ?_, fun r hr => ?_, fun x hx => ?_, ?_⟩
  · refine hstacked.congr (List.forall₂_map_left_iff.mpr (hrs.imp fun z r hz => ?_))
    obtain ⟨x, ht⟩ := hz
    exact ⟨ht.start_eq.symm, ht.stop_eq.symm⟩
  · rw [hresult]
    refine assemble_forall₂ (Splice.fileOrigins_spell lines hunks) ?_
    refine List.forall₂_map_right_iff.mpr (hrs.flip.imp fun r z hz => ?_)
    obtain ⟨x, ht⟩ := hz
    exact ⟨ht.start_eq, ht.stop_eq, ht.spells⟩
  · obtain ⟨z, -, x, ht⟩ := exists_mem_of_forall₂ hrs hr
    exact ⟨x, ht.mem, ht.region⟩
  · obtain ⟨z, hz, hrender⟩ := exists_mem_of_forall₂ hsplices.flip hx
    obtain ⟨r, hr, x', ht⟩ := exists_mem_of_forall₂ hrs.flip (hperm.mem_iff.mpr hz)
    obtain rfl := h.eq_of_number hx ht.mem (hrender.1.symm.trans ht.number)
    exact ⟨r, hr, ht.region⟩
  · refine pairwise_of_forall₂ hrs hdistinct ?_
    rintro z z' r r' ⟨x, ht⟩ ⟨x', ht'⟩ hne k j k' j' hj hj' hk
    obtain ⟨rfl, -⟩ := (ht.region.mem_added k j).mp hj
    obtain ⟨rfl, -⟩ := (ht'.region.mem_added k' j').mp hj'
    have hx := h.getElem?_of_mem ht.mem
    rw [hk, h.getElem?_of_mem ht'.mem] at hx
    cases Option.some.inj hx
    exact hne (ht.number.trans ht'.number.symm)

namespace Overlay

/-- A region has the lines of its range that no hunk removes. -/
theorem mem_body (ho : Overlay lines hunks located floors rs new)
    (h : Accepted lines hunks located floors) {r : Region Origin} (hr : r ∈ rs) (line : Nat) :
    .file line ∈ r.body ↔ r.start ≤ line ∧ line < r.stop ∧
      ¬ ∃ k i, RemovesLine hunks (located.map Located.placement) k i line := by
  obtain ⟨x, hx, hregion⟩ := ho.traced r hr
  rw [hregion.mem_file, hregion.start_eq, hregion.stop_eq]
  exact and_congr_right fun hle => and_congr_right fun hlt =>
    not_congr (h.removed_iff hx ⟨hle, hlt⟩).symm

theorem mem_file (ho : Overlay lines hunks located floors rs new)
    (h : Accepted lines hunks located floors) (line : Nat) :
    .file line ∈ assemble (Splice.fileOrigins lines.length) 0 rs ↔ line < lines.length ∧
      ¬ ∃ k i, RemovesLine hunks (located.map Located.placement) k i line := by
  rw [mem_file_assemble ho.stacked (fun r hr => ho.mem_body h hr) (fun line hremoved _ => ?_)]
  · exact and_iff_right (Nat.zero_le line)
  · obtain ⟨k, i, hremoves⟩ := hremoved
    obtain ⟨x, hx, -, hline, e, he, hremove⟩ := h.removesLine_iff.mp hremoves
    obtain ⟨r, hr, hregion⟩ := ho.complete x hx
    refine ⟨r, hr, ?_⟩
    rw [hregion.start_eq, hregion.stop_eq]
    exact h.mem_splice_of_isRemove hx he hremove hline

theorem mem_added (ho : Overlay lines hunks located floors rs new)
    (h : Accepted lines hunks located floors) (k i : Nat) :
    .added k i ∈ assemble (Splice.fileOrigins lines.length) 0 rs ↔
      ∃ e, editAt? hunks k i = some e ∧ e.isAdd = true := by
  rw [mem_added_assemble ho.stacked]
  constructor
  · rintro ⟨r, hr, hmem⟩
    obtain ⟨x, hx, hregion⟩ := ho.traced r hr
    obtain ⟨rfl, e, he, hadd⟩ := (hregion.mem_added k i).mp hmem
    exact ⟨e, h.editAt?_eq_some.mpr ⟨x, hx, rfl, he⟩, hadd⟩
  · rintro ⟨e, he, hadd⟩
    obtain ⟨x, hx, rfl, hedit⟩ := h.editAt?_eq_some.mp he
    obtain ⟨r, hr, hregion⟩ := ho.complete x hx
    exact ⟨r, hr, (hregion.mem_added _ i).mpr ⟨rfl, e, hedit, hadd⟩⟩

/-- Within regions lines are in order; an added line stands below everything above its region, and
above everything below. -/
theorem ordered (ho : Overlay lines hunks located floors rs new)
    (h : Accepted lines hunks located floors) :
    (assemble (Splice.fileOrigins lines.length) 0 rs).Pairwise
      (Origin.Precedes (lineAt? (located.map Located.placement))) := by
  refine assemble_ordered ho.stacked (fun a b hlt => hlt) (fun r hr => ?_) (fun r hr line hline => ?_)
    (fun r hr k j hj line hline => ?_) (fun r hr k j hj line hline => ?_) ?_
  · obtain ⟨x, hx, hregion⟩ := ho.traced r hr
    exact hregion.ordered
  · obtain ⟨hle, hlt, -⟩ := (ho.mem_body h hr line).mp hline
    exact ⟨hle, hlt⟩
  · obtain ⟨x, hx, hregion⟩ := ho.traced r hr
    obtain ⟨rfl, e, he, hadd⟩ := (hregion.mem_added k j).mp hj
    intro i hi
    rw [h.lineAt?_eq hx] at hi
    rw [hregion.start_eq] at hline
    exact (h.begins x hx).adds (i, line) ((h.fits x hx).lineOf?_eq_some.mp hi) hline j e he hadd
  · obtain ⟨x, hx, hregion⟩ := ho.traced r hr
    obtain ⟨rfl, -⟩ := (hregion.mem_added k j).mp hj
    intro i hi
    rw [h.lineAt?_eq hx] at hi
    have hlt : line < x.placement.stop :=
      Placement.lt_stop ((h.fits x hx).lineOf?_eq_some.mp hi)
    rw [hregion.stop_eq] at hline
    omega
  · exact ho.distinct.imp fun hne k j k' j' hj hj' hk => absurd hk (hne k j k' j' hj hj')

theorem merges (ho : Overlay lines hunks located floors rs new)
    (h : Accepted lines hunks located floors) :
    Merges lines hunks (located.map Located.placement) new
      (assemble (Splice.fileOrigins lines.length) 0 rs) := by
  have hnodup := Origin.nodup_of_ordered (ho.ordered h)
  have hinside (k i line : Nat)
      (hline : RemovesLine hunks (located.map Located.placement) k i line) : line < lines.length := by
    obtain ⟨x, hx, -, hmem, -⟩ := h.removesLine_iff.mp hline
    exact (h.fits x hx).inside _ hmem
  have hlength := length_of_origins hnodup (ho.mem_file h) (ho.mem_added h)
    (fun k i e he hremove => h.removes he hremove) hinside
    (fun k i k' i' line hline hline' => h.removes_once hline hline')
  rw [ho.spells.length_eq] at hlength
  exact {
    placed := by rw [List.length_map, ← h.hunks_eq, List.length_map]
    removes := fun k i e he hremove => h.removes he hremove
    removes_once := fun k i k' i' line hline hline' => h.removes_once hline hline'
    spells := ho.spells
    nodup := hnodup
    ordered := ho.ordered h
    mem_file := ho.mem_file h
    mem_added := ho.mem_added h
    length_eq := hlength }

end Overlay

end Overlay

/-! ## All hunks -/

variable [Score α] {config : Config α} {lines new : List Text} {hunks : List Hunk}
  {placements : List (Placement α)}

/-- Whatever hunks are applied, the result is a merge of the lines that they leave and of the lines
that they add; its length is the one that the counts of the report say. -/
theorem applyHunks_merges (h : applyHunks config lines hunks = .ok (new, placements)) :
    (∃ origins, Merges lines hunks placements new origins) ∧
    ∀ (request : Request) (content : ByteArray) (image : Image) (change : Change α),
      image.lines = lines →
      (Engine.updateByHunks config request hunks content image).2 = .ok change →
      new.length + change.removed = lines.length + change.added := by
  have hresult := h
  obtain ⟨located, floors, splices, haccepted, rfl, hsplices, rfl⟩ := applyHunks_eq_ok h
  obtain ⟨rs, ho⟩ := haccepted.exists_overlay hsplices
  have hmerges := ho.merges haccepted
  refine ⟨⟨_, hmerges⟩, fun request content image change himage hchange => ?_⟩
  rw [Engine.updateByHunks, himage, hresult] at hchange
  obtain ⟨-, -, hchange⟩ := bind_eq_ok.mp hchange
  cases Except.ok.inj hchange
  exact hmerges.length_eq

/-- Two hunks that share a kept line, and the counts of the report on them. -/
theorem applyHunks_merges_shared_line :
    ∃ (placements : List (Placement Rat)) (origins : List Origin) (change : Change Rat),
      Merges [['a'], ['b'], ['c']]
        [{ edits := [⟨.remove, ['a']⟩, ⟨.add, ['A']⟩, ⟨.keep, ['b']⟩] },
          { edits := [⟨.keep, ['b']⟩, ⟨.remove, ['c']⟩, ⟨.add, ['C']⟩, ⟨.add, ['D']⟩] }]
        placements [['A'], ['b'], ['C'], ['D']] origins ∧
      change.added = 3 ∧ 4 + change.removed = 3 + change.added := by
  let config : Config Rat := Config.usual Score.decimal
  let upper : Hunk := { edits := [⟨.remove, ['a']⟩, ⟨.add, ['A']⟩, ⟨.keep, ['b']⟩] }
  let lower : Hunk :=
    { edits := [⟨.keep, ['b']⟩, ⟨.remove, ['c']⟩, ⟨.add, ['C']⟩, ⟨.add, ['D']⟩] }
  let above : Placement Rat := ⟨0, Score.one, .lines .exact, [(0, 0), (2, 1)], none, []⟩
  let below : Placement Rat := ⟨1, Score.one, .lines .exact, [(0, 1), (1, 2)], none, []⟩
  have happlied : applyHunks config [['a'], ['b'], ['c']] [upper, lower] =
      .ok ([['A'], ['b'], ['C'], ['D']], [above, below]) :=
    applyHunks_of_ascending [⟨1, upper, above⟩, ⟨2, lower, below⟩] [(2, 2)]
      [(1, ⟨0, 2, [['A'], ['b']]⟩), (2, ⟨2, 3, [['C'], ['D']]⟩)]
      (by decide +kernel) (by decide) (by decide) (by decide +kernel) (by decide)
  obtain ⟨⟨origins, hmerges⟩, hcounts⟩ := applyHunks_merges happlied
  let request : Request := { path := ['f'], renameTo := some ['g'] }
  let image : Image := { lines := [['a'], ['b'], ['c']] }
  have hchange : ∃ change, (Engine.updateByHunks config request [upper, lower] .empty image).2 = .ok change ∧
      change.added = 3 := by
    rw [Engine.updateByHunks, happlied]
    exact ⟨_, rfl, rfl⟩
  obtain ⟨change, hchange, hadded⟩ := hchange
  exact ⟨_, origins, change, hmerges, hadded, hcounts request .empty image change rfl hchange⟩

end LoosePatch
