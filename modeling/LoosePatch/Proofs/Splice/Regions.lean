import LoosePatch.Proofs.Indent.Body
import LoosePatch.Proofs.Splice.Assembly
import LoosePatch.Proofs.Splice.Emission
import LoosePatch.Proofs.Splice.Sharing

/-!
The splice of a placed hunk, watched on a file whose lines are their own numbers. `Splice.OfHunk` is
what such a region holds; `ofHunk_region` finds it behind every splice, with the same range and line
by line with the texts that its origins spell.
-/

namespace LoosePatch

variable {α : Type}

/-- The edit `i` of hunk `h`, both counted from 0. -/
def editAt? (hunks : List Hunk) (h i : Nat) : Option Edit := hunks[h]?.bind (·.edits[i]?)

/-- The file line that edit `i` of hunk `h` is matched to. -/
def lineAt? (placements : List (Placement α)) (h i : Nat) : Option Nat :=
  placements[h]?.bind (·.lineOf? i)

/-- The text of a line of the result: that of its file line, or that of its added line up to the
spaces and tabs in front. -/
def Origin.Spells (lines : List Text) (hunks : List Hunk) : Origin → Text → Prop
  | .file line, text => lines[line]? = some text
  | .added h i, text => ∃ e, editAt? hunks h i = some e ∧ e.isAdd = true ∧
    Indent.body e.text = Indent.body text

namespace Splice

theorem fileOrigins_spell (lines : List Text) (hunks : List Hunk) :
    List.Forall₂ (Origin.Spells lines hunks) (fileOrigins lines.length) lines := by
  have hlen : (fileOrigins lines.length).length = lines.length := by
    rw [fileOrigins, List.length_map, List.length_range]
  refine List.forall₂_of_length_eq_of_get hlen fun i hi hi' => ?_
  simp only [fileOrigins, List.get_eq_getElem, List.getElem_map, List.getElem_range]
  exact List.getElem?_eq_getElem hi'

/-- The added lines of a hunk spell what is made of them when they are fitted in. -/
theorem addedOrigins_spell {lines : List Text} {hunks : List Hunk} {h : Nat} {hunk : Hunk}
    (hhunk : hunks[h]? = some hunk) (pairs : List Indent.Pair) (profile : Indent.Profile) :
    List.Forall₂ (Origin.Spells lines hunks) (addedOrigins h hunk.edits.zipIdx)
      (Indent.reconcile pairs hunk.addedLines profile) := by
  have htexts : hunk.addedLines = textsWhere Edit.isAdd hunk.edits.zipIdx :=
    (textsWhere_zipIdx Edit.isAdd hunk.edits 0).symm
  have hbodies : List.Forall₂ (fun (x : Edit × Nat) text => Indent.body x.1.text = Indent.body text)
      (numberedWhere Edit.isAdd hunk.edits.zipIdx)
      (Indent.reconcile pairs hunk.addedLines profile) := by
    have hmap := (Indent.map_body_reconcile pairs hunk.addedLines profile).symm
    conv_lhs at hmap => rw [htexts, textsWhere, List.map_map]
    rw [← List.forall₂_eq_eq_eq, List.forall₂_map_left_iff, List.forall₂_map_right_iff] at hmap
    exact hmap
  rw [addedOrigins, List.forall₂_map_left_iff]
  refine ((List.forall₂_and_left (p := fun x => hunk.edits[x.2]? = some x.1 ∧ x.1.isAdd = true) _ _).mpr
    ⟨fun x hx => mem_numberedWhere_zipIdx.mp hx, hbodies⟩).imp fun x text hx => ?_
  obtain ⟨⟨hedit, hadd⟩, hbody⟩ := hx
  refine ⟨x.1, ?_, hadd, hbody⟩
  rw [editAt?, hhunk, Option.bind_some, hedit]

/-! ## The region of a hunk -/

/-- The region of a hunk from line `first` on: each line of its range that the hunk does not remove,
and each added line, in order. -/
structure OfRegion (lineAt? : Nat → Nat → Option Nat) (h : Nat) (hunk : Hunk) (p : Placement α)
    (first : Nat) (r : Region Origin) : Prop where
  start_eq : r.start = first
  stop_eq : r.stop = p.stop
  mem_file : ∀ line, .file line ∈ r.body ↔ first ≤ line ∧ line < p.stop ∧
    ¬ ∃ i e, hunk.edits[i]? = some e ∧ e.isRemove = true ∧ lineAt? h i = some line
  mem_added : ∀ h' i, .added h' i ∈ r.body ↔
    h' = h ∧ ∃ e, hunk.edits[i]? = some e ∧ e.isAdd = true
  ordered : r.body.Pairwise (Origin.Precedes lineAt?)

end Splice

theorem Placement.Fits.matching {lines : List Text} {hunk : Hunk} {p : Placement α}
    (hfits : p.Fits lines hunk) (first : Nat) :
    Splice.Matching lines.length p.lineOf? first hunk.edits.zipIdx where
  sorted := zipIdx_sorted hunk.edits 0
  old x hx line hline := by
    obtain ⟨e, he, hold⟩ := hfits.old _ (hfits.lineOf?_eq_some.mp hline)
    rw [List.mem_zipIdx_iff_getElem?.mp hx] at he
    cases he
    exact hold
  mono i j a b hi hj := hfits.lt_iff_lt (hfits.lineOf?_eq_some.mp hi) (hfits.lineOf?_eq_some.mp hj)
  inside i line hline := hfits.inside _ (hfits.lineOf?_eq_some.mp hline)
  pending i line hline _ := by
    obtain ⟨e, he, -⟩ := hfits.old _ (hfits.lineOf?_eq_some.mp hline)
    exact ⟨e, List.mem_zipIdx_iff_getElem?.mpr he⟩

namespace Splice

variable {lines : List Text} {hunks : List Hunk} {hunk : Hunk} {p : Placement α} {h first stop : Nat}
  {lineAt? : Nat → Nat → Option Nat} {out : List Origin}

/-- Emission ends where the placement does. -/
theorem Emitted.stop_eq (hfits : p.Fits lines hunk) (hne : p.positions ≠ []) (hfirst : first < p.stop)
    (hline : lineAt? h = p.lineOf?)
    (he : Emitted lines.length lineAt? h first hunk.edits.zipIdx out stop) : stop = p.stop := by
  obtain ⟨x, hx, hstop⟩ := Placement.exists_stop hne
  have hlast : p.stop ≤ stop := by
    obtain ⟨e, hedit, -⟩ := hfits.old x hx
    have hlt := he.lt_stop (e, x.1) (List.mem_zipIdx_iff_getElem?.mpr hedit) x.2
      (by rw [hline]; exact hfits.lineOf?_eq_some.mpr hx)
    omega
  rcases he.reached with heq | ⟨y, -, line, hy, heq⟩
  · omega
  · rw [hline] at hy
    have hlt : line < p.stop := Placement.lt_stop (hfits.lineOf?_eq_some.mp hy)
    omega

theorem OfRegion.of_emitted (hfits : p.Fits lines hunk) (hne : p.positions ≠ [])
    (hfirst : first < p.stop) (hline : lineAt? h = p.lineOf?)
    (he : Emitted lines.length lineAt? h first hunk.edits.zipIdx out stop) :
    OfRegion lineAt? h hunk p first ⟨first, stop, out⟩ where
  start_eq := rfl
  stop_eq := he.stop_eq hfits hne hfirst hline
  mem_file line := by
    rw [he.mem_file, he.stop_eq hfits hne hfirst hline]
    simp only [Prod.exists, List.mem_zipIdx_iff_getElem?, exists_comm (α := Edit)]
  mem_added h' i := by
    rw [he.mem_added]
    simp only [List.mem_zipIdx_iff_getElem?]
  ordered := he.ordered

/-- The region of a hunk without old lines has its added lines only. -/
theorem OfRegion.of_insertion (hfits : p.Fits lines hunk) (hnil : p.positions = [])
    (lineAt? : Nat → Nat → Option Nat) (h : Nat) :
    OfRegion lineAt? h hunk p p.start ⟨p.start, p.start, addedOrigins h hunk.edits.zipIdx⟩ where
  start_eq := rfl
  stop_eq := (Placement.stop_of_nil hnil).symm
  mem_file line := by
    rw [Placement.stop_of_nil hnil]
    refine iff_of_false ?_ (by omega)
    simp [addedOrigins]
  mem_added h' i := by
    rw [mem_addedOrigins]
    simp only [List.mem_zipIdx_iff_getElem?]
  ordered := addedOrigins_ordered (hfits.matching 0).sorted lineAt?

/-- Behind every splice of a placed hunk there is its region. -/
theorem ofHunk_region {profile : Indent.Profile} {floor : Option Nat} {s : Splice}
    (hhunk : hunks[h]? = some hunk) (hline : lineAt? h = p.lineOf?) (hfits : p.Fits lines hunk)
    (hbegins : Located.Begins hunk p (max p.start (floor.getD 0)))
    (hs : ofHunk lines hunk p profile floor = .ok s) :
    ∃ r, OfRegion lineAt? h hunk p (max p.start (floor.getD 0)) r ∧ r.start = s.start ∧
      r.stop = s.stop ∧ List.Forall₂ (Origin.Spells lines hunks) r.body s.replacement := by
  obtain ⟨pairs, -, hs⟩ := bind_eq_ok.mp hs
  have hadded : List.Forall₂ (Origin.Spells lines hunks) (addedOrigins h hunk.edits.zipIdx) _ :=
    addedOrigins_spell hhunk pairs profile
  split at hs
  · rename_i hempty
    have hnil : p.positions = [] := List.isEmpty_iff.mp hempty
    cases Except.ok.inj hs
    rw [hbegins.eq_start hnil, hfits.insertAt hnil]
    exact ⟨_, OfRegion.of_insertion hfits hnil lineAt? h, rfl, rfl, hadded⟩
  · rename_i hsome
    have hne : p.positions ≠ [] := fun hnil => hsome (List.isEmpty_iff.mpr hnil)
    obtain ⟨⟨written, stop⟩, hemit, hs⟩ := bind_eq_ok.mp hs
    cases Except.ok.inj hs
    have hfirst := hbegins.lt_stop hne
    have hmatching := hfits.matching (max p.start (floor.getD 0))
    rw [← hline] at hmatching hemit
    obtain ⟨out, stop', horigins, he⟩ :=
      emit_origins (h := h) (Nat.le_of_lt (Nat.lt_of_lt_of_le hfirst hfits.stop_le)) hmatching
    obtain ⟨written', hwritten, hspell⟩ :=
      emit_forall₂ (fileOrigins_spell lines hunks) hadded horigins
    rw [hwritten] at hemit
    cases Except.ok.inj hemit
    exact ⟨_, OfRegion.of_emitted hfits hne hfirst hline he, rfl, rfl, hspell⟩

end Splice
end LoosePatch
