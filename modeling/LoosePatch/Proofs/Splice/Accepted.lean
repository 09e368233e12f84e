import LoosePatch.Proofs.Splice.Regions
import Mathlib.Data.List.Nodup

/-!
Hunks that apply together. `Accepted` is what placing them all and finding no conflict leaves behind,
`Traced` is what stands behind each of their splices, and `applyHunks_eq_ok` says once how the result
is made of them.
-/

namespace LoosePatch

/-! ## What is accepted -/

variable {α : Type} {lines : List Text} {hunks : List Hunk} {located : List (Located α)}
  {floors : Located.Floors}

/-- Hunks, numbered in diff order, with places in one file that fit and with floors that keep their
splices apart. -/
structure Accepted (lines : List Text) (hunks : List Hunk) (located : List (Located α))
    (floors : Located.Floors) : Prop where
  numbers : located.map Located.number = List.range' 1 hunks.length
  hunks_eq : located.map Located.hunk = hunks
  fits : ∀ x ∈ located, x.placement.Fits lines x.hunk
  begins : ∀ x ∈ located, Located.Begins x.hunk x.placement (Located.beginning floors x)
  apart : located.Pairwise fun x y =>
    x.stop ≤ Located.beginning floors y ∨ y.stop ≤ Located.beginning floors x

namespace Accepted

theorem beginning_le_stop (h : Accepted lines hunks located floors) {x : Located α}
    (hx : x ∈ located) : Located.beginning floors x ≤ x.stop :=
  (h.begins x hx).le_stop (h.fits x hx)

/-- No line belongs to the splices of two hunks. -/
theorem eq_of_line (h : Accepted lines hunks located floors) {x y : Located α} (hx : x ∈ located)
    (hy : y ∈ located) {line : Nat} (hxline : Located.beginning floors x ≤ line ∧ line < x.stop)
    (hyline : Located.beginning floors y ≤ line ∧ line < y.stop) : x = y := by
  have hsame : located.Pairwise fun x y => (Located.beginning floors x ≤ line ∧ line < x.stop) →
      (Located.beginning floors y ≤ line ∧ line < y.stop) → x = y :=
    h.apart.imp fun hapart _ _ => by omega
  exact hsame.forall_of_forall_of_flip (fun _ _ _ _ => rfl)
    (hsame.imp fun hxy hy hx => (hxy hx hy).symm) hx hy hxline hyline

/-- The numbers of hunks count them from 1. -/
theorem number_eq (h : Accepted lines hunks located floors) {i : Nat} {x : Located α}
    (hx : located[i]? = some x) : x.number = i + 1 := by
  have hnumber : (located.map Located.number)[i]? = some x.number := by
    rw [List.getElem?_map, hx]
    rfl
  rw [h.numbers] at hnumber
  obtain ⟨hlt, heq⟩ := List.getElem?_eq_some_iff.mp hnumber
  rw [List.getElem_range'] at heq
  omega

theorem getElem?_of_mem (h : Accepted lines hunks located floors) {x : Located α}
    (hx : x ∈ located) : located[x.number - 1]? = some x := by
  obtain ⟨i, hi⟩ := List.mem_iff_getElem?.mp hx
  rw [h.number_eq hi]
  exact hi

theorem eq_of_number (h : Accepted lines hunks located floors) {x y : Located α}
    (hx : x ∈ located) (hy : y ∈ located) (hnumber : x.number = y.number) : x = y := by
  have hx' := h.getElem?_of_mem hx
  rw [hnumber, h.getElem?_of_mem hy] at hx'
  exact (Option.some.inj hx').symm

theorem editAt?_eq_some (h : Accepted lines hunks located floors) {i j : Nat} {e : Edit} :
    editAt? hunks i j = some e ↔
      ∃ x ∈ located, x.number - 1 = i ∧ x.hunk.edits[j]? = some e := by
  rw [editAt?, ← h.hunks_eq, Option.bind_eq_some_iff]
  constructor
  · rintro ⟨hunk, hhunk, he⟩
    rw [List.getElem?_map, Option.map_eq_some_iff] at hhunk
    obtain ⟨x, hx, rfl⟩ := hhunk
    refine ⟨x, List.mem_of_getElem? hx, ?_, he⟩
    rw [h.number_eq hx]
    exact Nat.add_sub_cancel i 1
  · rintro ⟨x, hx, rfl, he⟩
    refine ⟨x.hunk, ?_, he⟩
    rw [List.getElem?_map, h.getElem?_of_mem hx]
    rfl

theorem lineAt?_eq (h : Accepted lines hunks located floors) {x : Located α} (hx : x ∈ located) :
    lineAt? (located.map Located.placement) (x.number - 1) = x.placement.lineOf? := by
  funext i
  rw [lineAt?, List.getElem?_map, h.getElem?_of_mem hx]
  rfl

/-- A line that a hunk removes belongs to the splice of this hunk. -/
theorem mem_splice_of_isRemove (h : Accepted lines hunks located floors) {x : Located α}
    (hx : x ∈ located) {i line : Nat} {e : Edit} (he : x.hunk.edits[i]? = some e)
    (hremove : e.isRemove = true) (hline : (i, line) ∈ x.placement.positions) :
    Located.beginning floors x ≤ line ∧ line < x.stop := by
  refine ⟨?_, Placement.lt_stop hline⟩
  by_contra hlt
  have hkeeps := (h.begins x hx).keeps (i, line) hline (Nat.lt_of_not_le hlt) e he
  rw [hremove] at hkeeps
  cases hkeeps

end Accepted

/-! ## The regions behind splices -/

/-- The splice that a hunk makes, with the number of the hunk. -/
def Renders (lines : List Text) (floors : Located.Floors) (x : Located α) (z : NumberedSplice) :
    Prop :=
  z.1 = x.number ∧ Splice.ofHunk lines x.hunk x.placement (Indent.profile lines)
    (floors.lookup x.number) = .ok z.2

/-- The region behind the splice of a placed hunk. -/
structure Traced (lines : List Text) (hunks : List Hunk) (located : List (Located α))
    (floors : Located.Floors) (z : NumberedSplice) (x : Located α) (r : Region Origin) : Prop where
  mem : x ∈ located
  number : z.1 = x.number
  region : Splice.OfRegion (lineAt? (located.map Located.placement)) (x.number - 1) x.hunk
    x.placement (Located.beginning floors x) r
  start_eq : r.start = z.2.start
  stop_eq : r.stop = z.2.stop
  spells : List.Forall₂ (Origin.Spells lines hunks) r.body z.2.replacement

namespace Accepted

variable {splices : List NumberedSplice}

theorem exists_traced (h : Accepted lines hunks located floors) {x : Located α} (hx : x ∈ located)
    {z : NumberedSplice} (hz : Renders lines floors x z) :
    ∃ r, Traced lines hunks located floors z x r := by
  have hhunk : hunks[x.number - 1]? = some x.hunk := by
    rw [← h.hunks_eq, List.getElem?_map, h.getElem?_of_mem hx]
    rfl
  obtain ⟨r, hr, hstart, hstop, hspells⟩ := Splice.ofHunk_region hhunk (h.lineAt?_eq hx)
    (h.fits x hx) (h.begins x hx) hz.2
  exact ⟨r, hx, hz.1, hr, hstart, hstop, hspells⟩

/-- All splices keep apart, in the file. -/
theorem splices_apart (h : Accepted lines hunks located floors)
    (hsplices : List.Forall₂ (Renders lines floors) located splices) :
    (∀ z ∈ splices, ∃ x r, Traced lines hunks located floors z x r) ∧
    (∀ z ∈ splices, z.2.start ≤ z.2.stop ∧ z.2.stop ≤ lines.length) ∧
    splices.Pairwise NumberedSplice.Apart ∧ splices.map Prod.fst = located.map Located.number := by
  have htraced : List.Forall₂ (fun x z => ∃ r, Traced lines hunks located floors z x r)
      located splices :=
    ((List.forall₂_and_left (p := (· ∈ located)) _ _).mpr ⟨fun _ hx => hx, hsplices⟩).imp
      fun x z hz => h.exists_traced hz.1 hz.2
  have hrange {x : Located α} {z : NumberedSplice} {r : Region Origin}
      (ht : Traced lines hunks located floors z x r) :
      z.2.start = Located.beginning floors x ∧ z.2.stop = x.stop :=
    ⟨ht.start_eq.symm.trans ht.region.start_eq, ht.stop_eq.symm.trans ht.region.stop_eq⟩
  refine ⟨fun z hz => ?_, fun z hz => ?_, ?_, ?_⟩
  · obtain ⟨x, -, r, ht⟩ := exists_mem_of_forall₂ htraced hz
    exact ⟨x, r, ht⟩
  · obtain ⟨x, -, r, ht⟩ := exists_mem_of_forall₂ htraced hz
    obtain ⟨hstart, hstop⟩ := hrange ht
    have hle := h.beginning_le_stop ht.mem
    have hin : x.stop ≤ lines.length := (h.fits x ht.mem).stop_le
    omega
  · refine pairwise_of_forall₂ htraced h.apart ?_
    rintro x x' z z' ⟨r, ht⟩ ⟨r', ht'⟩ hapart
    obtain ⟨hstart, hstop⟩ := hrange ht
    obtain ⟨hstart', hstop'⟩ := hrange ht'
    rw [NumberedSplice.Apart, hstart, hstop, hstart', hstop']
    exact hapart
  · have hnumbers := hsplices.imp fun x z hz => hz.1.symm
    rw [← List.forall₂_eq_eq_eq, List.forall₂_map_left_iff, List.forall₂_map_right_iff]
    exact hnumbers.flip.imp fun z x hz => hz.symm

end Accepted

/-! ## Where the result comes from -/

variable [Score α] {config : Config α} {new : List Text} {placements : List (Placement α)}

theorem locateAll_eq_ok {number : Nat} (h : locateAll config lines number hunks = .ok located) :
    located.map Located.number = List.range' number hunks.length ∧
      located.map Located.hunk = hunks ∧
      ∀ x ∈ located, x.hunk.locate config lines x.number = .ok x.placement := by
  induction hunks generalizing number located with
  | nil =>
    cases Except.ok.inj h
    exact ⟨rfl, rfl, by simp⟩
  | cons hunk hunks ih =>
    obtain ⟨p, hp, h⟩ := bind_eq_ok.mp h
    obtain ⟨rest, hrest, h⟩ := bind_eq_ok.mp h
    cases Except.ok.inj h
    obtain ⟨hnumbers, hhunks, hlocated⟩ := ih hrest
    refine ⟨?_, congrArg (hunk :: ·) hhunks, fun x hx => ?_⟩
    · rw [List.map_cons, hnumbers, List.length_cons, List.range'_succ]
    · rcases List.mem_cons.mp hx with rfl | hx
      · exact hp
      · exact hlocated x hx

/-- Hunks that are placed and in no conflict are accepted. -/
theorem accepted_of_floors (hlocated : locateAll config lines 1 hunks = .ok located)
    (hfloors : Located.floors lines located = .ok floors) :
    Accepted lines hunks located floors := by
  obtain ⟨hnumbers, hhunks, hplaced⟩ := locateAll_eq_ok hlocated
  have hfits : ∀ x ∈ located, x.placement.Fits lines x.hunk := fun x hx =>
    Hunk.locate_fits (hplaced x hx)
  have hnodup : (located.map Located.number).Nodup := by
    rw [hnumbers]
    exact List.nodup_range'
  obtain ⟨sorted, hperm, hbelow, hbegins⟩ := Located.floors_spec hnodup hfloors
  refine ⟨hnumbers, hhunks, hfits, fun x hx => ?_, ?_⟩
  · refine Located.begins_beginning (hfits x hx) ((hbegins x hx).imp_right ?_)
    rintro ⟨u, -, hrest⟩
    exact ⟨u, hrest⟩
  · exact hperm.pairwise (hbelow.imp Or.inl) Or.symm

omit [Score α] in
theorem mapM_ofHunk_eq_ok {splices : List NumberedSplice} :
    (located.mapM fun x => do
      return (x.number, ← Splice.ofHunk lines x.hunk x.placement (Indent.profile lines)
        (floors.lookup x.number)) : Outcome (List NumberedSplice)) = .ok splices ↔
      List.Forall₂ (Renders lines floors) located splices := by
  refine mapM_eq_ok.trans (forall₂_congr_of_mem fun x _ z => bind_eq_ok.trans ?_)
  constructor
  · rintro ⟨s, hs, hz⟩
    cases Except.ok.inj hz
    exact ⟨rfl, hs⟩
  · rintro ⟨hnumber, hs⟩
    exact ⟨z.2, hs, congrArg (fun k => Except.ok (k, z.2)) hnumber.symm⟩

theorem applyHunks_eq_ok_iff :
    applyHunks config lines hunks = .ok (new, placements) ↔
      ∃ (located : List (Located α)) (floors : Located.Floors) (splices : List NumberedSplice),
        locateAll config lines 1 hunks = .ok located ∧ Located.floors lines located = .ok floors ∧
        List.Forall₂ (Renders lines floors) located splices ∧
        placements = located.map Located.placement ∧ new = spliceAll lines splices := by
  constructor
  · intro h
    obtain ⟨located, hlocated, h⟩ := bind_eq_ok.mp h
    obtain ⟨floors, hfloors, h⟩ := bind_eq_ok.mp h
    obtain ⟨splices, hsplices, h⟩ := bind_eq_ok.mp h
    cases Except.ok.inj h
    exact ⟨located, floors, splices, hlocated, hfloors, mapM_ofHunk_eq_ok.mp hsplices, rfl, rfl⟩
  · rintro ⟨located, floors, splices, hlocated, hfloors, hsplices, rfl, rfl⟩
    refine bind_eq_ok.mpr ⟨located, hlocated, bind_eq_ok.mpr ⟨floors, hfloors, ?_⟩⟩
    exact bind_eq_ok.mpr ⟨splices, mapM_ofHunk_eq_ok.mpr hsplices, rfl⟩

/-- The result comes from accepted hunks by their splices. -/
theorem applyHunks_eq_ok (h : applyHunks config lines hunks = .ok (new, placements)) :
    ∃ (located : List (Located α)) (floors : Located.Floors) (splices : List NumberedSplice),
      Accepted lines hunks located floors ∧ placements = located.map Located.placement ∧
      List.Forall₂ (Renders lines floors) located splices ∧ new = spliceAll lines splices := by
  obtain ⟨located, floors, splices, hlocated, hfloors, hsplices, rfl, rfl⟩ :=
    applyHunks_eq_ok_iff.mp h
  exact ⟨located, floors, splices, accepted_of_floors hlocated hfloors, rfl, hsplices, rfl⟩

/-- Hunks that are placed in the order of the file. Their floors are found from the first one on, and
their splices are made from the last one on. -/
theorem applyHunks_of_ascending (located : List (Located α)) (floors : Located.Floors)
    (splices : List NumberedSplice) (hlocated : locateAll config lines 1 hunks = .ok located)
    (hascending : located.Pairwise fun x y => Located.le x y = true)
    (hfloors : Located.floorsBelow lines [] [] located = .ok floors)
    (hsplices : (located.mapM fun x => do
      return (x.number, ← Splice.ofHunk lines x.hunk x.placement (Indent.profile lines)
        (floors.lookup x.number)) : Outcome (List NumberedSplice)) = .ok splices)
    (hmade : splices.Pairwise fun x y => NumberedSplice.ge y x = true) :
    applyHunks config lines hunks = .ok
      ((splices.reverse.map Prod.snd).foldl Splice.apply lines, located.map Located.placement) := by
  have hsame : Located.floors lines located = .ok floors := by
    rw [Located.floors, List.mergeSort_of_pairwise hascending]
    exact hfloors
  have haccepted := accepted_of_floors hlocated hsame
  have hrenders := mapM_ofHunk_eq_ok.mp hsplices
  obtain ⟨-, -, -, hnumbers⟩ := haccepted.splices_apart hrenders
  have hdistinct : (splices.map Prod.fst).Nodup := by
    rw [hnumbers, haccepted.numbers]
    exact List.nodup_range'
  have hsorted : splices.mergeSort NumberedSplice.ge = splices.reverse := by
    refine List.Perm.eq_of_pairwise (fun x y hx hy hge hle => ?_)
      (List.pairwise_mergeSort NumberedSplice.ge_trans NumberedSplice.ge_total splices)
      (List.pairwise_reverse.mpr hmade)
      ((List.mergeSort_perm _ _).trans (List.reverse_perm _).symm)
    -- Two splices that may be made in either order have one number.
    have hnumber : x.1 = y.1 := by
      simp only [NumberedSplice.ge, Bool.or_eq_true, Bool.and_eq_true, decide_eq_true_eq,
        beq_iff_eq] at hge hle
      omega
    exact List.inj_on_of_nodup_map hdistinct ((List.mergeSort_perm _ _).mem_iff.mp hx)
      (List.mem_reverse.mp hy) hnumber
  refine applyHunks_eq_ok_iff.mpr ⟨located, floors, splices, hlocated, hsame, hrenders, rfl, ?_⟩
  rw [spliceAll, hsorted]

theorem mem_spliceAll {splices : List NumberedSplice} {l : Text} (h : l ∈ spliceAll lines splices) :
    l ∈ lines ∨ ∃ z ∈ splices, l ∈ z.2.replacement := by
  have hfold : ∀ (ss : List Splice) (ls : List Text), l ∈ ss.foldl Splice.apply ls →
      l ∈ ls ∨ ∃ s ∈ ss, l ∈ s.replacement := by
    intro ss
    induction ss with
    | nil => exact fun ls hl => .inl hl
    | cons s ss ih =>
      intro ls hl
      rcases ih (Splice.apply ls s) hl with hl | ⟨s', hs', hl⟩
      · rcases List.mem_append.mp hl with hl | hl
        · rcases List.mem_append.mp hl with hl | hl
          · exact .inl (List.mem_of_mem_take hl)
          · exact .inr ⟨s, List.mem_cons_self, hl⟩
        · exact .inl (List.mem_of_mem_drop hl)
      · exact .inr ⟨s', List.mem_cons_of_mem s hs', hl⟩
  refine (hfold _ lines h).imp_right ?_
  rintro ⟨s, hs, hl⟩
  obtain ⟨z, hz, rfl⟩ := List.mem_map.mp hs
  exact ⟨z, (List.mergeSort_perm _ _).mem_iff.mp hz, hl⟩

/-- Every line of the result is a line of the file, or an added line up to its spaces and tabs in
front. -/
theorem mem_of_applyHunks (h : applyHunks config lines hunks = .ok (new, placements)) {l : Text}
    (hl : l ∈ new) :
    l ∈ lines ∨ ∃ hunk ∈ hunks, ∃ e ∈ hunk.edits, e.isAdd = true ∧
      Indent.body e.text = Indent.body l := by
  obtain ⟨located, floors, splices, haccepted, -, hsplices, rfl⟩ := applyHunks_eq_ok h
  rcases mem_spliceAll hl with hl | ⟨z, hz, hl⟩
  · exact .inl hl
  · obtain ⟨x, hx, hrenders⟩ := exists_mem_of_forall₂ hsplices hz
    obtain ⟨r, htraced⟩ := haccepted.exists_traced hx hrenders
    obtain ⟨o, -, hspells⟩ := exists_mem_of_forall₂ htraced.spells hl
    cases o with
    | file line => exact .inl (List.mem_of_getElem? hspells)
    | added i j =>
      obtain ⟨e, he, hadd, hbody⟩ := hspells
      obtain ⟨hunk, hhunk, he⟩ := Option.bind_eq_some_iff.mp he
      exact .inr ⟨hunk, List.mem_of_getElem? hhunk, e, List.mem_of_getElem? he, hadd, hbody⟩

/-- A character that is in no line and in no added line, and does not indent, is in no line of the
result. -/
theorem not_mem_of_applyHunks (h : applyHunks config lines hunks = .ok (new, placements)) {c : Char}
    (hindent : isIndent c = false) (hlines : ∀ l ∈ lines, c ∉ l)
    (hhunks : ∀ hunk ∈ hunks, ∀ e ∈ hunk.edits, c ∉ e.text) : ∀ l ∈ new, c ∉ l := by
  intro l hl hc
  rcases mem_of_applyHunks h hl with hl | ⟨hunk, hhunk, e, he, -, hbody⟩
  · exact hlines l hl hc
  · rw [← Indent.lead_append_body l] at hc
    rcases List.mem_append.mp hc with hc | hc
    · rw [Indent.isIndent_of_mem_lead hc] at hindent
      cases hindent
    · rw [← hbody] at hc
      exact hhunks hunk hhunk e he ((List.dropWhile_suffix isIndent).subset hc)

end LoosePatch
