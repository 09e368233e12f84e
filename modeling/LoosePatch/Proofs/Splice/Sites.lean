import LoosePatch.Proofs.Locate.Numberless
import LoosePatch.Proofs.Splice.Accepted
import LoosePatch.Proofs.Splice.Groups
import LoosePatch.Proofs.Splice.Symmetry

/-!
Placed hunks without their numbers. `Sited` says what it takes for hunks to apply together: each has
a place, every two agree, and each makes a splice that depends on the places of all of them. Numbers
only order the splices (`applyHunks_iff_sited`), so that hunks in another order make the same ones
(`Sited.perm`).
-/

namespace LoosePatch

variable {α : Type}

namespace Located

/-- A placed hunk without its number and its notes. -/
def bare (x : Located α) : Located α := ⟨0, x.hunk, x.placement.unnoted⟩

theorem opening_bare (located : List (Located α)) (x : Located α) :
    opening (located.map bare) x.bare = opening located x := by
  rw [opening, List.filter_map, List.map_map]
  rfl

theorem start_le_opening (located : List (Located α)) (x : Located α) :
    x.start ≤ opening located x :=
  (opening_le_iff.mp le_rfl).1

theorem pairwise_agree_bare (located : List (Located α)) :
    (located.map bare).Pairwise Agree ↔ located.Pairwise Agree :=
  List.pairwise_map

variable [Score α]

/-- The splice of one of several placed hunks. -/
def splice (lines : List Text) (sites : List (Located α)) (x : Located α) : Outcome Splice :=
  Splice.ofHunk lines x.hunk x.placement (Indent.profile lines) (some (opening sites x))

end Located

open Located

variable [Score α]

/-- A hunk at its place. -/
def Hunk.site (config : Config α) (lines : List Text) (hunk : Hunk) : Outcome (Located α) := do
  return Located.bare ⟨0, hunk, ← hunk.locate config lines 0⟩

variable {config : Config α} {lines new : List Text} {hunks hunks' : List Hunk} {hunk : Hunk}
  {located sites : List (Located α)} {floors : Floors} {splices : List Splice} {x : Located α}

/-! ## Places -/

theorem Hunk.site_eq_ok_iff (number : Nat) :
    hunk.site config lines = .ok x ↔
      ∃ p, hunk.locate config lines number = .ok p ∧ x = bare ⟨number, hunk, p⟩ := by
  constructor
  · intro h
    obtain ⟨p, hp, h⟩ := bind_eq_ok.mp h
    obtain ⟨q, hq, hsame⟩ := Hunk.locate_unnoted number hp
    refine ⟨q, hq, ?_⟩
    rw [← Except.ok.inj h, bare, bare, hsame]
  · rintro ⟨p, hp, rfl⟩
    obtain ⟨q, hq, hsame⟩ := Hunk.locate_unnoted 0 hp
    refine bind_eq_ok.mpr ⟨q, hq, ?_⟩
    rw [bare, bare, ← hsame]
    rfl

/-- Hunks are placed at the same lines whatever number is the first. -/
theorem locateAll_bare (number : Nat) :
    (∃ located, locateAll config lines number hunks = .ok located ∧ located.map bare = sites) ↔
      hunks.mapM (Hunk.site config lines) = .ok sites := by
  induction hunks generalizing number sites with
  | nil =>
    rw [locateAll, List.mapM_nil]
    constructor
    · rintro ⟨located, h, rfl⟩
      cases Except.ok.inj h
      rfl
    · intro h
      cases Except.ok.inj h
      exact ⟨[], rfl, rfl⟩
  | cons hunk hunks ih =>
    rw [locateAll, List.mapM_cons]
    constructor
    · rintro ⟨located, h, rfl⟩
      obtain ⟨p, hp, h⟩ := bind_eq_ok.mp h
      obtain ⟨rest, hrest, h⟩ := bind_eq_ok.mp h
      cases Except.ok.inj h
      exact bind_eq_ok.mpr ⟨_, (Hunk.site_eq_ok_iff number).mpr ⟨p, hp, rfl⟩,
        bind_eq_ok.mpr ⟨_, (ih (number + 1)).mp ⟨rest, hrest, rfl⟩, rfl⟩⟩
    · intro h
      obtain ⟨x, hx, h⟩ := bind_eq_ok.mp h
      obtain ⟨rest, hrest, h⟩ := bind_eq_ok.mp h
      cases Except.ok.inj h
      obtain ⟨p, hp, rfl⟩ := (Hunk.site_eq_ok_iff number).mp hx
      obtain ⟨located, hlocated, rfl⟩ := (ih (number + 1)).mpr hrest
      exact ⟨_, bind_eq_ok.mpr ⟨p, hp, bind_eq_ok.mpr ⟨located, hlocated, rfl⟩⟩, rfl⟩

/-! ## Splices -/

omit [Score α] in
/-- All that matters of a floor is where the splice then begins. -/
theorem ofHunk_eq_of_max {p : Placement α} {profile : Indent.Profile} {floor floor' : Option Nat}
    (h : max p.start (floor.getD 0) = max p.start (floor'.getD 0)) :
    Splice.ofHunk lines hunk p profile floor = Splice.ofHunk lines hunk p profile floor' := by
  rw [Splice.ofHunk, Splice.ofHunk, h]

/-- The splice of a placed hunk is the one that it makes among the places of all hunks. -/
theorem renders_iff (hlocated : locateAll config lines 1 hunks = .ok located)
    (hfloors : Located.floors lines located = .ok floors) (hx : x ∈ located) {z : NumberedSplice} :
    Renders lines floors x z ↔
      z.1 = x.number ∧ x.bare.splice lines (located.map bare) = .ok z.2 := by
  have haccepted := accepted_of_floors hlocated hfloors
  have hnumbers : (located.map Located.number).Nodup := by
    rw [haccepted.numbers]
    exact List.nodup_range'
  have hbeginning := beginning_eq_opening hnumbers haccepted.fits hfloors hx
  have hmax : max x.placement.start ((floors.lookup x.number).getD 0) =
      max x.placement.start ((some (opening located x)).getD 0) := by
    rw [Option.getD_some]
    exact hbeginning.trans (Nat.max_eq_right (start_le_opening located x)).symm
  rw [Renders, Located.splice, opening_bare, ofHunk_eq_of_max hmax]
  rfl

omit [Score α] in
theorem forall₂_zip_range' {R : Located α → Splice → Prop} {first : Nat}
    (hnumbers : located.map Located.number = List.range' first located.length) :
    List.Forall₂ (fun x (z : NumberedSplice) => z.1 = x.number ∧ R x z.2) located
        ((List.range' first splices.length).zip splices) ↔
      List.Forall₂ R located splices := by
  induction located generalizing first splices with
  | nil => cases splices <;> simp [List.range'_succ]
  | cons x located ih =>
    cases splices with
    | nil => simp
    | cons s splices =>
      rw [List.map_cons, List.length_cons, List.range'_succ, List.cons.injEq] at hnumbers
      rw [List.length_cons, List.range'_succ, List.zip_cons_cons, List.forall₂_cons,
        List.forall₂_cons, ih hnumbers.2, hnumbers.1]
      exact and_congr_left fun _ => and_iff_right rfl

/-- Hunks that apply together, at their places and with their splices. -/
structure Sited (config : Config α) (lines : List Text) (hunks : List Hunk)
    (sites : List (Located α)) (splices : List Splice) : Prop where
  placed : hunks.mapM (Hunk.site config lines) = .ok sites
  agree : sites.Pairwise Agree
  spliced : sites.mapM (Located.splice lines sites) = .ok splices

/-- Numbered in diff order, the placed hunks make the same splices as without numbers. -/
theorem forall₂_renders_iff (hlocated : locateAll config lines 1 hunks = .ok located)
    (hfloors : Located.floors lines located = .ok floors) :
    List.Forall₂ (Renders lines floors) located (numbered splices) ↔
      (located.map bare).mapM (Located.splice lines (located.map bare)) = .ok splices := by
  have hnumbers : located.map Located.number = List.range' 1 located.length := by
    have haccepted := accepted_of_floors hlocated hfloors
    rw [haccepted.numbers, ← haccepted.hunks_eq, List.length_map]
  rw [mapM_eq_ok, List.forall₂_map_left_iff, ← forall₂_zip_range' hnumbers]
  exact forall₂_congr_of_mem fun x hx _ => renders_iff hlocated hfloors hx

/-- Behind hunks that apply together there are accepted ones, numbered in diff order. -/
theorem Sited.exists_located (h : Sited config lines hunks sites splices) :
    ∃ (located : List (Located α)) (floors : Floors),
      locateAll config lines 1 hunks = .ok located ∧ Located.floors lines located = .ok floors ∧
      List.Forall₂ (Renders lines floors) located (numbered splices) := by
  obtain ⟨located, hlocated, hsites⟩ := (locateAll_bare 1).mpr h.placed
  have hagree := h.agree
  have hspliced := h.spliced
  rw [← hsites] at hagree hspliced
  obtain ⟨floors, hfloors⟩ := floors_isOk_iff.mpr ((pairwise_agree_bare located).mp hagree)
  exact ⟨located, floors, hlocated, hfloors, (forall₂_renders_iff hlocated hfloors).mpr hspliced⟩

/-- The result is made of the splices of hunks that apply together. -/
theorem applyHunks_iff_sited :
    (∃ placements, applyHunks config lines hunks = .ok (new, placements)) ↔
      ∃ sites splices, Sited config lines hunks sites splices ∧
        new = spliceAll lines (numbered splices) := by
  constructor
  · rintro ⟨placements, h⟩
    obtain ⟨located, floors, zs, hlocated, hfloors, hrenders, -, rfl⟩ :=
      applyHunks_eq_ok_iff.mp h
    have haccepted := accepted_of_floors hlocated hfloors
    have hnumbers : zs.map Prod.fst = List.range' 1 (zs.map Prod.snd).length := by
      obtain ⟨-, -, -, hnumbers⟩ := haccepted.splices_apart hrenders
      rw [hnumbers, haccepted.numbers, List.length_map, ← hrenders.length_eq,
        ← haccepted.hunks_eq, List.length_map]
    have hzs : zs = numbered (zs.map Prod.snd) := List.zip_of_prod hnumbers rfl
    rw [hzs, forall₂_renders_iff hlocated hfloors] at hrenders
    refine ⟨_, _, ⟨(locateAll_bare 1).mp ⟨located, hlocated, rfl⟩, ?_, hrenders⟩, hzs ▸ rfl⟩
    exact (pairwise_agree_bare located).mpr (floors_isOk_iff.mp ⟨floors, hfloors⟩)
  · rintro ⟨sites, splices, hsited, rfl⟩
    obtain ⟨located, floors, hlocated, hfloors, hrenders⟩ := hsited.exists_located
    exact ⟨_, applyHunks_eq_ok_iff.mpr
      ⟨located, floors, numbered splices, hlocated, hfloors, hrenders, rfl, rfl⟩⟩

/-- Hunks in another order have the same places and make the same splices. -/
theorem Sited.perm (h : Sited config lines hunks sites splices) (hperm : hunks.Perm hunks') :
    ∃ sites' splices', Sited config lines hunks' sites' splices' ∧ splices.Perm splices' := by
  obtain ⟨sites', hplaced, hsites⟩ := exists_perm_forall₂ hperm (mapM_eq_ok.mp h.placed)
  obtain ⟨splices', hspliced, hsplices⟩ := exists_perm_forall₂ hsites (mapM_eq_ok.mp h.spliced)
  have hopening (x : Located α) : opening sites x = opening sites' x := by
    refine eq_of_forall_ge_iff fun n => ?_
    rw [opening_le_iff, opening_le_iff]
    simp only [hsites.mem_iff]
  refine ⟨sites', splices', ⟨mapM_eq_ok.mpr hplaced, ?_, mapM_eq_ok.mpr ?_⟩, hsplices⟩
  · exact (hsites.pairwise_iff fun h => Agree.symm h).mp h.agree
  · exact hspliced.imp fun x s hs => by rwa [Located.splice, ← hopening x]

/-! ## What a hunk makes -/

/-- The lines that a hunk without old lines inserts. -/
def Hunk.inserted (lines : List Text) (hunk : Hunk) : List Text :=
  Indent.reconcile [] hunk.addedLines (Indent.profile lines)

/-- A hunk without old lines makes a splice of no lines, where it inserts its own; any other hunk
makes a splice of some lines. -/
def Hunk.Makes (config : Config α) (lines : List Text) (hunk : Hunk) (s : Splice) : Prop :=
  match hunk.insertionLine? config lines with
  | some line => s = ⟨line, line, hunk.inserted lines⟩
  | none => s.start < s.stop

omit [Score α] in
theorem pairs_of_nil {p : Placement α} (hnil : p.positions = []) :
    Splice.pairs lines hunk p = .ok [] := by
  have hmatched : (hunk.edits.zipIdx.filterMap fun x => (p.lineOf? x.2).map (x.1, ·)) = [] := by
    simp [Placement.lineOf?, hnil]
  rw [Splice.pairs]
  show List.mapM _ (hunk.edits.zipIdx.filterMap fun x => (p.lineOf? x.2).map (x.1, ·)) = _
  rw [hmatched]
  rfl

omit [Score α] in
theorem ofHunk_of_nil {p : Placement α} {floor : Option Nat} (hnil : p.positions = [])
    (hinsert : p.insertAt.getD p.start = p.start) :
    Splice.ofHunk lines hunk p (Indent.profile lines) floor =
      .ok ⟨p.start, p.start, hunk.inserted lines⟩ := by
  rw [Splice.ofHunk, pairs_of_nil hnil, hnil]
  show Except.ok (Splice.mk (p.insertAt.getD p.start) (p.insertAt.getD p.start) _) = _
  rw [hinsert]
  rfl

theorem Renders.makes (haccepted : Accepted lines hunks located floors) (hx : x ∈ located)
    (hlocate : x.hunk.locate config lines x.number = .ok x.placement) {z : NumberedSplice}
    (h : Renders lines floors x z) : x.hunk.Makes config lines z.2 := by
  cases hinsertion : x.hunk.isInsertion with
  | true =>
    have hnil := (Hunk.positions_eq_nil_iff hlocate).mpr hinsertion
    have hsplice := h.2
    rw [ofHunk_of_nil hnil ((haccepted.fits x hx).insertAt hnil)] at hsplice
    rw [Hunk.Makes, Hunk.insertionLine?_of_insertion hlocate hinsertion]
    exact (Except.ok.inj hsplice).symm
  | false =>
    have hne : x.placement.positions ≠ [] := by
      rw [ne_eq, Hunk.positions_eq_nil_iff hlocate, hinsertion]
      exact Bool.false_ne_true
    obtain ⟨r, hr⟩ := haccepted.exists_traced hx h
    have hlt := (haccepted.begins x hx).lt_stop hne
    rw [Hunk.Makes, Hunk.insertionLine?_of_not_insertion hinsertion]
    show z.2.start < z.2.stop
    rw [← hr.start_eq, ← hr.stop_eq, hr.region.start_eq, hr.region.stop_eq]
    exact hlt

theorem Sited.makes (h : Sited config lines hunks sites splices) :
    List.Forall₂ (Hunk.Makes config lines) hunks splices := by
  obtain ⟨located, floors, hlocated, hfloors, hrenders⟩ := h.exists_located
  have haccepted := accepted_of_floors hlocated hfloors
  obtain ⟨hnumbers, hhunks, hplaced⟩ := locateAll_eq_ok hlocated
  have hmakes : List.Forall₂
      (fun x (z : NumberedSplice) => z.1 = x.number ∧ x.hunk.Makes config lines z.2)
      located (numbered splices) :=
    ((List.forall₂_and_left (p := (· ∈ located)) _ _).mpr ⟨fun _ hx => hx, hrenders⟩).imp
      fun x z h => ⟨h.2.1, h.2.makes haccepted h.1 (hplaced x h.1)⟩
  rw [← hhunks, List.length_map] at hnumbers
  rw [← hhunks, List.forall₂_map_left_iff]
  exact (forall₂_zip_range' hnumbers).mp hmakes

theorem Sited.apart (h : Sited config lines hunks sites splices) :
    (∀ s ∈ splices, s.start ≤ s.stop ∧ s.stop ≤ lines.length) ∧
      splices.Pairwise Splice.Apart := by
  obtain ⟨located, floors, hlocated, hfloors, hrenders⟩ := h.exists_located
  obtain ⟨-, hin, hapart, -⟩ := (accepted_of_floors hlocated hfloors).splices_apart hrenders
  constructor
  · intro s hs
    rw [← numbered_map_snd splices] at hs
    obtain ⟨z, hz, rfl⟩ := List.mem_map.mp hs
    exact hin z hz
  · exact pairwise_apart_numbered.mp hapart

/-- Hunks without old lines apply together if each of them has a place. -/
theorem exists_sited_of_insertions (hinsertions : ∀ hunk ∈ hunks, hunk.isInsertion = true)
    (hplaced : ∀ hunk ∈ hunks, ∃ x, Hunk.site config lines hunk = .ok x) :
    ∃ sites splices, Sited config lines hunks sites splices := by
  obtain ⟨sites, hsites⟩ := exists_forall₂ hplaced
  have hplace : ∀ x ∈ sites, x.placement.positions = [] ∧
      x.placement.insertAt.getD x.placement.start = x.placement.start := by
    intro x hx
    obtain ⟨hunk, hhunk, hsite⟩ := exists_mem_of_forall₂ hsites hx
    obtain ⟨p, hp, rfl⟩ := (Hunk.site_eq_ok_iff 0).mp hsite
    have hnil := (Hunk.positions_eq_nil_iff hp).mpr (hinsertions hunk hhunk)
    exact ⟨hnil, (Hunk.locate_fits hp).insertAt hnil⟩
  have hsplices : ∀ x ∈ sites, ∃ s, x.splice lines sites = .ok s := fun x hx =>
    ⟨_, ofHunk_of_nil (hplace x hx).1 (hplace x hx).2⟩
  obtain ⟨splices, hspliced⟩ := exists_forall₂ hsplices
  have hagree : ∀ x ∈ sites, ∀ y ∈ sites, Agree x y := by
    intro x hx y hy
    have hxstop : x.stop = x.start := Placement.stop_of_nil (hplace x hx).1
    have hystop : y.stop = y.start := Placement.stop_of_nil (hplace y hy).1
    constructor <;> intro hnot <;> rw [isAbove_eq_false] at hnot <;> left <;> omega
  exact ⟨sites, splices, mapM_eq_ok.mpr hsites, List.pairwise_of_forall_mem_list hagree,
    mapM_eq_ok.mpr hspliced⟩

end LoosePatch
