import LoosePatch.Proofs.Gathered
import LoosePatch.Proofs.LineRef.Simultaneous
import Mathlib.Data.List.Chain

/-!
Several inserts at one line. Each is made at the same place as the one before it and comes to stand
above what that one wrote. So the blocks stand together, the last one of the request on top
(`applyLineEdits_inserts`), while the lines of hunks that insert at one place stand in the order of
the hunks (`spliceAll_numbered`).
-/

namespace LoosePatch

/-! ## Blocks on top of each other -/

namespace LineRef

variable {line : Text} {block : List Text} {blocks : List (List Text)}

/-- The block has several lines, and the first one repeats a line. -/
def opensWith (line : Text) (block : List Text) : Bool :=
  1 < block.length && block.head?.any (sameShape · line)

/-- The block has several lines, and the last one repeats a line. -/
def endsWith (line : Text) (block : List Text) : Bool :=
  1 < block.length && block.getLast?.any (sameShape · line)

def withoutOpening (line : Text) (block : List Text) : List Text :=
  if opensWith line block then block.drop 1 else block

def withoutEnd (line : Text) (block : List Text) : List Text :=
  if endsWith line block then block.dropLast else block

/-- What blocks put below a line become: the last one comes first, none with the line repeated. -/
def stackBelow (line : Text) (blocks : List (List Text)) : List Text :=
  (blocks.map (withoutOpening line)).reverse.flatten

/-- What blocks put above a line become: each comes on top of those before it, without its last line
if that repeats the line it is put on. -/
def stackAbove (line : Text) : List (List Text) → List Text
  | [] => []
  | block :: blocks =>
    stackAbove ((withoutEnd line block).headD line) blocks ++ withoutEnd line block

theorem stackBelow_cons (line : Text) (block : List Text) (blocks : List (List Text)) :
    stackBelow line (block :: blocks) = stackBelow line blocks ++ withoutOpening line block := by
  simp [stackBelow]

/-- Blocks that do not repeat the line above them stay whole. -/
theorem stackBelow_eq (h : ∀ block ∈ blocks, opensWith line block = false) :
    stackBelow line blocks = blocks.reverse.flatten := by
  have hwhole : blocks.map (withoutOpening line) = blocks.map id := by
    refine List.map_congr_left fun block hblock => ?_
    rw [withoutOpening, h block hblock]
    rfl
  rw [stackBelow, hwhole, List.map_id]

/-- Blocks that do not repeat the line each of them is put on stay whole. -/
theorem stackAbove_eq (hne : ∀ block ∈ blocks, block ≠ [])
    (h : ([line] :: blocks).IsChain fun below block => ∀ l ∈ below.head?, endsWith l block = false) :
    stackAbove line blocks = blocks.reverse.flatten := by
  induction blocks generalizing line with
  | nil => rfl
  | cons block blocks ih =>
    obtain ⟨hblock, hrest⟩ := List.forall_mem_cons.mp hne
    obtain ⟨hends, hchain⟩ := List.isChain_cons_cons.mp h
    obtain ⟨first, rest, rfl⟩ := List.exists_cons_of_ne_nil hblock
    have hwhole : withoutEnd line (first :: rest) = first :: rest := by
      rw [withoutEnd, hends line rfl]
      rfl
    have hnext : ([first] :: blocks).IsChain fun below block =>
        ∀ l ∈ below.head?, endsWith l block = false := by
      cases blocks with
      | nil => exact List.isChain_singleton _
      | cons => exact List.isChain_cons_cons.mpr (List.isChain_cons_cons.mp hchain)
    rw [stackAbove, hwhole, List.headD_cons, ih hrest hnext]
    simp

end LineRef

/-! ## Runs at one line -/

namespace TargetEdit

open LineRef

/-- The edit inserts after the line of this number. -/
def insertsBelow (n : Nat) (e : TargetEdit) : Bool :=
  match e.target with
  | .after ref => ref.line == n
  | .single _ | .range _ _ | .before _ => false

/-- The edit inserts before the line of this number. -/
def insertsAbove (n : Nat) (e : TargetEdit) : Bool :=
  match e.target with
  | .before ref => ref.line == n
  | .single _ | .range _ _ | .after _ => false

/-- The blocks that are inserted after a line, in the order of the request. -/
def blocksBelow (n : Nat) (edits : List TargetEdit) : List (List Text) :=
  (edits.filter (insertsBelow n)).map TargetEdit.lines

/-- The blocks that are inserted before a line, in the order of the request. -/
def blocksAbove (n : Nat) (edits : List TargetEdit) : List (List Text) :=
  (edits.filter (insertsAbove n)).map TargetEdit.lines

variable {file lines top bottom tail : List Text} {edits rest : List TargetEdit} {e x y : TargetEdit}
  {done done' : LineOutcome} {anchor line : Text} {n : Nat}

/-- The edits are made on the lines from `cursor` on, one below the other. -/
structure MadeWithin (lines : List Text) (cursor : Nat) (edits : List TargetEdit)
    (made : List MadeEdit) : Prop where
  perm : (made.map MadeEdit.edit).Perm edits
  blocks : ∀ m ∈ made, BlockOf m.edit.lines m.block
  stacked : Stacked lines.length cursor (made.map MadeEdit.region)

theorem MadeWithin.perm_edits {lines : List Text} {cursor : Nat} {edits edits' : List TargetEdit}
    {made : List MadeEdit} (h : MadeWithin lines cursor edits made) (hperm : edits.Perm edits') :
    MadeWithin lines cursor edits' made :=
  { h with perm := h.perm.trans hperm }

theorem insertsBelow_iff : e.insertsBelow n = true ↔ ∃ ref, e.target = .after ref ∧ ref.line = n := by
  cases h : e.target <;> simp [insertsBelow, h]

theorem insertsAbove_iff : e.insertsAbove n = true ↔ ∃ ref, e.target = .before ref ∧ ref.line = n := by
  cases h : e.target <;> simp [insertsAbove, h]

theorem change_of_insertsBelow (h : e.insertsBelow n = true) (hline : lines[n - 1]? = some anchor) :
    change lines e = .ok (n, 0, withoutOpening anchor e.lines) := by
  obtain ⟨ref, htarget, rfl⟩ := insertsBelow_iff.mp h
  simp only [change, htarget]
  rw [fetch_eq_ok.mpr hline]
  rfl

theorem change_of_insertsAbove (h : e.insertsAbove n = true) (hline : lines[n - 1]? = some line) :
    change lines e = .ok (n - 1, 0, withoutEnd line e.lines) := by
  obtain ⟨ref, htarget, rfl⟩ := insertsAbove_iff.mp h
  simp only [change, htarget]
  rw [fetch_eq_ok.mpr hline]
  rfl

/-- A run of inserts after one line puts its blocks right below it. -/
theorem run_insertsBelow (hrest : ∀ e ∈ rest, e.insertsBelow n = true)
    (hlines : done.lines = top ++ anchor :: bottom) (htop : top.length + 1 = n)
    (hrun : rest.foldlM step done = .ok done') :
    done'.lines = top ++ anchor :: (stackBelow anchor (rest.map TargetEdit.lines) ++ bottom) := by
  induction rest generalizing done bottom with
  | nil =>
    cases Except.ok.inj hrun
    exact hlines
  | cons e rest ih =>
    obtain ⟨he, hrest⟩ := List.forall_mem_cons.mp hrest
    rw [List.foldlM_cons] at hrun
    obtain ⟨next, hstep, hrun⟩ := bind_eq_ok.mp hrun
    obtain ⟨new, hchange, hnext, -, -⟩ := step_eq_ok hstep
    have hanchor : done.lines[n - 1]? = some anchor := by
      rw [hlines, ← htop]
      simp
    rw [change_of_insertsBelow he hanchor] at hchange
    obtain ⟨hplace, hcount, hnew⟩ : n = e.place ∧ 0 = e.count ∧ withoutOpening anchor e.lines = new := by
      simpa using hchange
    have hnext' : next.lines = top ++ anchor :: (withoutOpening anchor e.lines ++ bottom) := by
      have hsplit : done.lines = (top ++ [anchor]) ++ bottom := by
        rw [hlines, List.append_assoc, List.singleton_append]
      have hlength : (top ++ [anchor]).length = n := by
        rw [List.length_append, List.length_singleton, htop]
      rw [hnext, ← hplace, ← hcount, ← hnew, Nat.add_zero, hsplit, List.take_left' hlength,
        List.drop_left' hlength]
      simp only [List.append_assoc, List.cons_append, List.nil_append]
    rw [ih hrest hnext' hrun, List.map_cons, stackBelow_cons, List.append_assoc]

/-- A run of inserts before one line puts its blocks right above it. -/
theorem run_insertsAbove (hrest : ∀ e ∈ rest, e.insertsAbove n = true)
    (hlines : done.lines = top ++ line :: bottom) (htop : top.length + 1 = n)
    (hrun : rest.foldlM step done = .ok done') :
    done'.lines = top ++ (stackAbove line (rest.map TargetEdit.lines) ++ line :: bottom) := by
  induction rest generalizing done line bottom with
  | nil =>
    cases Except.ok.inj hrun
    exact hlines
  | cons e rest ih =>
    obtain ⟨he, hrest⟩ := List.forall_mem_cons.mp hrest
    rw [List.foldlM_cons] at hrun
    obtain ⟨next, hstep, hrun⟩ := bind_eq_ok.mp hrun
    obtain ⟨new, hchange, hnext, -, -⟩ := step_eq_ok hstep
    have hline : done.lines[n - 1]? = some line := by
      rw [hlines, ← htop]
      simp
    rw [change_of_insertsAbove he hline] at hchange
    obtain ⟨hplace, hcount, hnew⟩ : n - 1 = e.place ∧ 0 = e.count ∧ withoutEnd line e.lines = new := by
      simpa using hchange
    have hnext' : next.lines = top ++ (withoutEnd line e.lines ++ line :: bottom) := by
      have hlength : top.length = n - 1 := by omega
      rw [hnext, ← hplace, ← hcount, ← hnew, Nat.add_zero, hlines, List.take_left' hlength,
        List.drop_left' hlength, List.append_assoc]
    rw [List.map_cons, stackAbove]
    -- the line that the next block is put on is the first one of this block
    cases hcut : withoutEnd line e.lines with
    | nil =>
      rw [hcut] at hnext'
      rw [ih hrest hnext' hrun, List.headD_nil, List.append_nil]
    | cons first block =>
      rw [hcut] at hnext'
      rw [ih hrest hnext' hrun, List.headD_cons, List.append_assoc]
      rfl

/-- A run of edits within some lines makes them one change and leaves what follows. -/
theorem run_within {cursor : Nat} (hcursor : cursor ≤ lines.length)
    (hin : ∀ e ∈ rest, cursor ≤ e.place ∧ e.place + e.count ≤ lines.length)
    (hrest : rest.Pairwise fun x y => y.place + y.count ≤ x.place)
    (hlines : done.lines = lines ++ tail) (hrun : rest.foldlM step done = .ok done') :
    ∃ made, MadeWithin lines cursor rest made ∧ done'.lines =
      lines.take cursor ++ assemble lines cursor (made.map MadeEdit.region) ++ tail := by
  obtain ⟨made, hmade, hmakes⟩ := run_iff_makes.mp hrun
  obtain rfl := hmakes.eq_foldl
  have hstacked : Stacked lines.length cursor (made.reverse.map MadeEdit.region) :=
    stacked_reverse hcursor (hmade.symm ▸ hin) (hmade.symm ▸ hrest)
  refine ⟨made.reverse, ⟨?_, fun m hm => hmakes.blocks m (List.mem_reverse.mp hm), hstacked⟩, ?_⟩
  · rw [List.map_reverse, hmade]
    exact List.reverse_perm rest
  · have hwhole : Stacked done.lines.length cursor (made.reverse.map MadeEdit.region) := by
      rw [hlines]
      exact hstacked.mono (by simp)
    rw [LineOutcome.lines_foldl_make_of_stacked hwhole, hlines,
      List.take_append_of_le_length hcursor, List.append_assoc, ← assemble_append hstacked]

/-! ## The order of a run -/

/-- Edits that may be made in either order are made in the order of the request. -/
theorem filter_mergeSort {p : TargetEdit → Bool} (hp : ∀ x y, p x = true → p y = true → le x y = true) :
    (edits.mergeSort le).filter p = edits.filter p := by
  have hsorted : (edits.filter p).Pairwise fun x y => le x y = true :=
    List.pairwise_of_forall_mem_list fun x hx y hy =>
      hp x y (List.mem_filter.mp hx).2 (List.mem_filter.mp hy).2
  have hsub := (List.sublist_mergeSort le_trans le_total hsorted List.filter_sublist).filter p
  simp only [List.filter_filter, Bool.and_self] at hsub
  exact (hsub.eq_of_length ((List.mergeSort_perm edits le).filter p).length_eq.symm).symm

theorem last_of_insertsBelow (h : e.insertsBelow n = true) :
    e.target.last = n ∧ e.target.rank = 0 := by
  obtain ⟨ref, htarget, rfl⟩ := insertsBelow_iff.mp h
  exact ⟨by rw [htarget]; rfl, by rw [htarget]; rfl⟩

theorem last_of_insertsAbove (h : e.insertsAbove n = true) :
    e.target.last = n ∧ e.target.rank = 2 := by
  obtain ⟨ref, htarget, rfl⟩ := insertsAbove_iff.mp h
  exact ⟨by rw [htarget]; rfl, by rw [htarget]; rfl⟩

/-- An edit that ends at a line and does not replace it inserts there. -/
theorem inserts_of_last_eq (hfits : e.Fits file) (hkept : e.replaces n = false)
    (hlast : e.target.last = n) : e.insertsBelow n = true ∨ e.insertsAbove n = true := by
  cases htarget : e.target with
  | after ref => exact .inl (insertsBelow_iff.mpr ⟨ref, htarget, by rw [← hlast, htarget]; rfl⟩)
  | before ref => exact .inr (insertsAbove_iff.mpr ⟨ref, htarget, by rw [← hlast, htarget]; rfl⟩)
  | single ref | range ref other =>
    have hreplaces : e.replaces n = true :=
      replaces_eq_true.mpr ⟨by rw [htarget]; rfl, hlast ▸ hfits.first_le_last, hlast.ge⟩
    rw [hreplaces] at hkept
    cases hkept

theorem rank_le_of_le (h : le x y = true) (hlast : x.target.last = y.target.last) :
    x.target.rank ≤ y.target.rank := by
  simp only [le, Bool.or_eq_true, Bool.and_eq_true, decide_eq_true_eq, beq_iff_eq] at h
  omega

theorem le_of_eq {rank : Nat} (hx : x.target.last = n ∧ x.target.rank = rank)
    (hy : y.target.last = n ∧ y.target.rank = rank) : le x y = true := by
  simp [le, hx, hy]

/-- Where an edit stands to a line: below it, at it as an insert after or before it, or above it. -/
def side (n : Nat) (e : TargetEdit) : Nat :=
  if n < e.target.last then 0
  else if e.insertsBelow n then 1
  else if e.insertsAbove n then 2
  else 3

theorem side_eq_zero_iff : e.side n = 0 ↔ n < e.target.last := by
  rw [side]
  split_ifs with hlow hbelow habove
  · exact iff_of_true rfl hlow
  all_goals exact iff_of_false (by decide) hlow

theorem side_eq_one_iff : e.side n = 1 ↔ e.insertsBelow n = true := by
  rw [side]
  split_ifs with hlow hbelow habove
  · exact iff_of_false (by decide) fun h => by
      have hlast := (last_of_insertsBelow h).1
      omega
  · exact iff_of_true rfl hbelow
  all_goals exact iff_of_false (by decide) hbelow

theorem side_eq_two_iff : e.side n = 2 ↔ e.insertsAbove n = true := by
  rw [side]
  split_ifs with hlow hbelow habove
  · exact iff_of_false (by decide) fun h => by
      have hlast := (last_of_insertsAbove h).1
      omega
  · exact iff_of_false (by decide) fun h => by
      have hrank := (last_of_insertsAbove h).2
      have hrank' := (last_of_insertsBelow hbelow).2
      omega
  · exact iff_of_true rfl habove
  · exact iff_of_false (by decide) habove

theorem side_lt_four (n : Nat) (e : TargetEdit) : e.side n < 4 := by
  rw [side]
  split_ifs <;> decide

/-- An edit that ends at a line and does not replace it is an insert there. -/
theorem side_of_last_eq (hfits : e.Fits file) (hkept : e.replaces n = false)
    (hlast : e.target.last = n) : e.side n = 1 ∧ e.target.rank = 0 ∨ e.side n = 2 ∧ e.target.rank = 2 := by
  rcases inserts_of_last_eq hfits hkept hlast with h | h
  · exact .inl ⟨side_eq_one_iff.mpr h, (last_of_insertsBelow h).2⟩
  · exact .inr ⟨side_eq_two_iff.mpr h, (last_of_insertsAbove h).2⟩

/-- Edits around a line that is not replaced are made from one side to the other. -/
theorem side_le_side (hfits : x.Fits file) (hkept : x.replaces n = false) (hle : le x y = true) :
    x.side n ≤ y.side n := by
  have hlast := last_le_last hle
  by_cases hx : n < x.target.last
  · rw [side_eq_zero_iff.mpr hx]
    exact Nat.zero_le _
  have hy : y.side n ≠ 0 := fun h => hx (by have := side_eq_zero_iff.mp h; omega)
  have hxlt := side_lt_four n x
  by_cases hbelow : y.side n = 1
  · obtain ⟨hylast, hyrank⟩ := last_of_insertsBelow (side_eq_one_iff.mp hbelow)
    have hxlast : x.target.last = n := by omega
    have hrank := rank_le_of_le hle (hxlast.trans hylast.symm)
    rcases side_of_last_eq hfits hkept hxlast with ⟨hxside, -⟩ | ⟨-, hxrank⟩ <;> omega
  · by_cases habove : y.side n = 2
    · have hylast := (last_of_insertsAbove (side_eq_two_iff.mp habove)).1
      have hxlast : x.target.last = n := by omega
      rcases side_of_last_eq hfits hkept hxlast with ⟨hxside, -⟩ | ⟨hxside, -⟩ <;> omega
    · omega

theorem side_eq_three_iff (hfits : e.Fits file) (hkept : e.replaces n = false) :
    e.side n = 3 ↔ e.target.last < n := by
  constructor
  · intro h
    have hlow : ¬ n < e.target.last := fun hlow => by
      have hzero := side_eq_zero_iff.mpr hlow
      omega
    have hne : e.target.last ≠ n := fun hlast => by
      rcases side_of_last_eq hfits hkept hlast with ⟨hside, -⟩ | ⟨hside, -⟩ <;> omega
    omega
  · intro h
    have hzero : e.side n ≠ 0 := fun hside => by
      have hlow := side_eq_zero_iff.mp hside
      omega
    have hone : e.side n ≠ 1 := fun hside => by
      have hlast := (last_of_insertsBelow (side_eq_one_iff.mp hside)).1
      omega
    have htwo : e.side n ≠ 2 := fun hside => by
      have hlast := (last_of_insertsAbove (side_eq_two_iff.mp hside)).1
      omega
    have hlt := side_lt_four n e
    omega

/-- Around a line that is not replaced, the edits below it are made first, then the inserts after it
and those before it, each in the order of the request, and the edits above it last. -/
theorem mergeSort_eq (hfits : ∀ e ∈ edits, e.Fits file) (hkept : ∀ e ∈ edits, e.replaces n = false) :
    edits.mergeSort le = (edits.mergeSort le).filter (n < ·.target.last) ++
      (edits.filter (insertsBelow n) ++ (edits.filter (insertsAbove n) ++
        (edits.mergeSort le).filter (·.target.last < n))) := by
  have hmem {e : TargetEdit} : e ∈ edits.mergeSort le ↔ e ∈ edits := List.mem_mergeSort
  have hsides : edits.mergeSort le =
      [0, 1, 2, 3].flatMap fun k => (edits.mergeSort le).filter (side n · = k) := by
    refine eq_flatMap_filter (by decide) (fun e _ => ?_)
      ((pairwise_mergeSort_le edits).imp_of_mem fun hx _ hle =>
        side_le_side (hfits _ (hmem.mp hx)) (hkept _ (hmem.mp hx)) hle)
    have hlt := side_lt_four n e
    simp only [List.mem_cons, List.not_mem_nil, or_false]
    omega
  have hlow : (edits.mergeSort le).filter (side n · = 0) =
      (edits.mergeSort le).filter (n < ·.target.last) :=
    List.filter_congr fun e _ => by simp only [side_eq_zero_iff]
  have hbelow : (edits.mergeSort le).filter (side n · = 1) = edits.filter (insertsBelow n) := by
    rw [← filter_mergeSort fun x y hx hy => le_of_eq (last_of_insertsBelow hx) (last_of_insertsBelow hy)]
    exact List.filter_congr fun e _ => by simp [side_eq_one_iff]
  have habove : (edits.mergeSort le).filter (side n · = 2) = edits.filter (insertsAbove n) := by
    rw [← filter_mergeSort fun x y hx hy => le_of_eq (last_of_insertsAbove hx) (last_of_insertsAbove hy)]
    exact List.filter_congr fun e _ => by simp [side_eq_two_iff]
  have htop : (edits.mergeSort le).filter (side n · = 3) =
      (edits.mergeSort le).filter (·.target.last < n) :=
    List.filter_congr fun e he => by
      simp only [side_eq_three_iff (hfits e (hmem.mp he)) (hkept e (hmem.mp he))]
  rw [← hlow, ← hbelow, ← habove, ← htop]
  simpa using hsides

/-- What goes below a line is made below it. -/
theorem le_place (hkept : e.replaces n = false) (h : n < e.target.last) : n ≤ e.place := by
  cases hinsertion : e.target.isInsertion with
  | true => rcases place_of_insertion hinsertion with ⟨-, hplace⟩ | ⟨-, -, hplace⟩ <;> omega
  | false =>
    have hfirst : ¬ e.target.first ≤ n := fun hfirst => by
      rw [replaces_eq_true.mpr ⟨hinsertion, hfirst, h.le⟩] at hkept
      cases hkept
    rw [place_of_replacement hinsertion]
    omega

/-- What goes above a line is made above it. -/
theorem place_add_count_lt (hfits : e.Fits file) (h : e.target.last < n) : e.place + e.count < n := by
  cases hinsertion : e.target.isInsertion with
  | true =>
    rw [count_of_isInsertion hinsertion]
    rcases place_of_insertion hinsertion with ⟨-, hplace⟩ | ⟨-, -, hplace⟩ <;> omega
  | false =>
    rw [place_add_count hfits hinsertion]
    exact h

/-- The lines around a line that no edit replaces, after a run: the blocks of the inserts next to it,
the edits above it and those below it. -/
theorem run_around (hfits : ∀ e ∈ edits, e.Fits file) (h : Separate edits) (hpos : 1 ≤ n)
    (hanchor : file[n - 1]? = some anchor) (hkept : ∀ e ∈ edits, e.replaces n = false)
    (hrun : (edits.mergeSort le).foldlM step { lines := file } = .ok done) :
    ∃ above below, MadeWithin (file.take (n - 1)) 0 (edits.filter (·.target.last < n)) above ∧
      MadeWithin file n (edits.filter (n < ·.target.last)) below ∧
      done.lines = assemble (file.take (n - 1)) 0 (above.map MadeEdit.region) ++
        (stackAbove anchor (blocksAbove n edits) ++ anchor ::
          (stackBelow anchor (blocksBelow n edits) ++
            assemble file n (below.map MadeEdit.region))) := by
  have hmem {e : TargetEdit} : e ∈ edits.mergeSort le ↔ e ∈ edits := List.mem_mergeSort
  have hperm (p : TargetEdit → Bool) : ((edits.mergeSort le).filter p).Perm (edits.filter p) :=
    (List.mergeSort_perm edits le).filter p
  have hsorted := h.pairwise_mergeSort hfits
  have hlength : n - 1 < file.length := (List.getElem?_eq_some_iff.mp hanchor).1
  rw [mergeSort_eq hfits hkept, List.foldlM_append] at hrun
  obtain ⟨low, hlow, hrun⟩ := bind_eq_ok.mp hrun
  rw [List.foldlM_append] at hrun
  obtain ⟨mid, hmid, hrun⟩ := bind_eq_ok.mp hrun
  rw [List.foldlM_append] at hrun
  obtain ⟨high, hhigh, hrun⟩ := bind_eq_ok.mp hrun
  -- below the line
  have hstart : ({ lines := file } : LineOutcome).lines = file ++ [] := (List.append_nil file).symm
  obtain ⟨below, hbelow, hlowLines⟩ := run_within (by omega : n ≤ file.length)
    (fun e he => by
      obtain ⟨he, hlast⟩ := List.mem_filter.mp he
      have he := hmem.mp he
      exact ⟨le_place (hkept e he) (by simpa using hlast), (hfits e he).place_add_count_le⟩)
    (hsorted.filter _) hstart hlow
  have hline : file.take n = file.take (n - 1) ++ [anchor] := by
    conv_lhs => rw [← Nat.sub_add_cancel hpos, List.take_add_one, hanchor]
    rfl
  rw [List.append_nil, hline, List.append_assoc, List.singleton_append] at hlowLines
  -- at the line
  have htop : (file.take (n - 1)).length + 1 = n := by
    rw [List.length_take]
    omega
  have hmidLines := run_insertsBelow (fun e he => (List.mem_filter.mp he).2) hlowLines htop hmid
  have hhighLines := run_insertsAbove (fun e he => (List.mem_filter.mp he).2) hmidLines htop hhigh
  -- above the line
  obtain ⟨above, habove, hlines⟩ := run_within (Nat.zero_le _)
    (fun e he => by
      obtain ⟨he, hlast⟩ := List.mem_filter.mp he
      have hlt := place_add_count_lt (hfits e (hmem.mp he)) (by simpa using hlast)
      exact ⟨Nat.zero_le _, by omega⟩)
    (hsorted.filter _) hhighLines hrun
  exact ⟨above, below, habove.perm_edits (hperm _), hbelow.perm_edits (hperm _), hlines⟩

end TargetEdit

open LineRef TargetEdit in
/-- Inserts at a line that no edit replaces: what comes after the line stands right below it and what
comes before it right above it, the last block of the request on top. The other edits are one change
of the lines above and one of those below. Blocks that repeat no line they are put next to stay
whole. -/
theorem applyLineEdits_inserts {file : List Text} {given : List LineEdit} {edits : List TargetEdit}
    {n : Nat} {anchor : Text} (hread : given.mapM LineEdit.read = .ok edits)
    (hcurrent : ∀ e ∈ edits, e.Current file) (h : Separate edits) (hpos : 1 ≤ n)
    (hanchor : file[n - 1]? = some anchor) (hkept : ∀ e ∈ edits, e.replaces n = false) :
    ∃ done above below, applyLineEdits file given = .ok done ∧
      MadeWithin (file.take (n - 1)) 0 (edits.filter (·.target.last < n)) above ∧
      MadeWithin file n (edits.filter (n < ·.target.last)) below ∧
      done.lines = assemble (file.take (n - 1)) 0 (above.map MadeEdit.region) ++
        (stackAbove anchor (blocksAbove n edits) ++ anchor ::
          (stackBelow anchor (blocksBelow n edits) ++
            assemble file n (below.map MadeEdit.region))) ∧
      ((∀ block ∈ blocksBelow n edits, opensWith anchor block = false) →
        stackBelow anchor (blocksBelow n edits) = (blocksBelow n edits).reverse.flatten) ∧
      (([anchor] :: blocksAbove n edits).IsChain
          (fun under block => ∀ l ∈ under.head?, endsWith l block = false) →
        stackAbove anchor (blocksAbove n edits) = (blocksAbove n edits).reverse.flatten) := by
  have hfits : ∀ e ∈ edits, e.Fits file := fun e he => (hcurrent e he).toFits
  obtain ⟨done, hrun⟩ := mergeSort_run_eq_ok hfits fun x hx y hy => h.not_undercuts hfits hx hy
  obtain ⟨above, below, habove, hbelow, hlines⟩ := run_around hfits h hpos hanchor hkept hrun
  refine ⟨done, above, below, (applyLineEdits_of_current hread hcurrent).trans hrun, habove, hbelow,
    hlines, stackBelow_eq, stackAbove_eq fun block hblock => ?_⟩
  obtain ⟨e, he, rfl⟩ := List.mem_map.mp hblock
  obtain ⟨he, hinserts⟩ := List.mem_filter.mp he
  obtain ⟨ref, htarget, -⟩ := insertsAbove_iff.mp hinserts
  exact (hcurrent e he).inserts (by rw [htarget]; rfl)

open LineRef TargetEdit in
/-- Two inserts after and two before a line, with a line replaced on either side. -/
theorem applyLineEdits_inserts_four :
    ∃ done edits above below, applyLineEdits [['a'], ['b'], ['c']]
        [⟨"1:03a9".toList, ['A']⟩, ⟨"2:c19f..".toList, ['x']⟩, ⟨"..2:c19f".toList, ['p']⟩,
          ⟨"3:4670".toList, ['C']⟩, ⟨"2:c19f..".toList, ['y']⟩, ⟨"..2:c19f".toList, ['q']⟩] =
          .ok done ∧
      (∀ e ∈ edits, e.Current [['a'], ['b'], ['c']]) ∧ Separate edits ∧
      (∀ e ∈ edits, e.replaces 2 = false) ∧
      MadeWithin [['a']] 0 [⟨.single ⟨1, "03a9".toList⟩, [['A']]⟩] above ∧
      MadeWithin [['a'], ['b'], ['c']] 2 [⟨.single ⟨3, "4670".toList⟩, [['C']]⟩] below ∧
      done.lines = assemble [['a']] 0 (above.map MadeEdit.region) ++
        ([['q'], ['p'], ['b'], ['y'], ['x']] ++
          assemble [['a'], ['b'], ['c']] 2 (below.map MadeEdit.region)) := by
  let upper : TargetEdit := ⟨.single ⟨1, "03a9".toList⟩, [['A']]⟩
  let lower : TargetEdit := ⟨.single ⟨3, "4670".toList⟩, [['C']]⟩
  let after (c : Char) : TargetEdit := ⟨.after ⟨2, "c19f".toList⟩, [[c]]⟩
  let before (c : Char) : TargetEdit := ⟨.before ⟨2, "c19f".toList⟩, [[c]]⟩
  let edits := [upper, after 'x', before 'p', lower, after 'y', before 'q']
  have ha : LineRef.hashOf 1 ['a'] = "03a9".toList := by decide +kernel
  have hb : LineRef.hashOf 2 ['b'] = "c19f".toList := by decide +kernel
  have hc : LineRef.hashOf 3 ['c'] = "4670".toList := by decide +kernel
  have hread : [(⟨"1:03a9".toList, ['A']⟩ : LineEdit), ⟨"2:c19f..".toList, ['x']⟩,
      ⟨"..2:c19f".toList, ['p']⟩, ⟨"3:4670".toList, ['C']⟩, ⟨"2:c19f..".toList, ['y']⟩,
      ⟨"..2:c19f".toList, ['q']⟩].mapM LineEdit.read = .ok edits := by
    decide +kernel
  have hupper : upper.Current [['a'], ['b'], ['c']] :=
    ⟨⟨by decide, by decide, by decide⟩, by simp [upper, LineTarget.refs, ha], by decide⟩
  have hlower : lower.Current [['a'], ['b'], ['c']] :=
    ⟨⟨by decide, by decide, by decide⟩, by simp [lower, LineTarget.refs, hc], by decide⟩
  have hafter (c : Char) : (after c).Current [['a'], ['b'], ['c']] :=
    ⟨⟨Nat.le_succ 1, Nat.le_refl 2, Nat.le_succ 2⟩, by simp [after, LineTarget.refs, hb],
      by simp [after]⟩
  have hbefore (c : Char) : (before c).Current [['a'], ['b'], ['c']] :=
    ⟨⟨Nat.le_succ 1, Nat.le_refl 2, Nat.le_succ 2⟩, by simp [before, LineTarget.refs, hb],
      by simp [before]⟩
  have hcurrent : ∀ e ∈ edits, e.Current [['a'], ['b'], ['c']] := by
    simp [edits, hupper, hlower, hafter, hbefore]
  have hseparate : Separate edits := by
    refine ⟨?_, by decide, ?_⟩
    · have hsides : TargetEdit.Disjoint upper lower := fun line hline => by
        have hle := (replaces_eq_true.mp hline.1).2.2
        have hge := (replaces_eq_true.mp hline.2).2.1
        exact absurd (Nat.le_trans hge hle) (by decide)
      simpa [edits, TargetEdit.Disjoint, after, before, replaces, LineTarget.isInsertion] using hsides
    · simp [edits, upper, lower, after, before, LineTarget.first, LineTarget.isInsertion]
  obtain ⟨done, above, below, hdone, habove, hbelow, hlines, hstackBelow, hstackAbove⟩ :=
    applyLineEdits_inserts (n := 2) hread hcurrent hseparate (by decide) rfl (by decide)
  rw [hstackBelow (by decide), hstackAbove (by decide)] at hlines
  exact ⟨done, edits, above, below, hdone, hcurrent, hseparate, by decide, habove, hbelow, hlines⟩

open TargetEdit in
/-- Two inserts after one line stand in the opposite order. -/
theorem applyLineEdits_reverses_inserts :
    applyLineEdits [['a']] [⟨"1:03a9..".toList, ['x']⟩, ⟨"1:03a9..".toList, ['y']⟩] =
      .ok { lines := [['a'], ['y'], ['x']], firstChanged := some 2, added := 2, removed := 0 } := by
  let first : TargetEdit := ⟨.after ⟨1, "03a9".toList⟩, [['x']]⟩
  let second : TargetEdit := ⟨.after ⟨1, "03a9".toList⟩, [['y']]⟩
  have ha : LineRef.hashOf 1 ['a'] = "03a9".toList := by decide +kernel
  have hread : [(⟨"1:03a9..".toList, ['x']⟩ : LineEdit), ⟨"1:03a9..".toList, ['y']⟩].mapM
      LineEdit.read = .ok [first, second] := by
    decide +kernel
  have hcurrent : ∀ e ∈ [first, second], e.Current [['a']] := by
    intro e he
    rcases List.mem_pair.mp he with rfl | rfl
    · exact ⟨⟨by decide, by decide, by decide⟩, by simp [first, LineTarget.refs, ha], by decide⟩
    · exact ⟨⟨by decide, by decide, by decide⟩, by simp [second, LineTarget.refs, ha], by decide⟩
  have hrun : [first, second].mergeSort le = [first, second] :=
    List.mergeSort_of_pairwise (by decide)
  rw [applyLineEdits_of_current hread hcurrent, hrun]
  rfl

end LoosePatch
