import LoosePatch.Proofs.LineRef.Order
import Mathlib.Data.List.ReduceOption

/-!
What line edits leave alone. `LineOutcome.Keeps` says that an outcome is made of the lines that no
edit replaces, each once and in order, and of as many written lines as are counted. It holds whenever
no line is replaced twice (`applyLineEdits_keeps`), wherever lines are inserted.
-/

namespace LoosePatch

/-- The text at a place of the file; a line without a place was written by an edit. -/
def StandsIn (file : List Text) : Option Nat → Text → Prop
  | some place, text => file[place]? = some text
  | none, _ => True

/-- The lines of an outcome with their places in the file: of the file's lines those that no edit
replaces are there, each once and in order, and all others are the added ones. -/
structure LineOutcome.Keeps (file : List Text) (edits : List TargetEdit) (done : LineOutcome)
    (origins : List (Option Nat)) : Prop where
  stands : List.Forall₂ (StandsIn file) origins done.lines
  kept : origins.reduceOption =
    (List.range file.length).filter fun p => !edits.any (·.replaces (p + 1))
  written : origins.count none = done.added
  length_eq : done.lines.length + done.removed = file.length + done.added

namespace TargetEdit

variable {file : List Text} {past rest : List TargetEdit} {e : TargetEdit} {floor : Nat}
  {done done' : LineOutcome} {origins : List (Option Nat)}

/-- The lines that give way, counted from 0. -/
theorem replaces_succ (hfits : e.Fits file) {p : Nat} :
    e.replaces (p + 1) = true ↔ p ∈ List.range' e.place e.count := by
  rw [List.mem_range'_1]
  cases hinsertion : e.target.isInsertion with
  | true => simp [replaces_of_isInsertion hinsertion, count_of_isInsertion hinsertion]
  | false =>
    have hpos := hfits.first_pos
    rw [place_add_count hfits hinsertion, place_of_replacement hinsertion, replaces_eq_true]
    simp only [hinsertion, true_and]
    omega

theorem reduceOption_map_some (places : List Nat) : (places.map some).reduceOption = places := by
  rw [List.reduceOption, List.filterMap_map]
  exact List.filterMap_some

/-! ## One step -/

/-- An outcome on the way, with the lines above `floor` still as they were. -/
structure Progress (file : List Text) (past : List TargetEdit) (floor : Nat) (done : LineOutcome)
    (origins : List (Option Nat)) : Prop extends done.Keeps file past origins where
  floor_le : floor ≤ file.length
  above : origins.take floor = (List.range floor).map some

theorem progress_start (file : List Text) :
    Progress file [] file.length { lines := file } ((List.range file.length).map some) where
  stands := by
    refine List.forall₂_of_length_eq_of_get (by simp) fun i hi hi' => ?_
    simp only [List.get_eq_getElem, List.getElem_map, List.getElem_range]
    exact List.getElem?_eq_getElem hi'
  kept := by
    rw [reduceOption_map_some]
    exact (List.filter_eq_self.mpr fun p _ => rfl).symm
  written := List.count_eq_zero.mpr (by simp)
  length_eq := rfl
  floor_le := Nat.le_refl _
  above := List.take_of_length_le (by simp)

theorem Progress.floor_le_length (hp : Progress file past floor done origins) :
    floor ≤ origins.length := by
  have hlength := congrArg List.length hp.above
  simp only [List.length_take, List.length_map, List.length_range] at hlength
  omega

/-- What gives way are lines of the file that are still where they were. -/
theorem Progress.split (hp : Progress file past floor done origins) (hfits : e.Fits file)
    (hlast : e.target.isInsertion = false → e.target.last ≤ floor) :
    origins.take e.place ++ (List.range' e.place e.count).map some ++
      origins.drop (e.place + e.count) = origins := by
  have hmiddle : (origins.take (e.place + e.count)).drop e.place =
      (List.range' e.place e.count).map some := by
    cases hinsertion : e.target.isInsertion with
    | true => simp [count_of_isInsertion hinsertion]
    | false =>
      have hle := hlast hinsertion
      rw [← place_add_count hfits hinsertion] at hle
      have habove : origins.take (e.place + e.count) =
          (List.range (e.place + e.count)).map some := by
        rw [← Nat.min_eq_left hle, ← List.take_take, hp.above, ← List.map_take, List.take_range]
      rw [habove, ← List.map_drop, List.range_eq_range', List.drop_range', Nat.zero_add,
        Nat.mul_one, Nat.add_sub_cancel_left]
  have hfront : (origins.take (e.place + e.count)).take e.place = origins.take e.place := by
    rw [List.take_take, Nat.min_eq_left (Nat.le_add_right _ _)]
  rw [← hmiddle, ← hfront, List.take_append_drop, List.take_append_drop]

/-- The lines left over are those that neither the edit nor the ones before it replace. -/
theorem Progress.kept_splice (hp : Progress file past floor done origins) (hfits : e.Fits file)
    (hlast : e.target.isInsertion = false → e.target.last ≤ floor) (k : Nat) :
    (origins.take e.place ++ List.replicate k none ++
        origins.drop (e.place + e.count)).reduceOption =
      (List.range file.length).filter fun p => !(e :: past).any (·.replaces (p + 1)) := by
  let front := (origins.take e.place).reduceOption
  let back := (origins.drop (e.place + e.count)).reduceOption
  let gone := List.range' e.place e.count
  have hkept : front ++ gone ++ back =
      (List.range file.length).filter fun p => !past.any (·.replaces (p + 1)) := by
    have hsplit := congrArg List.reduceOption (hp.split hfits hlast)
    rwa [List.reduceOption_append, List.reduceOption_append, reduceOption_map_some,
      hp.kept] at hsplit
  have hnodup : (front ++ gone ++ back).Nodup := by
    rw [hkept]
    exact List.nodup_range.filter _
  obtain ⟨hfrontGone, -, hapart⟩ := List.nodup_append.mp hnodup
  obtain ⟨-, -, hapart'⟩ := List.nodup_append.mp hfrontGone
  have hstays (p : Nat) (hp : p ∉ gone) : (!e.replaces (p + 1)) = true := by
    rw [Bool.not_eq_true', Bool.eq_false_iff]
    exact mt (replaces_succ hfits).mp hp
  have hfront : front.filter (fun p => !e.replaces (p + 1)) = front :=
    List.filter_eq_self.mpr fun p hp => hstays p fun hgone => hapart' p hp p hgone rfl
  have hback : back.filter (fun p => !e.replaces (p + 1)) = back :=
    List.filter_eq_self.mpr fun p hp => hstays p fun hgone =>
      hapart p (List.mem_append_right _ hgone) p hp rfl
  have hgone : gone.filter (fun p => !e.replaces (p + 1)) = [] := by
    refine List.filter_eq_nil_iff.mpr fun p hp => ?_
    simp [(replaces_succ hfits).mpr hp]
  calc (origins.take e.place ++ List.replicate k none ++
        origins.drop (e.place + e.count)).reduceOption
      = front ++ back := by
        rw [List.reduceOption_append, List.reduceOption_append,
          List.reduceOption_replicate_none, List.append_nil]
    _ = (front ++ gone ++ back).filter fun p => !e.replaces (p + 1) := by
        rw [List.filter_append, List.filter_append, hfront, hgone, hback, List.append_nil]
    _ = _ := by
        rw [hkept, List.filter_filter]
        simp only [List.any_cons, Bool.not_or]

/-- A step changes nothing above its place. -/
theorem take_splice {β : Type} {lines : List β} (hfloor : floor ≤ lines.length) (new : List β)
    (place stop : Nat) :
    (lines.take place ++ new ++ lines.drop stop).take (min floor place) =
      (lines.take floor).take (min floor place) := by
  have hle : min floor place ≤ (lines.take place).length := by
    rw [List.length_take]
    omega
  rw [List.append_assoc, List.take_append_of_le_length hle, List.take_take, List.take_take]
  congr 1
  omega

/-- One edit on an outcome whose lines above the edit are still as they were. -/
theorem Progress.step (hp : Progress file past floor done origins) (hfits : e.Fits file)
    (hlast : e.target.isInsertion = false → e.target.last ≤ floor)
    (hstep : TargetEdit.step done e = .ok done') :
    ∃ origins', Progress file (e :: past) (min floor e.place) done' origins' := by
  obtain ⟨new, -, hlines, hadded, hremoved⟩ := step_eq_ok hstep
  have hsplit := hp.split hfits hlast
  have hlength := congrArg List.length hsplit
  have hsame := hp.stands.length_eq
  have hcounted := hp.length_eq
  refine ⟨origins.take e.place ++ List.replicate new.length none ++
    origins.drop (e.place + e.count), ?_⟩
  constructor
  · constructor
    · rw [hlines]
      refine List.rel_append (List.rel_append (List.forall₂_take _ hp.stands) ?_)
        (List.forall₂_drop _ hp.stands)
      exact List.forall₂_iff_get.mpr ⟨by simp, fun i hi hi' => by simp [StandsIn]⟩
    · exact hp.kept_splice hfits hlast new.length
    · have hcount := congrArg (List.count none) hsplit
      have hnone : ((List.range' e.place e.count).map some).count none = 0 := by
        simp [List.count_eq_zero]
      rw [List.count_append, List.count_append, hnone, hp.written] at hcount
      rw [List.count_append, List.count_append, List.count_replicate_self, hadded]
      omega
    · rw [hlines, hadded, hremoved]
      simp only [List.length_append, List.length_map, List.length_range', List.length_take,
        List.length_drop] at hlength ⊢
      omega
  · exact Nat.le_trans (Nat.min_le_left _ _) hp.floor_le
  · rw [take_splice hp.floor_le_length, hp.above, ← List.map_take, List.take_range,
      Nat.min_eq_left (Nat.min_le_left _ _)]

/-! ## A run -/

/-- A run of edits of which each is above the lines that those after it replace. -/
theorem Progress.run (hp : Progress file past floor done origins)
    (hfits : ∀ e ∈ rest, e.Fits file)
    (hlast : ∀ e ∈ rest, e.target.isInsertion = false → e.target.last ≤ floor)
    (hrest : rest.Pairwise fun x y => y.target.isInsertion = false → y.target.last ≤ x.place)
    (hrun : rest.foldlM TargetEdit.step done = .ok done') :
    ∃ floor' origins', Progress file (rest.reverse ++ past) floor' done' origins' := by
  induction rest generalizing past floor done origins with
  | nil =>
    cases Except.ok.inj hrun
    exact ⟨floor, origins, hp⟩
  | cons e rest ih =>
    rw [List.foldlM_cons] at hrun
    obtain ⟨next, hstep, hrun⟩ := bind_eq_ok.mp hrun
    obtain ⟨hbelow, hrest⟩ := List.pairwise_cons.mp hrest
    obtain ⟨origins', hp'⟩ :=
      hp.step (hfits e List.mem_cons_self) (hlast e List.mem_cons_self) hstep
    have hlast' : ∀ y ∈ rest, y.target.isInsertion = false →
        y.target.last ≤ min floor e.place := by
      intro y hy hreplaces
      exact Nat.le_min.mpr ⟨hlast y (List.mem_cons_of_mem e hy) hreplaces, hbelow y hy hreplaces⟩
    have hdone := ih hp' (fun y hy => hfits y (List.mem_cons_of_mem e hy)) hlast' hrest hrun
    rwa [List.reverse_cons, List.append_assoc, List.singleton_append]

/-- Whatever edits do, the lines above all of them stay as they are. -/
theorem run_take {n : Nat} (habove : ∀ e ∈ rest, n ≤ e.place) (hn : n ≤ done.lines.length)
    (hrun : rest.foldlM TargetEdit.step done = .ok done') :
    done'.lines.take n = done.lines.take n := by
  induction rest generalizing done with
  | nil =>
    cases Except.ok.inj hrun
    rfl
  | cons e rest ih =>
    rw [List.foldlM_cons] at hrun
    obtain ⟨next, hstep, hrun⟩ := bind_eq_ok.mp hrun
    obtain ⟨new, -, hlines, -⟩ := step_eq_ok hstep
    have hplace := habove e List.mem_cons_self
    have htake := take_splice hn new e.place (e.place + e.count)
    rw [Nat.min_eq_left hplace, List.take_take, Nat.min_self, ← hlines] at htake
    have hlength := congrArg List.length htake
    rw [List.length_take, List.length_take, Nat.min_eq_left hn] at hlength
    rw [ih (fun y hy => habove y (List.mem_cons_of_mem e hy)) (by omega) hrun, htake]

end TargetEdit

open TargetEdit in
/-- Accepted edits change nothing above the first of them; and if no line is replaced twice, they
keep every line that none of them replaces, wherever they insert. -/
theorem applyLineEdits_keeps {file : List Text} {edits : List LineEdit} {done : LineOutcome}
    (h : applyLineEdits file edits = .ok done) :
    ∃ read, edits.mapM LineEdit.read = .ok read ∧
      (∀ n, (∀ e ∈ read, n ≤ e.place) → done.lines.take n = file.take n) ∧
      (read.Pairwise TargetEdit.Disjoint → ∃ origins, done.Keeps file read origins) := by
  obtain ⟨read, hread, hcheck, hrun⟩ := applyLineEdits_eq_ok.mp h
  have hfits := fits_of_read hread hcheck
  have hperm : (read.mergeSort le).Perm read := List.mergeSort_perm _ _
  have hfits' : ∀ e ∈ read.mergeSort le, e.Fits file := fun e he => hfits e (hperm.mem_iff.mp he)
  refine ⟨read, hread, ?_, ?_⟩
  · intro n habove
    cases read with
    | nil =>
      rw [List.mergeSort_nil] at hrun
      cases Except.ok.inj hrun
      rfl
    | cons e rest =>
      have hplace : e.place ≤ file.length := (hfits e List.mem_cons_self).place_le
      have hn := habove e List.mem_cons_self
      exact run_take (fun y hy => habove y (hperm.mem_iff.mp hy)) (Nat.le_trans hn hplace) hrun
  · intro hdisjoint
    have hsorted : (read.mergeSort le).Pairwise fun x y =>
        y.target.isInsertion = false → y.target.last ≤ x.place := by
      have hdisjoint' := hperm.symm.pairwise hdisjoint TargetEdit.Disjoint.symm
      refine ((pairwise_mergeSort_le read).and hdisjoint').imp_of_mem fun hx hy hxy => ?_
      exact last_le_place hxy.1 hxy.2 (hfits' _ hx) (hfits' _ hy)
    obtain ⟨floor, origins, hp⟩ := (progress_start file).run hfits'
      (fun e he _ => (hfits' e he).last_le) hsorted hrun
    refine ⟨origins, hp.stands, ?_, hp.written, hp.length_eq⟩
    rw [hp.kept, List.append_nil]
    refine List.filter_congr fun p _ => ?_
    rw [List.any_reverse, hperm.any_eq]

open TargetEdit in
/-- Two lines replaced, and a line inserted after the first of them. -/
theorem applyLineEdits_keeps_insert_inside :
    ∃ done read, applyLineEdits [['a'], ['b'], ['c']]
        [⟨"2:c19f..3:4670".toList, ['x']⟩, ⟨"2:c19f..".toList, ['y']⟩] = .ok done ∧
      done.lines = [['a'], ['x'], ['y']] ∧ done.lines.take 1 = [['a']] ∧
      read.Pairwise TargetEdit.Disjoint ∧ ∃ origins, done.Keeps [['a'], ['b'], ['c']] read origins := by
  let range : TargetEdit := ⟨.range ⟨2, "c19f".toList⟩ ⟨3, "4670".toList⟩, [['x']]⟩
  let after : TargetEdit := ⟨.after ⟨2, "c19f".toList⟩, [['y']]⟩
  have hb : LineRef.hashOf 2 ['b'] = "c19f".toList := by decide +kernel
  have hc : LineRef.hashOf 3 ['c'] = "4670".toList := by decide +kernel
  have hread : [(⟨"2:c19f..3:4670".toList, ['x']⟩ : LineEdit),
      ⟨"2:c19f..".toList, ['y']⟩].mapM LineEdit.read = .ok [range, after] := by
    decide +kernel
  have hcurrent : ∀ e ∈ [range, after], e.Current [['a'], ['b'], ['c']] := by
    intro e he
    rcases List.mem_pair.mp he with rfl | rfl
    · exact ⟨⟨by decide, by decide, by decide⟩, by simp [range, LineTarget.refs, hb, hc], by decide⟩
    · exact ⟨⟨by decide, by decide, by decide⟩, by simp [after, LineTarget.refs, hb], by decide⟩
  have hrun : [range, after].mergeSort le = [range, after] :=
    List.mergeSort_of_pairwise (by decide)
  have happlied := applyLineEdits_of_current hread hcurrent
  rw [hrun] at happlied
  obtain ⟨read, hread', habove, hkeeps⟩ := applyLineEdits_keeps happlied
  obtain rfl : [range, after] = read := Except.ok.inj (hread.symm.trans hread')
  have hdisjoint : [range, after].Pairwise TargetEdit.Disjoint := by
    refine List.pairwise_pair.mpr fun line hline => ?_
    simp [replaces, after, LineTarget.isInsertion] at hline
  refine ⟨_, _, happlied, rfl, habove 1 ?_, hdisjoint, hkeeps hdisjoint⟩
  decide

open TargetEdit in
/-- Deleting a line twice deletes the line below it as well. -/
theorem applyLineEdits_deletes_below :
    ∃ done read, applyLineEdits [['a'], ['b']]
        [⟨"1:03a9".toList, []⟩, ⟨"1:03a9".toList, []⟩] = .ok done ∧
      [(⟨"1:03a9".toList, []⟩ : LineEdit), ⟨"1:03a9".toList, []⟩].mapM LineEdit.read = .ok read ∧
      (∀ e ∈ read, e.replaces 2 = false) ∧ ['b'] ∉ done.lines ∧
      ¬ ∃ origins, done.Keeps [['a'], ['b']] read origins := by
  let delete : TargetEdit := ⟨.single ⟨1, "03a9".toList⟩, []⟩
  have ha : LineRef.hashOf 1 ['a'] = "03a9".toList := by decide +kernel
  have hread : [(⟨"1:03a9".toList, []⟩ : LineEdit), ⟨"1:03a9".toList, []⟩].mapM LineEdit.read =
      .ok [delete, delete] := by
    decide +kernel
  have hcurrent : ∀ e ∈ [delete, delete], e.Current [['a'], ['b']] := by
    intro e he
    obtain rfl : e = delete := by simpa using he
    exact ⟨⟨by decide, by decide, by decide⟩, by simp [delete, LineTarget.refs, ha], by decide⟩
  have hrun : [delete, delete].mergeSort le = [delete, delete] :=
    List.mergeSort_of_pairwise (by decide)
  have happlied := applyLineEdits_of_current hread hcurrent
  rw [hrun] at happlied
  refine ⟨_, _, happlied, hread, by decide, by decide, ?_⟩
  rintro ⟨origins, hkeeps⟩
  -- The second line would have to be kept, but the outcome has no lines.
  have hnone : origins = [] := List.forall₂_nil_right_iff.mp hkeeps.stands
  have hkept := hkeeps.kept
  rw [hnone] at hkept
  revert hkept
  decide

end LoosePatch
