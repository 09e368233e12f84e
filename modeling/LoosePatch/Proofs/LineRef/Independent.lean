import LoosePatch.Proofs.LineRef.Inserts
import LoosePatch.Proofs.LineRef.Surroundings

/-!
Edits on different lines, compared with each of them alone. What stands above an edit when it is made
is the file as it was, and so are the lines it replaces; what stands below it is what the edits further
down have left. A replacement is compared with that line, so that it can lose its last line, or keep
it, because of another edit. In all other respects an edit writes what it writes alone
(`applyLineEdits_independent`).
-/

namespace LoosePatch

/-- The first line that is left below is the one of the file if no region starts there. -/
theorem head?_assemble {β : Type} {lines : List β} {cursor : Nat} {rs : List (Region β)}
    (hrs : Stacked lines.length cursor rs) (h : ∀ r ∈ rs.head?, cursor < r.start) :
    (assemble lines cursor rs).head? = lines[cursor]? := by
  cases hrs with
  | nil _ => exact List.head?_drop
  | @cons _ r rs hstart hstop hrest =>
    have hlt : cursor < r.start := h r rfl
    have hin : r.start ≤ lines.length := Nat.le_trans hstop hrest.cursor_le
    have hslice : (Splice.slice lines cursor r.start).head? = lines[cursor]? := by
      rw [Splice.slice, List.head?_drop, List.getElem?_take_of_lt hlt]
    rw [assemble, List.append_assoc, List.head?_append_of_ne_nil, hslice]
    intro hnil
    rw [hnil, List.head?_nil, eq_comm, List.getElem?_eq_none_iff] at hslice
    omega

namespace TargetEdit

variable {file rest : List Text} {edits : List TargetEdit} {e x y : TargetEdit}
  {m : MadeEdit} {made before after below : List MadeEdit} {done : LineOutcome}

theorem mem_of_made (hmade : made.map MadeEdit.edit = edits.mergeSort le) (hm : m ∈ made) :
    m.edit ∈ edits := by
  have hsorted : m.edit ∈ edits.mergeSort le := hmade ▸ List.mem_map_of_mem hm
  exact List.mem_mergeSort.mp hsorted

/-! ## What an edit finds -/

/-- The line below an edit when those further down are made. -/
def lowerAmong (file : List Text) (below : List MadeEdit) (e : TargetEdit) : Option Text :=
  if e.target.rank = 0 then none
  else (assemble file (e.place + e.count) (below.map MadeEdit.region)).head?

theorem upper_take_append (hend : e.place + e.count ≤ file.length) :
    e.upper (file.take (e.place + e.count) ++ rest) = e.upper file := by
  have hlength : (file.take (e.place + e.count)).length = e.place + e.count :=
    List.length_take_of_le hend
  unfold upper
  split
  · rfl
  · rw [List.getElem?_append_left (by omega), List.getElem?_take_of_lt (by omega)]

theorem own_take_append (hend : e.place + e.count ≤ file.length) :
    e.own (file.take (e.place + e.count) ++ rest) = e.own file := by
  have hlength : ((file.take (e.place + e.count)).drop e.place).length = e.count := by
    rw [List.length_drop, List.length_take_of_le hend, Nat.add_sub_cancel_left]
  have hplace : e.place ≤ (file.take (e.place + e.count)).length := by
    rw [List.length_take_of_le hend]
    exact Nat.le_add_right _ _
  rw [own, List.drop_append_of_le_length hplace, List.take_left' hlength, List.drop_take,
    Nat.add_sub_cancel_left, own]

theorem lower_take_append (hend : e.place + e.count ≤ file.length) :
    e.lower (file.take (e.place + e.count) ++ rest) =
      if e.target.rank = 0 then none else rest.head? := by
  have hlength : (file.take (e.place + e.count)).length = e.place + e.count :=
    List.length_take_of_le hend
  rw [lower, List.getElem?_append_right hlength.le, hlength, Nat.sub_self, List.head?_eq_getElem?]

theorem lowerAmong_eq_lower (hbelow : Stacked file.length (e.place + e.count) (below.map MadeEdit.region))
    (h : e.target.rank = 0 ∨ ∀ b ∈ below.head?, e.place + e.count < b.edit.place) :
    e.lowerAmong file below = e.lower file := by
  rw [lowerAmong, lower]
  split
  · rfl
  · rename_i hrank
    refine head?_assemble hbelow fun r hr => ?_
    rw [List.head?_map] at hr
    obtain ⟨b, hb, rfl⟩ := Option.map_eq_some_iff.mp hr
    exact h.resolve_left hrank b hb

/-- The edits below are made first; each edit finds the file above and what they have left. -/
theorem Separate.lines_below (h : Separate edits) (hfits : ∀ e ∈ edits, e.Fits file)
    (hmade : (before ++ m :: after).map MadeEdit.edit = edits.mergeSort le) :
    Stacked file.length (m.edit.place + m.edit.count) (before.reverse.map MadeEdit.region) ∧
      (before.foldl LineOutcome.make { lines := file }).lines =
        file.take (m.edit.place + m.edit.count) ++
          assemble file (m.edit.place + m.edit.count) (before.reverse.map MadeEdit.region) := by
  have hsorted : ((before ++ m :: after).map MadeEdit.edit).Pairwise
      fun x y => y.place + y.count ≤ x.place := hmade ▸ h.pairwise_mergeSort hfits
  have hfit : ∀ m' ∈ before ++ m :: after, m'.edit.Fits file :=
    fun m' hm' => hfits m'.edit (mem_of_made hmade hm')
  rw [List.map_append, List.map_cons] at hsorted
  obtain ⟨hbefore, -, habove⟩ := List.pairwise_append.mp hsorted
  have hstacked : Stacked file.length (m.edit.place + m.edit.count)
      (before.reverse.map MadeEdit.region) := by
    refine TargetEdit.stacked_reverse (hfit m (by simp)).place_add_count_le (fun e he => ?_) hbefore
    obtain ⟨b, hb, rfl⟩ := List.mem_map.mp he
    exact ⟨habove b.edit he m.edit List.mem_cons_self,
      (hfit b (List.mem_append_left _ hb)).place_add_count_le⟩
  exact ⟨hstacked, LineOutcome.lines_foldl_make_of_stacked hstacked⟩

open LineRef in
/-- What an edit writes among others: the line below it is all that they can change for it. -/
theorem Separate.block_eq (h : Separate edits) (hfits : ∀ e ∈ edits, e.Fits file)
    (hmade : (before ++ m :: after).map MadeEdit.edit = edits.mergeSort le)
    (hmakes : Makes { lines := file } (before ++ m :: after) done) :
    m.block = keepSpacing (m.edit.own file) (cutEcho (m.edit.upper file)
      (m.edit.lowerAmong file before.reverse) m.edit.count m.edit.lines) := by
  have hfit : m.edit.Fits file := hfits m.edit (mem_of_made hmade (by simp))
  have hend := hfit.place_add_count_le
  obtain ⟨mid, hbefore, hwritten, -⟩ := hmakes.split
  rw [hbefore.eq_foldl] at hwritten
  rw [hwritten.block_eq hfit.first_pos hfit.first_le_last, (h.lines_below hfits hmade).2,
    upper_take_append hend, own_take_append hend, lower_take_append hend, lowerAmong]

open LineRef in
/-- An edit among others writes what it writes alone exactly if the line that is left below it decides
the same about its last line. -/
theorem Separate.block_eq_iff {block : List Text} (h : Separate edits)
    (hfits : ∀ e ∈ edits, e.Fits file)
    (hmade : (before ++ m :: after).map MadeEdit.edit = edits.mergeSort le)
    (hmakes : Makes { lines := file } (before ++ m :: after) done)
    (halone : MadeEdit.WrittenInto file ⟨m.edit, block⟩) :
    m.block = block ↔
      dropsLast (m.edit.upper file) (m.edit.lowerAmong file before.reverse) m.edit.count
          m.edit.lines =
        dropsLast (m.edit.upper file) (m.edit.lower file) m.edit.count m.edit.lines := by
  have hfit : m.edit.Fits file := hfits m.edit (mem_of_made hmade (by simp))
  have hblock := halone.block_eq hfit.first_pos hfit.first_le_last
  rw [h.block_eq hfits hmade hmakes]
  constructor
  · intro heq
    have hlength := congrArg List.length (heq.trans hblock)
    rw [← (keepSpacing_shapes _ _).length_eq, ← (keepSpacing_shapes _ _).length_eq] at hlength
    exact length_cutEcho_eq_iff.mp hlength
  · intro hdrops
    rw [cutEcho_congr hdrops]
    exact hblock.symm

/-! ## Different lines -/

/-- The edits name different lines. -/
def LinesApart (x y : TargetEdit) : Prop :=
  x.target.last < y.target.first ∨ y.target.last < x.target.first

theorem LinesApart.symm (h : LinesApart x y) : LinesApart y x := Or.symm h

theorem separate_of_linesApart (hfits : ∀ e ∈ edits, e.Fits file) (h : edits.Pairwise LinesApart) :
    Separate edits := by
  have hsymm : Std.Symm LinesApart := ⟨fun _ _ => LinesApart.symm⟩
  have hkinds {x y : TargetEdit} (hx : x ∈ edits) (hy : y ∈ edits)
      (hxi : x.target.isInsertion = true) (hyi : y.target.isInsertion = false) : LinesApart x y := by
    refine h.forall hx hy ?_
    rintro rfl
    rw [hxi] at hyi
    cases hyi
  refine ⟨h.imp fun {x y} hxy line hline => ?_, fun x hx y hy hxi hyi => ?_,
    fun x hx y hy ref hbefore hyi => ?_⟩
  · obtain ⟨-, hxfirst, hxlast⟩ := replaces_eq_true.mp hline.1
    obtain ⟨-, hyfirst, hylast⟩ := replaces_eq_true.mp hline.2
    rcases hxy with hxy | hxy <;> omega
  · have hone := first_eq_last_of_insertion hxi
    rcases hkinds hx hy hxi hyi with hxy | hxy <;>
      rcases place_of_insertion hxi with ⟨-, hplace⟩ | ⟨-, -, hplace⟩ <;> omega
  · have hxi : x.target.isInsertion = true := by rw [hbefore]; rfl
    have hfirst : x.target.first = ref.line := by rw [hbefore]; rfl
    have hlast : x.target.last = ref.line := by rw [hbefore]; rfl
    have hlines := (hfits y hy).first_le_last
    rcases hkinds hx hy hxi hyi with hxy | hxy <;> omega

/-- No line is left out between an edit that inserts before a line and the edits further down. -/
theorem lt_place_of_linesApart (hle : le y x = true) (hx : x.Fits file) (hy : y.Fits file)
    (h : LinesApart y x) (hrank : x.target.rank = 2) : x.place + x.count < y.place := by
  have hinsertion : x.target.isInsertion = true := by
    cases htarget : x.target <;> simp [htarget, LineTarget.rank, LineTarget.isInsertion] at hrank ⊢
  have hone := first_eq_last_of_insertion hinsertion
  have hxpos := hx.first_pos
  have hylines := hy.first_le_last
  have hlast := last_le_last hle
  have hplace : x.place = x.target.last - 1 := by
    rcases place_of_insertion hinsertion with ⟨hrank', -⟩ | ⟨-, -, hplace⟩
    · omega
    · exact hplace
  rw [count_of_isInsertion hinsertion]
  cases hyi : y.target.isInsertion with
  | false =>
    rw [place_of_replacement hyi]
    rcases h with h | h <;> omega
  | true =>
    have hyone := first_eq_last_of_insertion hyi
    rcases h with h | h <;>
      rcases place_of_insertion hyi with ⟨-, hyplace⟩ | ⟨-, -, hyplace⟩ <;> omega

/-- The edits below an insert leave the line it is compared with. -/
theorem rank_or_lt_place (hfits : ∀ e ∈ edits, e.Fits file) (h : edits.Pairwise LinesApart)
    (hmade : (before ++ m :: after).map MadeEdit.edit = edits.mergeSort le)
    (hinsertion : m.edit.target.isInsertion = true) :
    m.edit.target.rank = 0 ∨ ∀ b ∈ before.reverse.head?, m.edit.place + m.edit.count < b.edit.place := by
  rcases place_of_insertion hinsertion with ⟨hrank, -⟩ | ⟨-, hrank, -⟩
  · exact .inl hrank
  · refine .inr fun b hb => ?_
    have hb' : b ∈ before := List.mem_reverse.mp (List.mem_of_head? hb)
    have hperm : (edits.mergeSort le).Perm edits := List.mergeSort_perm _ _
    have hpairs : ((before ++ m :: after).map MadeEdit.edit).Pairwise
        fun x y => le x y = true ∧ LinesApart x y := by
      rw [hmade]
      exact (pairwise_mergeSort_le edits).and (hperm.symm.pairwise h LinesApart.symm)
    rw [List.map_append, List.map_cons] at hpairs
    obtain ⟨hle, hlines⟩ := (List.pairwise_append.mp hpairs).2.2 b.edit
      (List.mem_map_of_mem hb') m.edit List.mem_cons_self
    exact lt_place_of_linesApart hle (hfits m.edit (mem_of_made hmade (by simp)))
      (hfits b.edit (mem_of_made hmade (List.mem_append_left _ hb'))) hlines hrank

end TargetEdit

open LineRef TargetEdit in
/-- Edits on different lines are one change. An edit writes what it writes alone exactly if the line
that the others have left below it decides the same about its last line as the line of the file does.
It does for an insert, and for a replacement with no other edit right below it. -/
theorem applyLineEdits_independent {file : List Text} {given : List LineEdit}
    {edits : List TargetEdit} (hread : given.mapM LineEdit.read = .ok edits)
    (hcurrent : ∀ e ∈ edits, e.Current file) (h : edits.Pairwise LinesApart) :
    ∃ done made, applyLineEdits file given = .ok done ∧ MadeWithin file 0 edits made ∧
      done.lines = assemble file 0 (made.map MadeEdit.region) ∧
      ∀ above m below, made = above ++ m :: below → ∃ g ∈ given, ∃ alone block,
        g.read = .ok m.edit ∧ applyLineEdits file [g] = .ok alone ∧
        alone.lines = file.take m.edit.place ++ block ++ file.drop (m.edit.place + m.edit.count) ∧
        (m.block = block ↔
          dropsLast (m.edit.upper file) (m.edit.lowerAmong file below) m.edit.count m.edit.lines =
            dropsLast (m.edit.upper file) (m.edit.lower file) m.edit.count m.edit.lines) ∧
        (m.edit.target.isInsertion = true ∨
          (∀ b ∈ below.head?, m.edit.place + m.edit.count < b.edit.place) → m.block = block) := by
  have hfits : ∀ e ∈ edits, e.Fits file := fun e he => (hcurrent e he).toFits
  have hseparate := separate_of_linesApart hfits h
  obtain ⟨done, made, hdone, hmade, hmakes⟩ := hseparate.applyLineEdits_makes hread hcurrent
  have hstacked := hseparate.stacked_reverse hfits hmade
  refine ⟨done, made.reverse, hdone, ⟨?_, ?_, hstacked⟩, ?_, fun above m below hsplit => ?_⟩
  · rw [List.map_reverse, hmade]
    exact (List.reverse_perm _).trans (List.mergeSort_perm _ _)
  · exact fun m hm => hmakes.blocks m (List.mem_reverse.mp hm)
  · rw [hmakes.eq_foldl, LineOutcome.lines_foldl_make_of_stacked hstacked, List.take_zero,
      List.nil_append]
  · obtain rfl : made = below.reverse ++ m :: above.reverse := by
      rw [← List.reverse_reverse made, hsplit]
      simp
    have hedit : m.edit ∈ edits := mem_of_made hmade (by simp)
    obtain ⟨g, hg, hgread⟩ := exists_mem_of_forall₂ (mapM_eq_ok.mp hread) hedit
    obtain ⟨block, hwritten, halone⟩ := applyLineEdits_alone hgread (hcurrent _ hedit)
    have hsame := hseparate.block_eq_iff hfits hmade hmakes hwritten
    have hbelow := (hseparate.lines_below hfits hmade).1
    have hinsert := rank_or_lt_place hfits h hmade
    rw [List.reverse_reverse] at hsame hbelow hinsert
    refine ⟨g, hg, _, block, hgread, halone, LineOutcome.lines_make _ _, hsame, fun hapart => ?_⟩
    have hlower := lowerAmong_eq_lower hbelow (hapart.elim hinsert .inr)
    exact hsame.mpr (congrArg (dropsLast _ · _ _) hlower)

open TargetEdit in
/-- A line replaced and one inserted two lines above it. -/
theorem applyLineEdits_independent_two :
    let given : List LineEdit := [⟨"3:4670".toList, "y\nz".toList⟩, ⟨"1:03a9..".toList, ['x']⟩]
    ∃ done edits made, applyLineEdits [['a'], ['b'], ['c']] given = .ok done ∧
      given.mapM LineEdit.read = .ok edits ∧ (∀ e ∈ edits, e.Current [['a'], ['b'], ['c']]) ∧
      edits.Pairwise LinesApart ∧
      done.lines = assemble [['a'], ['b'], ['c']] 0 (made.map MadeEdit.region) ∧
      ∀ above m below, made = above ++ m :: below → m.edit.target.isInsertion = true ∨ below = [] →
        ∃ g ∈ given, ∃ alone, applyLineEdits [['a'], ['b'], ['c']] [g] = .ok alone ∧
          alone.lines = [['a'], ['b'], ['c']].take m.edit.place ++ m.block ++
            [['a'], ['b'], ['c']].drop (m.edit.place + m.edit.count) := by
  intro given
  let lower : TargetEdit := ⟨.single ⟨3, "4670".toList⟩, [['y'], ['z']]⟩
  let upper : TargetEdit := ⟨.after ⟨1, "03a9".toList⟩, [['x']]⟩
  have ha : LineRef.hashOf 1 ['a'] = "03a9".toList := by decide +kernel
  have hc : LineRef.hashOf 3 ['c'] = "4670".toList := by decide +kernel
  have hread : given.mapM LineEdit.read = .ok [lower, upper] := by decide +kernel
  have hcurrent : ∀ e ∈ [lower, upper], e.Current [['a'], ['b'], ['c']] := by
    intro e he
    rcases List.mem_pair.mp he with rfl | rfl
    · exact ⟨⟨by decide, by decide, by decide⟩, by simp [lower, LineTarget.refs, hc], by decide⟩
    · exact ⟨⟨by decide, by decide, by decide⟩, by simp [upper, LineTarget.refs, ha], by decide⟩
  have hapart : [lower, upper].Pairwise LinesApart :=
    List.pairwise_pair.mpr (.inr (by decide))
  obtain ⟨done, made, hdone, -, hlines, hblocks⟩ :=
    applyLineEdits_independent hread hcurrent hapart
  refine ⟨done, _, made, hdone, hread, hcurrent, hapart, hlines, fun above m below hmade hm => ?_⟩
  obtain ⟨g, hg, alone, block, -, halone, hline, -, hsame⟩ := hblocks above m below hmade
  have hblock : m.block = block := hsame (hm.imp_right fun hnil => by simp [hnil])
  exact ⟨g, hg, alone, halone, hblock ▸ hline⟩

/-- The line that one edit writes is dropped as a repeated one because the edit below it writes the
same. -/
theorem applyLineEdits_drops_written :
    let first : LineEdit := ⟨"1:03a9".toList, "a\nx".toList⟩
    let second : LineEdit := ⟨"2:c19f".toList, ['x']⟩
    applyLineEdits [['a'], ['b'], ['c']] [first] = .ok {
        lines := [['a'], ['x'], ['b'], ['c']], firstChanged := some 1, added := 2, removed := 1 } ∧
      applyLineEdits [['a'], ['b'], ['c']] [second] = .ok {
        lines := [['a'], ['x'], ['c']], firstChanged := some 2, added := 1, removed := 1 } ∧
      applyLineEdits [['a'], ['b'], ['c']] [first, second] = .ok {
        lines := [['a'], ['x'], ['c']], firstChanged := some 1, added := 2, removed := 2 } := by
  intro first second
  let upper : TargetEdit := ⟨.single ⟨1, "03a9".toList⟩, [['a'], ['x']]⟩
  let lower : TargetEdit := ⟨.single ⟨2, "c19f".toList⟩, [['x']]⟩
  have ha : LineRef.hashOf 1 ['a'] = "03a9".toList := by decide +kernel
  have hb : LineRef.hashOf 2 ['b'] = "c19f".toList := by decide +kernel
  have hupper : upper.Current [['a'], ['b'], ['c']] :=
    ⟨⟨by decide, by decide, by decide⟩, by simp [upper, LineTarget.refs, ha], by decide⟩
  have hlower : lower.Current [['a'], ['b'], ['c']] :=
    ⟨⟨by decide, by decide, by decide⟩, by simp [lower, LineTarget.refs, hb], by decide⟩
  have hreadFirst : first.read = .ok upper := by decide +kernel
  have hreadSecond : second.read = .ok lower := by decide +kernel
  have hread : [first, second].mapM LineEdit.read = .ok [upper, lower] := by decide +kernel
  have hdistinct : ∀ x ∈ [upper, lower], ∀ y ∈ [lower, upper],
      TargetEdit.le x y = true → TargetEdit.le y x = true → x = y := by decide
  have hrun : [upper, lower].mergeSort TargetEdit.le = [lower, upper] :=
    List.Perm.eq_of_pairwise (fun x y hx hy => hdistinct x (List.mem_mergeSort.mp hx) y hy)
      (TargetEdit.pairwise_mergeSort_le _) (by decide) ((List.mergeSort_perm _ _).trans (.swap _ _ _))
  refine ⟨?_, ?_, ?_⟩
  · rw [applyLineEdits_single hreadFirst hupper]
    rfl
  · rw [applyLineEdits_single hreadSecond hlower]
    rfl
  · rw [applyLineEdits_of_current hread (by simp [hupper, hlower]), hrun]
    rfl

end LoosePatch
