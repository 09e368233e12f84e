import LoosePatch.Proofs.LineRef.Trace

/-!
What an edit writes depends on its own lines and on three things of the file: the line above its
place, the lines that give way, and the line below them (`MadeEdit.WrittenInto.block_eq`). Of its own
lines the first is dropped if it repeats the line above and the last if it repeats the line below.
So the line below decides no more than whether the last line is dropped
(`length_cutEcho_eq_iff`), and nothing is left only of two lines that repeat both neighbours
(`cutEcho_eq_nil_iff`).
-/

namespace LoosePatch

namespace LineRef

/-! ## Repeated neighbours -/

/-- Only lines that are several, and more than those they replace, are looked at. -/
def outgrows (count : Nat) (new : List Text) : Bool := 1 < new.length && count < new.length

/-- The first of the lines repeats the line above, if there is one. -/
def repeatsAbove (above : Option Text) (new : List Text) : Bool :=
  above.any fun line => new.head?.any (sameShape · line)

/-- The last of the lines repeats the line below, if there is one. -/
def repeatsBelow (below : Option Text) (new : List Text) : Bool :=
  below.any fun line => new.getLast?.any (sameShape · line)

/-- The lines without a first one that repeats the line above. -/
def cutFirst (above : Option Text) (count : Nat) (new : List Text) : List Text :=
  if outgrows count new && repeatsAbove above new then new.drop 1 else new

/-- Whether the last of the lines is dropped because it repeats the line below. -/
def dropsLast (above below : Option Text) (count : Nat) (new : List Text) : Bool :=
  outgrows count new && repeatsBelow below (cutFirst above count new)

/-- The lines that take the place of `count` others without those that repeat the lines around. -/
def cutEcho (above below : Option Text) (count : Nat) (new : List Text) : List Text :=
  if dropsLast above below count new then (cutFirst above count new).dropLast
  else cutFirst above count new

variable {above below below' : Option Text} {count first last : Nat}
  {file new cut : List Text}

theorem repeatsAbove_eq_true : repeatsAbove above new = true ↔
    ∃ line x, above = some line ∧ new.head? = some x ∧ x.withoutBlanks = line.withoutBlanks := by
  cases above <;> cases new <;> simp [repeatsAbove, sameShape_iff]

theorem repeatsBelow_eq_true : repeatsBelow below new = true ↔
    ∃ line x, below = some line ∧ new.getLast? = some x ∧ x.withoutBlanks = line.withoutBlanks := by
  cases below <;> cases h : new.getLast? <;> simp [repeatsBelow, sameShape_iff, h]

theorem outgrows_eq_true : outgrows count new = true ↔ 1 < new.length ∧ count < new.length := by
  simp [outgrows]

theorem dropEcho_eq_cutEcho (h : dropEcho file first last new = .ok cut) :
    cut = cutEcho (if 2 ≤ first then file[first - 2]? else none) file[last]? (last - first + 1) new := by
  unfold dropEcho at h
  split at h
  · rename_i hshort
    have hsmall : outgrows (last - first + 1) new = false := by
      rw [Bool.eq_false_iff, ne_eq, outgrows_eq_true]
      omega
    rw [cutEcho, dropsLast, cutFirst, hsmall, ← Except.ok.inj h]
    rfl
  · rename_i hlong
    extract_lets cutBelow at h
    have hbelow {lines : List Text} (hcut : cutBelow lines = .ok cut) :
        cut = if repeatsBelow file[last]? lines then lines.dropLast else lines := by
      cases Except.ok.inj hcut
      cases hline : file[last]? <;> cases hlast : lines.getLast? <;> simp [repeatsBelow, hlast]
    have hgrown : outgrows (last - first + 1) new = true := by
      rw [outgrows_eq_true]
      omega
    rw [cutEcho, dropsLast, cutFirst, hgrown, Bool.true_and, Bool.true_and]
    split at h
    · rename_i hfirst
      obtain ⟨line, hline, h⟩ := bind_eq_ok.mp h
      rw [if_pos hfirst, fetch_eq_ok.mp hline]
      exact hbelow h
    · rename_i hfirst
      rw [if_neg hfirst]
      exact hbelow h

theorem cutFirst_ne_nil (hne : new ≠ []) : cutFirst above count new ≠ [] := by
  unfold cutFirst
  split
  · rename_i hdrops
    obtain ⟨hseveral, -⟩ := outgrows_eq_true.mp (Bool.and_eq_true_iff.mp hdrops).1
    rw [← List.length_pos_iff, List.length_drop]
    omega
  · exact hne

theorem cutFirst_ne_nil_of_dropsLast (h : dropsLast above below count new = true) :
    cutFirst above count new ≠ [] := by
  obtain ⟨hseveral, -⟩ := outgrows_eq_true.mp (Bool.and_eq_true_iff.mp h).1
  exact cutFirst_ne_nil (List.length_pos_iff.mp (Nat.lt_of_succ_lt hseveral))

/-- The line below decides no more than whether the last line is dropped. -/
theorem length_cutEcho_eq_iff :
    (cutEcho above below count new).length = (cutEcho above below' count new).length ↔
      dropsLast above below count new = dropsLast above below' count new := by
  have hshorter {line : Option Text} (h : dropsLast above line count new = true) :
      (cutFirst above count new).dropLast.length < (cutFirst above count new).length := by
    have hpos := List.length_pos_iff.mpr (cutFirst_ne_nil_of_dropsLast h)
    rw [List.length_dropLast]
    omega
  unfold cutEcho
  cases h : dropsLast above below count new <;> cases h' : dropsLast above below' count new <;>
    simp only [Bool.false_eq_true, if_true, if_false, Bool.true_eq_false, iff_false]
  · have hlt := hshorter h'
    omega
  · have hlt := hshorter h
    omega

theorem cutEcho_congr (h : dropsLast above below count new = dropsLast above below' count new) :
    cutEcho above below count new = cutEcho above below' count new := by
  rw [cutEcho, cutEcho, h]

/-- Of some lines nothing is left only if they are two, in the place of one at most, that repeat the
line above and the line below. -/
theorem cutEcho_eq_nil_iff (hne : new ≠ []) :
    cutEcho above below count new = [] ↔ count ≤ 1 ∧ ∃ line x line' y, above = some line ∧
      below = some line' ∧ new = [x, y] ∧ x.withoutBlanks = line.withoutBlanks ∧
      y.withoutBlanks = line'.withoutBlanks := by
  constructor
  · intro h
    have hdrops : dropsLast above below count new = true := by
      by_contra hkept
      rw [cutEcho, if_neg hkept] at h
      exact cutFirst_ne_nil hne h
    obtain ⟨hgrown, hbelow⟩ := Bool.and_eq_true_iff.mp hdrops
    obtain ⟨hseveral, hcount⟩ := outgrows_eq_true.mp hgrown
    obtain ⟨line', y, hline', hlast, hy⟩ := repeatsBelow_eq_true.mp hbelow
    have hone := congrArg List.length h
    rw [cutEcho, if_pos hdrops, List.length_dropLast, List.length_nil] at hone
    -- the one line that was left is the second one: the first is dropped as well
    have habove : repeatsAbove above new = true := by
      by_contra hkept
      rw [cutFirst, hgrown, Bool.true_and, if_neg hkept] at hone
      omega
    obtain ⟨line, x, hline, hhead, hx⟩ := repeatsAbove_eq_true.mp habove
    rw [cutFirst, hgrown, habove, Bool.true_and, if_pos rfl] at hone hlast
    match new, hhead with
    | _ :: rest, rfl =>
      obtain ⟨z, rfl⟩ : ∃ z, rest = [z] := List.length_eq_one_iff.mp (by
        simp only [List.drop_succ_cons, List.drop_zero, List.length_cons] at hone hseveral
        omega)
      obtain rfl : z = y := by simpa using hlast
      exact ⟨Nat.le_of_lt_succ hcount, line, x, line', z, hline, hline', rfl, hx, hy⟩
  · rintro ⟨hcount, line, x, line', y, rfl, rfl, rfl, hx, hy⟩
    have hgrown : outgrows count [x, y] = true := outgrows_eq_true.mpr ⟨by simp, by simp; omega⟩
    have habove : repeatsAbove (some line) [x, y] = true :=
      repeatsAbove_eq_true.mpr ⟨line, x, rfl, rfl, hx⟩
    have hbelow : repeatsBelow (some line') [y] = true :=
      repeatsBelow_eq_true.mpr ⟨line', y, rfl, rfl, hy⟩
    have hcut : cutFirst (some line) count [x, y] = [y] := by
      rw [cutFirst, hgrown, habove]
      rfl
    rw [cutEcho, dropsLast, hgrown, hcut, hbelow]
    rfl

end LineRef

/-! ## What an edit looks at -/

namespace TargetEdit

variable {lines : List Text} {e : TargetEdit}

/-- The line above the place of an edit. An edit that inserts before a line does not look at it. -/
def upper (lines : List Text) (e : TargetEdit) : Option Text :=
  if e.target.rank = 2 ∨ e.place = 0 then none else lines[e.place - 1]?

/-- The line below the lines of an edit. An edit that inserts after a line does not look at it. -/
def lower (lines : List Text) (e : TargetEdit) : Option Text :=
  if e.target.rank = 0 then none else lines[e.place + e.count]?

/-- The lines that give way to those of an edit. -/
def own (lines : List Text) (e : TargetEdit) : List Text := (lines.drop e.place).take e.count

theorem upper_of_replacement (h : e.target.isInsertion = false) :
    e.upper lines = if 2 ≤ e.target.first then lines[e.target.first - 2]? else none := by
  have hrank := rank_of_replacement h
  have hplace := place_of_replacement h
  unfold upper
  by_cases hfirst : 2 ≤ e.target.first
  · rw [if_pos hfirst, if_neg (by omega), hplace]
    rfl
  · rw [if_neg hfirst, if_pos (by omega)]

theorem lower_of_replacement (h : e.target.isInsertion = false) (hpos : 1 ≤ e.target.first)
    (hle : e.target.first ≤ e.target.last) : e.lower lines = lines[e.target.last]? := by
  have hrank := rank_of_replacement h
  have hplace := place_of_replacement h
  have hcount : e.count = e.target.last - e.target.first + 1 := by simp [count, h]
  have hend : e.place + e.count = e.target.last := by omega
  rw [lower, if_neg (by omega), hend]

end TargetEdit

namespace LineRef

/-- There is no spacing to put back where no line gives way. -/
theorem keepSpacing_nil (new : List Text) : keepSpacing [] new = new := by
  cases new with
  | nil => rfl
  | cons line new =>
    rw [keepSpacing, if_neg (by simp)]
    exact List.map_id _

/-- What goes in after a line is compared with the line above only. -/
theorem cutEcho_above (line : Text) (new : List Text) :
    cutEcho (some line) none 0 new =
      if 1 < new.length && new.head?.any (sameShape · line) then new.drop 1 else new := by
  have hkept : dropsLast (some line) none 0 new = false := by simp [dropsLast, repeatsBelow]
  have hgrown : outgrows 0 new = decide (1 < new.length) := by
    simp only [outgrows, Bool.and_eq_left_iff_imp, decide_eq_true_eq]
    omega
  rw [cutEcho, hkept, cutFirst, hgrown]
  rfl

/-- What goes in before a line is compared with the line below only. -/
theorem cutEcho_below (line : Text) (new : List Text) :
    cutEcho none (some line) 0 new =
      if 1 < new.length && new.getLast?.any (sameShape · line) then new.dropLast else new := by
  have hfirst : cutFirst none 0 new = new := by simp [cutFirst, repeatsAbove]
  have hgrown : outgrows 0 new = decide (1 < new.length) := by
    simp only [outgrows, Bool.and_eq_left_iff_imp, decide_eq_true_eq]
    omega
  rw [cutEcho, dropsLast, hfirst, hgrown]
  rfl

end LineRef

open LineRef TargetEdit in
/-- The block of an edit: its lines without those that repeat the ones around, with the spacing of
the lines that give way. -/
theorem MadeEdit.WrittenInto.block_eq {lines : List Text} {m : MadeEdit} (h : m.WrittenInto lines)
    (hpos : 1 ≤ m.edit.target.first) (hle : m.edit.target.first ≤ m.edit.target.last) :
    m.block = keepSpacing (m.edit.own lines)
      (cutEcho (m.edit.upper lines) (m.edit.lower lines) m.edit.count m.edit.lines) := by
  obtain ⟨⟨target, new⟩, block⟩ := m
  cases target with
  | after ref =>
    obtain ⟨anchor, hanchor, h⟩ := bind_eq_ok.mp h
    have hne : ref.line ≠ 0 := Nat.ne_of_gt hpos
    have hupper : upper lines ⟨.after ref, new⟩ = some anchor := by
      simpa [upper, place, LineTarget.rank, hne] using fetch_eq_ok.mp hanchor
    have hlower : lower lines ⟨.after ref, new⟩ = none := rfl
    have hown : own lines ⟨.after ref, new⟩ = [] := rfl
    obtain ⟨-, -, hblock⟩ := Prod.mk.inj (Except.ok.inj h) |>.imp_right Prod.mk.inj
    rw [hupper, hlower, hown, keepSpacing_nil]
    exact hblock.symm.trans (cutEcho_above anchor new).symm
  | before ref =>
    obtain ⟨anchor, hanchor, h⟩ := bind_eq_ok.mp h
    have hupper : upper lines ⟨.before ref, new⟩ = none := rfl
    have hlower : lower lines ⟨.before ref, new⟩ = some anchor := fetch_eq_ok.mp hanchor
    have hown : own lines ⟨.before ref, new⟩ = [] := rfl
    obtain ⟨-, -, hblock⟩ := Prod.mk.inj (Except.ok.inj h) |>.imp_right Prod.mk.inj
    rw [hupper, hlower, hown, keepSpacing_nil]
    exact hblock.symm.trans (cutEcho_below anchor new).symm
  | single ref | range ref other =>
    obtain ⟨cut, hcut, h⟩ := bind_eq_ok.mp h
    obtain ⟨-, -, hblock⟩ := Prod.mk.inj (Except.ok.inj h) |>.imp_right Prod.mk.inj
    rw [upper_of_replacement rfl, lower_of_replacement rfl hpos hle]
    rw [dropEcho_eq_cutEcho hcut] at hblock
    exact hblock.symm

end LoosePatch
