import LoosePatch.Proofs.Hunk.Numbered
import LoosePatch.Proofs.Splice.Regions
import Mathlib.Data.List.Nodup

/-!
How many lines a result has. Its origins are file lines and added lines, each once, so that their
number follows from the lists of edits (`length_of_origins`).
-/

namespace LoosePatch

/-! ## Edits of many hunks -/

/-- The edits of some kind of all hunks, each as the number of its hunk and its own. -/
def editsWhere (kind : Edit → Bool) (hunks : List Hunk) : List (Nat × Nat) :=
  hunks.zipIdx.flatMap fun (hunk, h) =>
    (hunk.edits.zipIdx.filter fun x => kind x.1).map fun x => (h, x.2)

theorem mem_editsWhere {kind : Edit → Bool} {hunks : List Hunk} {h i : Nat} :
    (h, i) ∈ editsWhere kind hunks ↔ ∃ e, editAt? hunks h i = some e ∧ kind e = true := by
  simp only [editsWhere, List.mem_flatMap, Prod.exists, List.mem_map, List.mem_filter,
    List.mem_zipIdx_iff_getElem?, Prod.mk.injEq, editAt?, Option.bind_eq_some_iff]
  constructor
  · rintro ⟨hunk, h', hhunk, e, i', ⟨he, hkind⟩, rfl, rfl⟩
    exact ⟨e, ⟨hunk, hhunk, he⟩, hkind⟩
  · rintro ⟨e, ⟨hunk, hhunk, he⟩, hkind⟩
    exact ⟨hunk, h, hhunk, e, i, ⟨he, hkind⟩, rfl, rfl⟩

theorem editsWhere_nodup (kind : Edit → Bool) (hunks : List Hunk) : (editsWhere kind hunks).Nodup := by
  refine List.nodup_flatMap.mpr ⟨fun x _ => ?_, (zipIdx_sorted hunks 0).imp fun {x y} hlt => ?_⟩
  · refine List.pairwise_map.mpr (((zipIdx_sorted x.1.edits 0).filter _).imp fun hlt heq => ?_)
    exact Nat.ne_of_lt hlt (Prod.mk.inj heq).2
  · intro z hz hz'
    obtain ⟨_, -, rfl⟩ := List.mem_map.mp hz
    obtain ⟨_, -, heq⟩ := List.mem_map.mp hz'
    exact Nat.ne_of_gt hlt (Prod.mk.inj heq).1

theorem length_editsWhere (kind : Edit → Bool) (hunks : List Hunk) :
    (editsWhere kind hunks).length = Hunk.total (fun hunk => hunk.edits.countP kind) hunks := by
  have hall (first : Nat) : ((hunks.zipIdx first).flatMap fun (hunk, h) =>
      (hunk.edits.zipIdx.filter fun x => kind x.1).map fun x => (h, x.2)).length =
        Hunk.total (fun hunk => hunk.edits.countP kind) hunks := by
    induction hunks generalizing first with
    | nil => rfl
    | cons hunk hunks ih =>
      have hcount := length_numberedWhere_zipIdx kind hunk.edits 0
      rw [List.zipIdx_cons, List.flatMap_cons, List.length_append, ih, Hunk.total, List.length_map]
      exact congrArg (· + _) hcount
  exact hall 0

/-! ## Removed lines -/

variable {α : Type}

/-- Edit `i` of hunk `h` removes a line of the file. -/
def RemovesLine (hunks : List Hunk) (placements : List (Placement α)) (h i line : Nat) : Prop :=
  ∃ e, editAt? hunks h i = some e ∧ e.isRemove = true ∧ lineAt? placements h i = some line

section RemovedLines

variable {hunks : List Hunk} {placements : List (Placement α)}

/-- The lines that the edits of all hunks remove. -/
def linesRemoved (hunks : List Hunk) (placements : List (Placement α)) : List Nat :=
  (editsWhere Edit.isRemove hunks).filterMap fun x => lineAt? placements x.1 x.2

theorem mem_linesRemoved {line : Nat} :
    line ∈ linesRemoved hunks placements ↔ ∃ h i, RemovesLine hunks placements h i line := by
  rw [linesRemoved, List.mem_filterMap]
  constructor
  · rintro ⟨⟨h, i⟩, hedit, hline⟩
    obtain ⟨e, he, hremove⟩ := mem_editsWhere.mp hedit
    exact ⟨h, i, e, he, hremove, hline⟩
  · rintro ⟨h, i, e, he, hremove, hline⟩
    exact ⟨(h, i), mem_editsWhere.mpr ⟨e, he, hremove⟩, hline⟩

theorem linesRemoved_nodup
    (honce : ∀ h i h' i' line, RemovesLine hunks placements h i line →
      RemovesLine hunks placements h' i' line → h = h' ∧ i = i') :
    (linesRemoved hunks placements).Nodup := by
  refine List.pairwise_filterMap.mpr ((editsWhere_nodup Edit.isRemove hunks).imp_of_mem ?_)
  rintro ⟨h, i⟩ ⟨h', i'⟩ hx hx' hne line hline line' hline' rfl
  obtain ⟨e, he, hremove⟩ := mem_editsWhere.mp hx
  obtain ⟨e', he', hremove'⟩ := mem_editsWhere.mp hx'
  obtain ⟨rfl, rfl⟩ := honce h i h' i' line ⟨e, he, hremove, hline⟩ ⟨e', he', hremove', hline'⟩
  exact hne rfl

theorem length_linesRemoved
    (hremoves : ∀ (h i : Nat) (e : Edit), editAt? hunks h i = some e → e.isRemove = true →
      ∃ line, RemovesLine hunks placements h i line) :
    (linesRemoved hunks placements).length = Hunk.total Hunk.removed hunks := by
  refine Eq.trans ?_ (length_editsWhere Edit.isRemove hunks)
  refine List.filterMap_length_eq_length.mpr fun x hx => ?_
  obtain ⟨e, he, hremove⟩ := mem_editsWhere.mp hx
  obtain ⟨line, -, -, -, hline⟩ := hremoves x.1 x.2 e he hremove
  exact Option.isSome_iff_exists.mpr ⟨line, hline⟩

end RemovedLines

/-! ## Origins of one kind -/

namespace Origin

def line? : Origin → Option Nat
  | file line => some line
  | added _ _ => none

def edit? : Origin → Option (Nat × Nat)
  | file _ => none
  | added h i => some (h, i)

theorem line?_eq_some {o : Origin} {line : Nat} : o.line? = some line ↔ o = .file line := by
  cases o with
  | file line' => rw [line?, Option.some.injEq, file.injEq]
  | added h i => exact iff_of_false (by rintro ⟨⟩) (by rintro ⟨⟩)

theorem edit?_eq_some {o : Origin} {h i : Nat} : o.edit? = some (h, i) ↔ o = .added h i := by
  cases o with
  | file line => exact iff_of_false (by rintro ⟨⟩) (by rintro ⟨⟩)
  | added h' i' => rw [edit?, Option.some.injEq, Prod.mk.injEq, added.injEq]

theorem mem_lines {origins : List Origin} {line : Nat} :
    line ∈ origins.filterMap line? ↔ .file line ∈ origins := by
  rw [List.mem_filterMap]
  constructor
  · rintro ⟨o, ho, hline⟩
    exact line?_eq_some.mp hline ▸ ho
  · intro h
    exact ⟨.file line, h, rfl⟩

theorem mem_edits {origins : List Origin} {h i : Nat} :
    (h, i) ∈ origins.filterMap edit? ↔ .added h i ∈ origins := by
  rw [List.mem_filterMap]
  constructor
  · rintro ⟨o, ho, hedit⟩
    exact edit?_eq_some.mp hedit ▸ ho
  · intro hmem
    exact ⟨.added h i, hmem, rfl⟩

theorem length_eq (origins : List Origin) :
    origins.length = (origins.filterMap line?).length + (origins.filterMap edit?).length := by
  induction origins with
  | nil => rfl
  | cons o origins ih =>
    cases o with
    | file line =>
      simp only [List.length_cons, List.filterMap_cons, line?, edit?, ih]
      omega
    | added h i =>
      simp only [List.length_cons, List.filterMap_cons, line?, edit?, ih]
      omega

theorem nodup_of_ordered {lineAt? : Nat → Nat → Option Nat} {origins : List Origin}
    (h : origins.Pairwise (Precedes lineAt?)) : origins.Nodup := by
  refine h.imp fun {o o'} hprecedes heq => ?_
  subst heq
  cases o with
  | file line => exact Nat.lt_irrefl line hprecedes
  | added h i => exact Nat.lt_irrefl i (hprecedes rfl)

end Origin

/-! ## The number of lines -/

/-- The numbers of lines agree: each line of the file is in the result or removed by one edit, and
every other line of the result is one added line. -/
theorem length_of_origins {n : Nat} {hunks : List Hunk} {placements : List (Placement α)}
    {origins : List Origin} (hnodup : origins.Nodup)
    (hfile : ∀ line, .file line ∈ origins ↔
      line < n ∧ ¬ ∃ h i, RemovesLine hunks placements h i line)
    (hadded : ∀ h i, .added h i ∈ origins ↔ ∃ e, editAt? hunks h i = some e ∧ e.isAdd = true)
    (hremoves : ∀ (h i : Nat) (e : Edit), editAt? hunks h i = some e → e.isRemove = true →
      ∃ line, RemovesLine hunks placements h i line)
    (hinside : ∀ h i line, RemovesLine hunks placements h i line → line < n)
    (honce : ∀ h i h' i' line, RemovesLine hunks placements h i line →
      RemovesLine hunks placements h' i' line → h = h' ∧ i = i') :
    origins.length + Hunk.total Hunk.removed hunks = n + Hunk.total Hunk.added hunks := by
  have hlinesNodup : (origins.filterMap Origin.line?).Nodup :=
    hnodup.filterMap fun o o' line ho ho' =>
      (Origin.line?_eq_some.mp ho).trans (Origin.line?_eq_some.mp ho').symm
  have heditsNodup : (origins.filterMap Origin.edit?).Nodup :=
    hnodup.filterMap fun o o' x ho ho' =>
      (Origin.edit?_eq_some.mp ho).trans (Origin.edit?_eq_some.mp ho').symm
  have hlines : (origins.filterMap Origin.line? ++ linesRemoved hunks placements).Perm
      (List.range n) := by
    refine (List.perm_ext_iff_of_nodup ?_ List.nodup_range).mpr fun line => ?_
    · refine List.nodup_append.mpr
        ⟨hlinesNodup, linesRemoved_nodup honce, fun line hline line' hline' heq => ?_⟩
      subst heq
      exact ((hfile line).mp (Origin.mem_lines.mp hline)).2 (mem_linesRemoved.mp hline')
    · rw [List.mem_append, Origin.mem_lines, hfile, mem_linesRemoved, List.mem_range]
      constructor
      · rintro (⟨hlt, -⟩ | ⟨h, i, hline⟩)
        · exact hlt
        · exact hinside h i line hline
      · intro hlt
        by_cases hline : ∃ h i, RemovesLine hunks placements h i line
        · exact Or.inr hline
        · exact Or.inl ⟨hlt, hline⟩
  have hedits : (origins.filterMap Origin.edit?).Perm (editsWhere Edit.isAdd hunks) := by
    refine (List.perm_ext_iff_of_nodup heditsNodup (editsWhere_nodup Edit.isAdd hunks)).mpr ?_
    rintro ⟨h, i⟩
    rw [Origin.mem_edits, hadded, mem_editsWhere]
  have hlinesLength := hlines.length_eq
  have hremovedLength := length_linesRemoved hremoves
  have haddedLength : (origins.filterMap Origin.edit?).length = Hunk.total Hunk.added hunks :=
    hedits.length_eq.trans (length_editsWhere Edit.isAdd hunks)
  rw [List.length_append, List.length_range] at hlinesLength
  rw [Origin.length_eq]
  omega

end LoosePatch
