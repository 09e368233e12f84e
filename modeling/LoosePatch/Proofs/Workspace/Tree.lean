import LoosePatch.Proofs.Lookup
import LoosePatch.Workspace.Tree

/-!
What stands where in a workspace after a change, and the shape that every workspace has: whatever
stands at a place stands in directories (`Workspace.IsTree`). A path that is followed ends where no
link is (`Workspace.resolve_followed`).
-/

namespace LoosePatch.Workspace

variable {ws : Workspace} {place p q : Place} {node : Node}

/-! ## Places -/

theorem mem_above : p ∈ above place ↔ p ≠ [] ∧ p <+: place ∧ p ≠ place := by
  simp only [above, List.mem_map, List.mem_range'_1]
  constructor
  · rintro ⟨i, ⟨hpos, hlt⟩, rfl⟩
    have hlength : (place.take i).length = i := List.length_take_of_le (by omega)
    refine ⟨?_, List.take_prefix i place, ?_⟩
    · intro hnil
      rw [hnil, List.length_nil] at hlength
      omega
    · intro hself
      rw [hself] at hlength
      omega
  · rintro ⟨hne, hbefore, hself⟩
    have hpos := List.length_pos_iff.mpr hne
    have hlt : p.length < place.length :=
      Nat.lt_of_le_of_ne hbefore.length_le fun heq => hself (hbefore.eq_of_length heq)
    exact ⟨p.length, by omega, (List.prefix_iff_eq_take.mp hbefore).symm⟩

theorem mem_above_concat {name : Text} : p ∈ above (q ++ [name]) ↔ p ≠ [] ∧ p <+: q := by
  rw [mem_above, List.prefix_concat_iff]
  constructor
  · rintro ⟨hne, hbefore, hself⟩
    exact ⟨hne, hbefore.resolve_left hself⟩
  · rintro ⟨hne, hbefore⟩
    refine ⟨hne, .inr hbefore, ?_⟩
    rintro rfl
    exact absurd hbefore.length_le (by simp)

theorem mem_above_iff_dropLast (h : place ≠ []) : p ∈ above place ↔ p ≠ [] ∧ p <+: place.dropLast := by
  conv_lhs => rw [← List.dropLast_concat_getLast h]
  exact mem_above_concat

/-! ## Looking after a change -/

@[simp] theorem node?_nil : ws.node? [] = some .directory := rfl

theorem node?_of_ne_nil (h : q ≠ []) : ws.node? q = ws.entries.lookup q := by
  rw [node?, if_neg (by simpa using h)]

theorem lookup_put (place q : Place) (node : Node) (entries : List (Place × Node)) :
    (put place node entries).lookup q = if q = place then some node else entries.lookup q := by
  induction entries with
  | nil => rw [put, lookup_cons_eq_ite]
  | cons entry rest ih =>
    obtain ⟨p, n⟩ := entry
    rw [put, lookup_cons_eq_ite]
    split
    · rename_i hp
      rw [lookup_cons_eq_ite, hp]
      split <;> rfl
    · rename_i hp
      rw [lookup_cons_eq_ite, ih]
      split
      · rename_i hq
        rw [if_neg (hq ▸ hp)]
      · rfl

theorem put_put (place : Place) (node node' : Node) (entries : List (Place × Node)) :
    put place node' (put place node entries) = put place node' entries := by
  induction entries with
  | nil => rw [put, put, put, if_pos rfl]
  | cons entry rest ih =>
    obtain ⟨p, n⟩ := entry
    by_cases hp : p = place
    · rw [put, put, if_pos hp, if_pos hp, put, if_pos rfl]
    · rw [put, put, if_neg hp, if_neg hp, put, if_neg hp, ih]

@[simp] theorem set_set (node' : Node) : (ws.set place node).set place node' = ws.set place node' := by
  rw [set, set, set, put_put]

@[simp] theorem root_set : (ws.set place node).root = ws.root := rfl

@[simp] theorem root_remove : (ws.remove place).root = ws.root := rfl

theorem node?_set_self (h : place ≠ []) : (ws.set place node).node? place = some node := by
  rw [node?_of_ne_nil h, set, lookup_put, if_pos rfl]

theorem node?_set_of_ne (h : q ≠ place) : (ws.set place node).node? q = ws.node? q := by
  by_cases hq : q = []
  · rw [hq, node?_nil, node?_nil]
  · rw [node?_of_ne_nil hq, node?_of_ne_nil hq, set, lookup_put, if_neg h]

theorem node?_remove_self (h : place ≠ []) : (ws.remove place).node? place = none := by
  rw [node?_of_ne_nil h, remove, lookup_filter_ne, if_pos rfl]

theorem node?_remove_of_ne (h : q ≠ place) : (ws.remove place).node? q = ws.node? q := by
  by_cases hq : q = []
  · rw [hq, node?_nil, node?_nil]
  · rw [node?_of_ne_nil hq, node?_of_ne_nil hq, remove, lookup_filter_ne, if_neg h]

theorem isDirectory_iff : ws.isDirectory q = true ↔ ws.node? q = some .directory := by
  unfold isDirectory
  split
  · rename_i h
    exact iff_of_true rfl h
  · rename_i h
    exact iff_of_false Bool.false_ne_true h

theorem file?_eq_some {content : ByteArray} {mode : Nat} :
    ws.file? q = some (content, mode) ↔ ws.node? q = some (.file content mode) := by
  unfold file?
  split
  · rename_i h
    simp [h]
  · rename_i h
    exact iff_of_false (by simp) (h content mode)

/-! ## Trees -/

/-- Whatever stands at a place stands in directories. -/
def IsTree (ws : Workspace) : Prop :=
  ∀ entry ∈ ws.entries, ∀ p ∈ above entry.1, ws.isDirectory p = true

instance (ws : Workspace) : Decidable ws.IsTree := List.decidableBAll _ _

theorem isTree_iff :
    ws.IsTree ↔ ∀ q, ws.node? q ≠ none → ∀ p ∈ above q, ws.node? p = some .directory := by
  constructor
  · intro tree q hq p hp
    have hne : q ≠ [] := by
      rintro rfl
      exact List.not_mem_nil hp
    rw [node?_of_ne_nil hne, ← Option.isSome_iff_ne_none] at hq
    obtain ⟨node, hnode⟩ := Option.isSome_iff_exists.mp hq
    obtain ⟨before, after, hsplit, -⟩ := List.lookup_eq_some_iff.mp hnode
    exact isDirectory_iff.mp (tree (q, node) (by simp [hsplit]) p hp)
  · intro h entry hentry p hp
    have hne : entry.1 ≠ [] := by
      intro hnil
      rw [hnil] at hp
      exact List.not_mem_nil hp
    refine isDirectory_iff.mpr (h entry.1 ?_ p hp)
    rw [node?_of_ne_nil hne, ne_eq, List.lookup_eq_none_iff]
    intro hnone
    simpa using hnone entry hentry

namespace IsTree

variable (tree : ws.IsTree)

include tree

theorem above_eq (hq : ws.node? q ≠ none) (hp : p ∈ above q) : ws.node? p = some .directory :=
  isTree_iff.mp tree q hq p hp

/-- Something may be put where all is directories above, and nothing stands below. -/
theorem set (habove : ∀ p ∈ above place, ws.node? p = some .directory)
    (hself : ws.node? place = some .directory → node = .directory) : (ws.set place node).IsTree := by
  refine isTree_iff.mpr fun q hq p hp => ?_
  have hold : ws.node? p = some .directory := by
    by_cases heq : q = place
    · exact habove p (heq ▸ hp)
    · exact tree.above_eq (by rwa [node?_set_of_ne heq] at hq) hp
  by_cases heq : p = place
  · have hne : place ≠ [] := heq ▸ (mem_above.mp hp).1
    rw [heq, node?_set_self hne, hself (heq ▸ hold)]
  · rwa [node?_set_of_ne heq]

theorem remove (hself : ws.node? place ≠ some .directory) : (ws.remove place).IsTree := by
  refine isTree_iff.mpr fun q hq p hp => ?_
  have hne : q ≠ place := by
    rintro rfl
    exact hq (node?_remove_self fun hnil => by rw [hnil] at hp; exact List.not_mem_nil hp)
  rw [node?_remove_of_ne hne] at hq
  have hold := tree.above_eq hq hp
  rwa [node?_remove_of_ne]
  rintro rfl
  exact hself hold

end IsTree

/-! ## Where paths end -/

/-- No link stands at the place or above it. -/
def Followed (ws : Workspace) (place : Place) : Prop :=
  ∀ p, p <+: place → ∀ target, ws.node? p ≠ some (.link target)

theorem Followed.nil : ws.Followed [] := by
  intro p hp target
  rw [List.prefix_nil.mp hp]
  simp

theorem Followed.dropLast (h : ws.Followed place) : ws.Followed place.dropLast :=
  fun p hp => h p (hp.trans (List.dropLast_prefix place))

theorem Followed.append (h : ws.Followed place) {name : Text}
    (hname : ∀ target, ws.entries.lookup (place ++ [name]) ≠ some (.link target)) :
    ws.Followed (place ++ [name]) := by
  intro p hp target
  rcases List.prefix_concat_iff.mp hp with rfl | hp
  · rw [node?_of_ne_nil (by simp)]
    exact hname target
  · exact h p hp target

/-- No link stands at an absolute place or above it. -/
def Clear (ws : Workspace) (place : Place) : Prop := ∀ p, p <+: place → ws.linkAt? p = none

@[simp] theorem below?_base_append : ws.below? (ws.base ++ place) = some place := below?_eq_some.mpr rfl

theorem linkAt?_base_append_eq_none_iff :
    ws.linkAt? (ws.base ++ place) = none ↔ ∀ target, ws.node? place ≠ some (.link target) := by
  rw [linkAt?, below?_base_append]
  dsimp only
  split
  · rename_i target hlink
    exact iff_of_false (by rintro ⟨⟩) fun h => h target hlink
  · rename_i hlink
    exact iff_of_true rfl hlink

/-- The root is no link, and no directory above it is one. -/
theorem clear_base : ws.Clear ws.base := by
  intro p hp
  cases hbelow : ws.below? p with
  | none => rw [linkAt?, hbelow, if_pos (List.isPrefixOf_iff_prefix.mpr hp)]
  | some inner =>
    have hjoined := below?_eq_some.mp hbelow
    obtain rfl : inner = [] := by
      have hlength := hp.length_le
      rw [← hjoined, List.length_append] at hlength
      exact List.length_eq_zero_iff.mp (by omega)
    rw [← hjoined, linkAt?_base_append_eq_none_iff]
    simp

theorem clear_nil : ws.Clear [] := fun p hp => clear_base p (hp.trans (List.nil_prefix))

theorem Clear.dropLast (h : ws.Clear place) : ws.Clear place.dropLast :=
  fun p hp => h p (hp.trans (List.dropLast_prefix place))

theorem Clear.append (h : ws.Clear place) {name : Text} (hname : ws.linkAt? (place ++ [name]) = none) :
    ws.Clear (place ++ [name]) := by
  intro p hp
  rcases List.prefix_concat_iff.mp hp with rfl | hp
  · exact hname
  · exact h p hp

theorem Clear.startOf (h : ws.Clear place) (target : Text) : ws.Clear (startOf place target) := by
  unfold Workspace.startOf
  split
  · exact clear_nil
  · exact h

theorem isClear_iff : ws.isClear place = true ↔ ws.Clear place := by
  simp only [isClear, List.all_eq_true, List.mem_range, Option.isNone_iff_eq_none]
  constructor
  · intro h p hp
    rw [List.prefix_iff_eq_take.mp hp]
    exact h _ (Nat.lt_succ_of_le hp.length_le)
  · intro h i _
    exact h _ (List.take_prefix i place)

/-- A way that is followed to its end ends where no link is. -/
theorem walk_clear {active : List Place} {names : List Text} (h : ws.Clear place)
    (hwalk : ws.walk active place names = .ok q) : ws.Clear q := by
  fun_induction walk ws active place names generalizing q with
  | case1 => cases hwalk; exact h
  | case2 active place name names _ ih => exact ih h hwalk
  | case3 active place names _ ih => exact ih h.dropLast hwalk
  | case4 active place name names _ _ hnone ih => exact ih (h.append hnone) hwalk
  | case5 => cases hwalk
  | case6 active place name names _ _ target _ _ there hthere ih ih' =>
    exact ih' (ih (h.startOf target) hthere) hwalk
  | case7 => cases hwalk

theorem Clear.followed (h : ws.Clear (ws.base ++ place)) : ws.Followed place :=
  fun _ hp => linkAt?_base_append_eq_none_iff.mp
    (h _ ((List.prefix_append_right_inj ws.base).mpr hp))

theorem destination_eq_inside (h : ws.destination q = .inside place) : q = ws.base ++ place := by
  unfold destination at h
  split at h
  · rename_i hbelow
    cases h
    exact (below?_eq_some.mp hbelow).symm
  · cases h

/-- A path leads to a place that is no link. -/
theorem resolve_followed {path : Text} (h : ws.resolve path = .inside place) : ws.Followed place := by
  unfold resolve at h
  split at h
  · rename_i q hwalk
    exact Clear.followed (destination_eq_inside h ▸ walk_clear clear_base hwalk)
  · split at h
    · rename_i hclear
      exact Clear.followed (destination_eq_inside h ▸ isClear_iff.mp hclear)
    · cases h

/-- One link with an absolute target, and one that leaves the root and comes back. -/
example :
    let ws : Workspace := {
      root := "/w".toList
      entries := [([['a']], .link "/w/f".toList), ([['b']], .link "../w/f".toList)] }
    ws.resolve ['a'] = .inside [['f']] ∧ ws.resolve ['b'] = .inside [['f']] := by
  cbv

/-- Where no links are, a path of ordinary names leads to the place of these names. -/
theorem walk_of_no_links (hlinks : ∀ entry ∈ ws.entries, ∀ target, entry.2 ≠ .link target)
    {names : List Text}
    (hnames : ∀ name ∈ names, name ≠ [] ∧ name ≠ Path.here ∧ name ≠ Path.parent)
    (active : List Place) (place : Place) :
    ws.walk active (ws.base ++ place) names = .ok (ws.base ++ (place ++ names)) := by
  induction names generalizing place with
  | nil => rw [walk, List.append_nil]
  | cons name names ih =>
    obtain ⟨⟨hempty, hhere, hparent⟩, hnames⟩ := List.forall_mem_cons.mp hnames
    have hstep := ih hnames (place ++ [name])
    rw [List.append_assoc place, List.singleton_append] at hstep
    have hnone : ws.linkAt? (ws.base ++ (place ++ [name])) = none := by
      refine linkAt?_base_append_eq_none_iff.mpr fun target hnode => ?_
      rw [node?_of_ne_nil (by simp)] at hnode
      obtain ⟨before, after, hsplit, -⟩ := List.lookup_eq_some_iff.mp hnode
      exact hlinks (place ++ [name], .link target) (by simp [hsplit]) target rfl
    rw [walk, if_neg (not_or.mpr ⟨hempty, hhere⟩), if_neg hparent, List.append_assoc]
    split
    · exact hstep
    · rename_i hfound
      rw [hnone] at hfound
      cases hfound

theorem resolve_of_no_links {path : Text}
    (hlinks : ∀ entry ∈ ws.entries, ∀ target, entry.2 ≠ .link target)
    (hnames : ∀ name ∈ Path.parts path, name ≠ [] ∧ name ≠ Path.here ∧ name ≠ Path.parent) :
    ws.resolve path = .inside (Path.parts path) := by
  have hwalk := walk_of_no_links hlinks hnames [] []
  rw [List.append_nil, List.nil_append] at hwalk
  simp only [resolve, hwalk, destination, below?_base_append]

end LoosePatch.Workspace
