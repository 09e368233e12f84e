import LoosePatch.Proofs.Text.Numeral
import LoosePatch.Proofs.Workspace.Calls
import Mathlib.Data.List.Nodup
import Mathlib.Data.List.Perm.Subperm

/-!
What writing a file through a draft comes to. A draft stands where nothing was, and nothing is left
of it: a file is written with the directories above it and nothing else (`Written`), unless one of
these cannot be made or a name is too long (`Calls.overwrite_on`, `Calls.create_on`).
-/

namespace LoosePatch

open Workspace

variable {ws mid after : Workspace} {place draft p : Place} {node : Node} {content : ByteArray}
  {mode : Nat}

/-- Afterwards the node stands at the place, and nothing else is new but directories above it. -/
structure Written (before after : Workspace) (place : Place) (node : Node) : Prop where
  root_eq : after.root = before.root
  isTree : after.IsTree
  node_eq : after.node? place = some node
  rest : ∀ p ≠ place, after.node? p = before.node? p ∨
    p ∈ above place ∧ before.node? p = none ∧ after.node? p = some .directory

/-- Afterwards the node stands at the place, and nothing else is new. -/
structure Delivered (before after : Workspace) (place : Place) (node : Node) : Prop where
  root_eq : after.root = before.root
  isTree : after.IsTree
  node_eq : after.node? place = some node
  rest : ∀ p ≠ place, after.node? p = before.node? p

/-- Afterwards the node stands at the place and still at the draft, or there no longer. -/
structure Published (before after : Workspace) (draft place : Place) (node : Node) : Prop where
  root_eq : after.root = before.root
  isTree : after.IsTree
  node_eq : after.node? place = some node
  draft_eq : after.node? draft = none ∨ after.node? draft = some node
  rest : ∀ p ≠ place, p ≠ draft → after.node? p = before.node? p

namespace Calls

/-! ## Places for drafts -/

theorem draftPlace_injective (place : Place) : Function.Injective (draftPlace place) := by
  intro m n h
  have hname := List.singleton_injective (List.append_cancel_left h)
  exact numeral_injective (List.append_cancel_left hname)

/-- The name of a draft is longer than that of its file. -/
theorem draftPlace_ne (h : place ≠ []) (n : Nat) : draftPlace place n ≠ place := by
  intro heq
  have hsplit : place.dropLast ++ [draftName (place.getLast?.getD []) n] =
      place.dropLast ++ [place.getLast h] := by
    rw [List.dropLast_concat_getLast]
    exact heq
  have hname := congrArg List.length (List.singleton_injective (List.append_cancel_left hsplit))
  rw [List.getLast?_eq_some_getLast h, Option.getD_some, draftName] at hname
  simp only [List.length_append, List.length_cons] at hname
  omega

theorem mem_above_draftPlace (h : place ≠ []) (n : Nat) :
    p ∈ above (draftPlace place n) ↔ p ∈ above place := by
  rw [draftPlace, mem_above_concat, mem_above_iff_dropLast h]

/-- There are more numbers than names. -/
theorem exists_free_number (ws : Workspace) (place : Place) :
    ∃ n ∈ List.range (ws.entries.length + 1), ws.node? (draftPlace place n) = none := by
  by_contra hall
  push Not at hall
  have hne (n : Nat) : draftPlace place n ≠ [] := by simp [draftPlace]
  have hsubset : (List.range (ws.entries.length + 1)).map (draftPlace place) ⊆
      ws.entries.map Prod.fst := by
    intro p hp
    obtain ⟨n, hn, rfl⟩ := List.mem_map.mp hp
    obtain ⟨node, hnode⟩ := Option.ne_none_iff_exists'.mp (hall n hn)
    rw [node?_of_ne_nil (hne n)] at hnode
    obtain ⟨before, after, hsplit, -⟩ := List.lookup_eq_some_iff.mp hnode
    simp [hsplit]
  have hnodup : ((List.range (ws.entries.length + 1)).map (draftPlace place)).Nodup :=
    List.Nodup.map (draftPlace_injective place) List.nodup_range
  have hle := (hnodup.subperm hsubset).length_le
  rw [List.length_map, List.length_map, List.length_range] at hle
  omega

theorem node?_freeDraft (ws : Workspace) (place : Place) : ws.node? (freeDraft ws place) = none := by
  obtain ⟨n, hn, hfree⟩ := exists_free_number ws place
  have hsome : ((List.range (ws.entries.length + 1)).find? fun n =>
      (ws.node? (draftPlace place n)).isNone).isSome :=
    List.find?_isSome.mpr ⟨n, hn, by simp [hfree]⟩
  obtain ⟨m, hm⟩ := Option.isSome_iff_exists.mp hsome
  have hm' := List.find?_some hm
  rw [freeDraft, hm, Option.getD_some]
  simpa using hm'

/-! ## Calls on files -/

theorem unlink_on (tree : ws.IsTree) {content : ByteArray} {mode : Nat}
    (h : ws.node? place = some (.file content mode)) :
    (unlink place).on ws = (.ok (), ws.remove place) := by
  have hlook := lookUp_on_of_directories fun p hp => tree.above_eq (by rw [h]; simp) hp
  rw [unlink, on_bind_ok hlook, on_get_bind, h]
  rfl

theorem makeDraft_on_of_tooLong (h : draftIsTooLong ws place = true) :
    ∃ name, (makeDraft place).on ws = (.error (.nameTooLong name), ws) := by
  refine ⟨ws.fullName (freeDraft ws place), ?_⟩
  rw [makeDraft, on_get_bind]
  simp only [h, if_true]
  rfl

theorem makeDraft_on (hne : place ≠ []) (short : draftIsTooLong ws place = false)
    (habove : ∀ p ∈ above place, ws.node? p = some .directory) :
    (makeDraft place).on ws =
      (.ok (freeDraft ws place), ws.set (freeDraft ws place) (.file .empty draftMode)) := by
  have hlook : (lookUp (freeDraft ws place)).on ws = (.ok (), ws) :=
    lookUp_on_of_directories fun p hp => habove p ((mem_above_draftPlace hne _).mp hp)
  rw [makeDraft, on_get_bind]
  simp only [short, Bool.false_eq_true, if_false]
  exact on_bind_ok hlook

theorem dropDraft_on (h : Published mid after draft place (.file content mode)) (hne : draft ≠ []) :
    ∃ last, (dropDraft draft).on after = (.ok (), last) ∧
      last.root = after.root ∧ last.IsTree ∧ last.node? draft = none ∧
      ∀ p ≠ draft, last.node? p = after.node? p := by
  rcases h.draft_eq with hnone | hsome
  · have hholds : after.holds draft = false := by rw [holds, hnone]
    refine ⟨after, ?_, rfl, h.isTree, hnone, fun p hp => rfl⟩
    rw [dropDraft, on_get_bind, hholds]
    rfl
  · have hholds : after.holds draft = true := by rw [holds, hsome]
    refine ⟨after.remove draft, ?_, rfl, h.isTree.remove (by rw [hsome]; simp),
      node?_remove_self hne, fun p hp => node?_remove_of_ne hp⟩
    rw [dropDraft, on_get_bind, hholds, if_pos rfl]
    exact unlink_on h.isTree hsome

section Publish

variable (tree : mid.IsTree) (habove : ∀ p ∈ above place, mid.node? p = some .directory)
  (hdraft : mid.node? draft = some (.file content mode)) (hplace : draft ≠ place) (hne : place ≠ [])

include tree habove hdraft hplace hne

theorem replace_published (hfile : mid.node? place ≠ some .directory) :
    ∃ after, (replace draft place).on mid = (.ok (), after) ∧
      Published mid after draft place (.file content mode) := by
  have hself : mid.isDirectory place = false := by rwa [← Bool.not_eq_true, isDirectory_iff]
  have hset : (mid.set place (.file content mode)).node? draft = some (.file content mode) := by
    rwa [node?_set_of_ne hplace]
  have hdraftne : draft ≠ [] := by
    rintro rfl
    simp at hdraft
  refine ⟨(mid.set place (.file content mode)).remove draft, ?_, rfl, ?_, ?_, ?_, ?_⟩
  · rw [replace, on_bind_ok (lookUp_on_of_directories habove), on_get_bind, hself, hdraft]
    rfl
  · exact (tree.set habove fun h => absurd h hfile).remove (by rw [hset]; simp)
  · rw [node?_remove_of_ne hplace.symm, node?_set_self hne]
  · exact .inl (node?_remove_self hdraftne)
  · intro p hp hpdraft
    rw [node?_remove_of_ne hpdraft, node?_set_of_ne hp]

theorem link_published (hfree : mid.node? place = none) :
    ∃ after, (link draft place).on mid = (.ok (), after) ∧
      Published mid after draft place (.file content mode) := by
  refine ⟨mid.set place (.file content mode), ?_, rfl, ?_, node?_set_self hne, ?_, ?_⟩
  · rw [link, on_bind_ok (lookUp_on_of_directories habove), on_get_bind, hfree, hdraft]
    rfl
  · exact tree.set habove fun h => by rw [hfree] at h; cases h
  · exact .inr (by rwa [node?_set_of_ne hplace])
  · exact fun p hp _ => node?_set_of_ne hp

end Publish

/-! ## Files written through drafts -/

/-- A file that some calls bring to its place from any draft stands there and nowhere else. -/
theorem throughDraft_on (tree : mid.IsTree) (hne : place ≠ [])
    (habove : ∀ p ∈ above place, mid.node? p = some .directory) (publish : Place → Calls Unit)
    (hpublish : ∀ filled draft, filled.IsTree →
      (∀ p ∈ above place, filled.node? p = some .directory) →
      filled.node? draft = some (.file content mode) → draft ≠ place →
      filled.node? place = mid.node? place →
      ∃ after, (publish draft).on filled = (.ok (), after) ∧
        Published filled after draft place (.file content mode)) :
    (∃ name, (throughDraft place content mode publish).on mid = (.error (.nameTooLong name), mid)) ∨
    ∃ last, (throughDraft place content mode publish).on mid = (.ok (), last) ∧
      Delivered mid last place (.file content mode) := by
  cases hlong : draftIsTooLong mid place with
  | true => exact .inl ((makeDraft_on_of_tooLong hlong).imp fun _ hmake => on_bind_error hmake)
  | false =>
    have hfree := node?_freeDraft mid place
    have hdraft : freeDraft mid place ≠ place := draftPlace_ne hne _
    have hdraftne : freeDraft mid place ≠ [] := by simp [freeDraft, draftPlace]
    have habove' : ∀ p ∈ above (freeDraft mid place), mid.node? p = some .directory :=
      fun p hp => habove p ((mem_above_draftPlace hne _).mp hp)
    let filled := mid.set (freeDraft mid place) (.file content mode)
    have hkept : ∀ p ≠ freeDraft mid place, filled.node? p = mid.node? p :=
      fun p hp => node?_set_of_ne hp
    obtain ⟨after, hpublished, hafter⟩ := hpublish filled (freeDraft mid place)
      (tree.set habove' fun h => by rw [hfree] at h; cases h)
      (fun p hp => (hkept p fun heq => by rw [← heq, habove p hp] at hfree; cases hfree).trans
        (habove p hp))
      (node?_set_self hdraftne) hdraft (hkept place hdraft.symm)
    obtain ⟨last, hdrop, hroot, htree, hgone, hrest⟩ := dropDraft_on hafter hdraftne
    refine .inr ⟨last, ?_, hroot.trans hafter.root_eq, htree, ?_, fun p hp => ?_⟩
    · rw [throughDraft, on_bind_ok (makeDraft_on hne hlong habove)]
      refine on_tryFinally_ok ?_ hdrop
      rw [on_bind_ok (on_modify _ _), on_bind_ok (on_modify _ _), set_set, set_set]
      exact hpublished
    · rw [hrest place hdraft.symm, hafter.node_eq]
    · by_cases hpdraft : p = freeDraft mid place
      · rw [hpdraft, hgone, hfree]
      · rw [hrest p hpdraft, hafter.rest p hp hpdraft, hkept p hpdraft]

/-- What stands at a place is not changed by making the directories above it. -/
theorem Grown.node?_eq (hgrown : Grown ws mid place.dropLast) (hne : place ≠ []) :
    mid.node? place = ws.node? place := by
  rcases hgrown.rest place with heq | ⟨hbefore, -, -⟩
  · exact heq
  · have hlength := hbefore.length_le
    have hpos := List.length_pos_iff.mpr hne
    rw [List.length_dropLast] at hlength
    omega

theorem Grown.written (hgrown : Grown ws mid place.dropLast) (hne : place ≠ [])
    (h : Delivered mid after place node) : Written ws after place node where
  root_eq := h.root_eq.trans hgrown.root_eq
  isTree := h.isTree
  node_eq := h.node_eq
  rest p hp := by
    rw [h.rest p hp]
    by_cases hnil : p = []
    · exact .inl (by rw [hnil, node?_nil, node?_nil])
    · exact (hgrown.rest p).imp_right fun ⟨hbefore, hnone, hnew⟩ =>
        ⟨(mem_above_iff_dropLast hne).mpr ⟨hnil, hbefore⟩, hnone, hnew⟩

theorem writeFile_on (tree : ws.IsTree) (hne : place ≠ []) (publish : Place → Calls Unit)
    (hpublish : ∀ filled draft, filled.IsTree →
      (∀ p ∈ above place, filled.node? p = some .directory) →
      filled.node? draft = some (.file content mode) → draft ≠ place →
      filled.node? place = ws.node? place →
      ∃ after, (publish draft).on filled = (.ok (), after) ∧
        Published filled after draft place (.file content mode)) :
    Ended ws place.dropLast (Written ws · place (.file content mode))
      ((writeFile place content mode publish).on ws) := by
  have hmake := makeDirectories_on tree place.dropLast.reverse
  rw [List.reverse_reverse] at hmake
  refine hmake.bind fun mid clear hgrown => ?_
  have habove : ∀ p ∈ above place, mid.node? p = some .directory := fun p hp =>
    hgrown.isDirectory p ((mem_above_iff_dropLast hne).mp hp).2
  rcases throughDraft_on hgrown.isTree hne habove publish (hgrown.node?_eq hne ▸ hpublish) with
    ⟨name, hthrough⟩ | ⟨last, hthrough, hdelivered⟩
  · rw [hthrough]
    exact .tooLong _ _
  · rw [hthrough]
    exact .done clear (hgrown.written hne hdelivered)

/-- A file is written at a place where no directory is. -/
theorem overwrite_on (tree : ws.IsTree) (hne : place ≠ []) (hfile : ws.node? place ≠ some .directory)
    (content : ByteArray) (mode : Nat) :
    Ended ws place.dropLast (Written ws · place (.file content mode))
      ((overwrite place content mode).on ws) :=
  writeFile_on tree hne _ fun _ _ htree habove hdraft hplace hsame =>
    replace_published htree habove hdraft hplace hne (hsame ▸ hfile)

/-- A file is written at a place where nothing is. -/
theorem create_on (tree : ws.IsTree) (hne : place ≠ []) (hfree : ws.node? place = none)
    (content : ByteArray) :
    Ended ws place.dropLast (Written ws · place (.file content newMode))
      ((create place content).on ws) :=
  writeFile_on tree hne _ fun _ _ htree habove hdraft hplace hsame =>
    link_published htree habove hdraft hplace hne (hsame.trans hfree)

end Calls
end LoosePatch
