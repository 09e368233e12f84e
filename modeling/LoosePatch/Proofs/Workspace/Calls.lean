import LoosePatch.Proofs.Workspace.Tree
import LoosePatch.Workspace.Calls

/-!
What series of calls come to. In a tree, directories are made down to a place unless something else
is in the way, and then nothing has been made, or a name is too long (`Calls.makeDirectories_on`).
-/

namespace LoosePatch

namespace Calls

section Steps

variable {β γ : Type} {ws ws' ws'' : Workspace} {calls : Calls β} {b : β} {obstacle : Obstacle}

/-! ## Series of calls, taken apart -/

theorem on_get (ws : Workspace) : (get : Calls Workspace).on ws = (.ok ws, ws) := rfl

theorem on_modify (f : Workspace → Workspace) (ws : Workspace) :
    (modify f : Calls Unit).on ws = (.ok (), f ws) := rfl

theorem on_bind_ok {f : β → Calls γ} (h : calls.on ws = (.ok b, ws')) :
    (calls >>= f).on ws = (f b).on ws' := by
  have hcalls : calls ws = (.ok b, ws') := h
  show ExceptT.bindCont f (calls ws).1 (calls ws).2 = _
  rw [hcalls]
  rfl

theorem on_bind_error {f : β → Calls γ} (h : calls.on ws = (.error obstacle, ws')) :
    (calls >>= f).on ws = (.error obstacle, ws') := by
  have hcalls : calls ws = (.error obstacle, ws') := h
  show ExceptT.bindCont f (calls ws).1 (calls ws).2 = _
  rw [hcalls]
  rfl

theorem on_get_bind (f : Workspace → Calls γ) : ((get : Calls Workspace) >>= f).on ws = (f ws).on ws :=
  on_bind_ok (on_get ws)

theorem on_tryCatch_ok {f : Obstacle → Calls β} (h : calls.on ws = (.ok b, ws')) :
    (tryCatch calls f).on ws = (.ok b, ws') := by
  have hcalls : calls ws = (.ok b, ws') := h
  simp only [tryCatch, tryCatchThe, MonadExceptOf.tryCatch, ExceptT.tryCatch, on, ExceptT.run,
    StateT.run, ExceptT.mk, bind, StateT.bind, Id.run, hcalls]
  rfl

theorem on_tryCatch_error {f : Obstacle → Calls β} (h : calls.on ws = (.error obstacle, ws')) :
    (tryCatch calls f).on ws = (f obstacle).on ws' := by
  have hcalls : calls ws = (.error obstacle, ws') := h
  simp only [tryCatch, tryCatchThe, MonadExceptOf.tryCatch, ExceptT.tryCatch, on, ExceptT.run,
    StateT.run, ExceptT.mk, bind, StateT.bind, Id.run, hcalls]

theorem on_tryFinally_ok {last : Calls Unit} (h : calls.on ws = (.ok b, ws'))
    (hlast : last.on ws' = (.ok (), ws'')) : (tryFinally calls last).on ws = (.ok b, ws'') := by
  have hcalls : calls ws = (.ok b, ws') := h
  have hcalls' : last ws' = (.ok (), ws'') := hlast
  simp only [tryFinally, tryFinally', Functor.map, on, ExceptT.map, ExceptT.run, StateT.run,
    ExceptT.mk, bind, StateT.bind, Id.run, hcalls, hcalls']
  rfl

end Steps

end Calls

open Workspace

variable {ws ws' : Workspace} {place p q : Place} {obstacle : Obstacle}

/-! ## Obstacles -/

namespace Workspace

/-- Something that is no directory stands there. -/
def isObstacle (ws : Workspace) (place : Place) : Bool :=
  (ws.node? place).isSome && !ws.isDirectory place

/-- What keeps a directory from being made, with those above it: something else at its place, or
further up. -/
def obstacle? (ws : Workspace) (directory : Place) : Option Obstacle :=
  if ws.isObstacle directory then some (.fileExists (ws.fullName directory))
  else if (above directory).any ws.isObstacle then some (.notDirectory (ws.fullName directory))
  else none

theorem isObstacle_iff : ws.isObstacle p = true ↔ ws.node? p ≠ none ∧ ws.node? p ≠ some .directory := by
  rw [isObstacle, Bool.and_eq_true, Option.isSome_iff_ne_none, Bool.not_eq_true',
    ← Bool.not_eq_true, isDirectory_iff]

theorem isObstacle_eq_false :
    ws.isObstacle p = false ↔ ws.node? p = none ∨ ws.node? p = some .directory := by
  rw [← Bool.not_eq_true, isObstacle_iff]
  tauto

theorem obstacle?_eq_none : ws.obstacle? place = none ↔
    ∀ p, p <+: place → ws.node? p = none ∨ ws.node? p = some .directory := by
  have hcases : ws.obstacle? place = none ↔
      ws.isObstacle place = false ∧ ∀ p ∈ above place, ws.isObstacle p = false := by
    unfold obstacle?
    split
    · rename_i h
      exact iff_of_false (by simp) fun hnone => by rw [hnone.1] at h; cases h
    · rename_i h
      split
      · rename_i hany
        obtain ⟨p, hp, hobstacle⟩ := List.any_eq_true.mp hany
        exact iff_of_false (by simp) fun hnone => by rw [hnone.2 p hp] at hobstacle; cases hobstacle
      · rename_i hany
        exact iff_of_true rfl ⟨by simpa using h, by simpa using hany⟩
  rw [hcases]
  constructor
  · rintro ⟨hself, habove⟩ p hp
    by_cases heq : p = place
    · exact isObstacle_eq_false.mp (heq ▸ hself)
    · by_cases hnil : p = []
      · exact .inr (hnil ▸ node?_nil)
      · exact isObstacle_eq_false.mp (habove p (mem_above.mpr ⟨hnil, hp, heq⟩))
  · intro h
    exact ⟨isObstacle_eq_false.mpr (h place List.prefix_rfl),
      fun p hp => isObstacle_eq_false.mpr (h p (mem_above.mp hp).2.1)⟩

theorem obstacle?_ne_missing {name : Text} : ws.obstacle? place ≠ some (.missing name) := by
  unfold obstacle?
  split
  · simp
  · split <;> simp

/-- Above a place there are ever more names. -/
theorem above_pairwise (place : Place) : (above place).Pairwise fun p q => p ∈ above q := by
  refine List.pairwise_map.mpr (List.Pairwise.imp_of_mem (fun {i j} hi hj hlt => ?_)
    List.pairwise_lt_range')
  rw [List.mem_range'_1] at hi hj
  have hi' : (place.take i).length = i := List.length_take_of_le (by omega)
  have hj' : (place.take j).length = j := List.length_take_of_le (by omega)
  refine mem_above.mpr ⟨?_, List.take_prefix_take_left (by omega), ?_⟩
  · intro hnil
    rw [hnil, List.length_nil] at hi'
    omega
  · intro heq
    rw [heq, hj'] at hi'
    omega

end Workspace

namespace Calls

/-! ## How calls end -/

/-- How calls end that make the directories down to one first: all is done, or something else is in
the way there and nothing has been done, or a name is too long. -/
inductive Ended (ws : Workspace) (directory : Place) (done : Workspace → Prop) :
    Except Obstacle Unit × Workspace → Prop
  | done {after : Workspace} (clear : ws.obstacle? directory = none) (h : done after) :
      Ended ws directory done (.ok (), after)
  | blocked {obstacle : Obstacle} (h : ws.obstacle? directory = some obstacle) :
      Ended ws directory done (.error obstacle, ws)
  | tooLong (name : Text) (after : Workspace) :
      Ended ws directory done (.error (.nameTooLong name), after)

theorem Ended.imp {directory : Place} {done done' : Workspace → Prop}
    {result : Except Obstacle Unit × Workspace} (h : Ended ws directory done result)
    (hdone : ∀ after, done after → done' after) : Ended ws directory done' result := by
  cases h with
  | done clear h => exact .done clear (hdone _ h)
  | blocked h => exact .blocked h
  | tooLong => exact .tooLong _ _

theorem Ended.bind {directory : Place} {done done' : Workspace → Prop} {calls : Calls Unit}
    {f : Unit → Calls Unit} (h : Ended ws directory done (calls.on ws))
    (hf : ∀ mid, ws.obstacle? directory = none → done mid →
      Ended ws directory done' ((f ()).on mid)) :
    Ended ws directory done' ((calls >>= f).on ws) := by
  generalize hcalls : calls.on ws = result at h
  cases h with
  | done clear h =>
    rw [on_bind_ok hcalls]
    exact hf _ clear h
  | blocked h =>
    rw [on_bind_error hcalls]
    exact .blocked h
  | tooLong =>
    rw [on_bind_error hcalls]
    exact .tooLong _ _

/-! ## Looking up -/

theorem lookUp_on_of_directories (h : ∀ p ∈ above place, ws.node? p = some .directory) :
    (lookUp place).on ws = (.ok (), ws) := by
  have hnone : (above place).find? (fun p => !ws.isDirectory p) = none :=
    List.find?_eq_none.mpr fun p hp => by simp [isDirectory_iff.mpr (h p hp)]
  rw [lookUp, on_get_bind, hnone]
  rfl

theorem lookUp_on_of_missing (hclear : ∀ p ∈ above place, ws.isObstacle p = false)
    (h : ∃ p ∈ above place, ws.node? p = none) :
    (lookUp place).on ws = (.error (.missing (ws.fullName place)), ws) := by
  obtain ⟨p, hp, hnone⟩ := h
  have hsome : ((above place).find? fun p => !ws.isDirectory p).isSome := by
    refine List.find?_isSome.mpr ⟨p, hp, ?_⟩
    rw [Bool.not_eq_true', ← Bool.not_eq_true, isDirectory_iff, hnone]
    simp
  obtain ⟨q, hq⟩ := Option.isSome_iff_exists.mp hsome
  have hdirectory : ws.node? q ≠ some .directory := by
    have := List.find?_some hq
    rwa [Bool.not_eq_true', ← Bool.not_eq_true, isDirectory_iff] at this
  have hmissing : ws.node? q = none :=
    (isObstacle_eq_false.mp (hclear q (List.mem_of_find?_eq_some hq))).resolve_right hdirectory
  rw [lookUp, on_get_bind, hq]
  simp only [hmissing, Option.isSome_none, Bool.false_eq_true, if_false]
  rfl

/-- In a tree nothing stands below an obstacle, and the first place that is no directory is it. -/
theorem lookUp_on_of_obstacle (tree : ws.IsTree) (h : ∃ p ∈ above place, ws.isObstacle p = true) :
    (lookUp place).on ws = (.error (.notDirectory (ws.fullName place)), ws) := by
  obtain ⟨p, hp, hobstacle⟩ := h
  obtain ⟨hnode, hdirectory⟩ := isObstacle_iff.mp hobstacle
  have hsome : ((above place).find? fun p => !ws.isDirectory p).isSome := by
    refine List.find?_isSome.mpr ⟨p, hp, ?_⟩
    rwa [Bool.not_eq_true', ← Bool.not_eq_true, isDirectory_iff]
  obtain ⟨q, hq⟩ := Option.isSome_iff_exists.mp hsome
  obtain ⟨hnot, before, after, hsplit, hbefore⟩ := List.find?_eq_some_iff_append.mp hq
  have hsorted := hsplit ▸ above_pairwise place
  have hfound : (ws.node? q).isSome := by
    rw [hsplit] at hp
    rcases List.mem_append.mp hp with hp | hp
    · have := hbefore p hp
      rw [Bool.not_not, isDirectory_iff] at this
      exact absurd this hdirectory
    · rcases List.mem_cons.mp hp with rfl | hp
      · exact Option.isSome_iff_ne_none.mpr hnode
      · have hbelow := List.rel_of_pairwise_cons (List.pairwise_append.mp hsorted).2.1 hp
        rw [tree.above_eq hnode hbelow]
        rfl
  rw [lookUp, on_get_bind, hq]
  simp only [hfound, if_true]
  rfl

/-! ## Directories -/

/-- Afterwards there are directories down to the place, and nothing else is new. -/
structure Grown (before after : Workspace) (directory : Place) : Prop where
  root_eq : after.root = before.root
  isTree : after.IsTree
  isDirectory : ∀ p, p <+: directory → after.node? p = some .directory
  rest : ∀ p, after.node? p = before.node? p ∨
    p <+: directory ∧ before.node? p = none ∧ after.node? p = some .directory

theorem Grown.trans {mid after : Workspace} (h : Grown ws mid q) (hq : q <+: place)
    (h' : Grown mid after place) : Grown ws after place where
  root_eq := h'.root_eq.trans h.root_eq
  isTree := h'.isTree
  isDirectory := h'.isDirectory
  rest p := by
    rcases h'.rest p with heq | ⟨hp, hnone, hnew⟩
    · rw [heq]
      exact (h.rest p).imp_right fun ⟨hp, hnone, hnew⟩ => ⟨hp.trans hq, hnone, hnew⟩
    · rcases h.rest p with heq | ⟨-, -, hmid⟩
      · exact .inr ⟨hp, heq ▸ hnone, hnew⟩
      · rw [hnone] at hmid
        cases hmid

theorem makeDirectory_on_of_taken (habove : ∀ p ∈ above place, ws.node? p = some .directory)
    (h : ws.node? place ≠ none) :
    (makeDirectory place).on ws = (.error (.fileExists (ws.fullName place)), ws) := by
  rw [makeDirectory, on_bind_ok (lookUp_on_of_directories habove), on_get_bind,
    if_pos (Option.isSome_iff_ne_none.mpr h)]
  rfl

theorem makeDirectory_on_of_free (habove : ∀ p ∈ above place, ws.node? p = some .directory)
    (h : ws.node? place = none) : (makeDirectory place).on ws = (.ok (), ws.set place .directory) := by
  rw [makeDirectory, on_bind_ok (lookUp_on_of_directories habove), on_get_bind, h]
  rfl

theorem ensureDirectory_on_of_tooLong (h : ws.isTooLong place = true) :
    (ensureDirectory place).on ws = (.error (.nameTooLong (ws.fullName place)), ws) := by
  rw [ensureDirectory, on_get_bind, if_pos h]
  rfl

section Short

variable (short : ws.isTooLong place = false)

include short

theorem ensureDirectory_on_error (hself : ws.node? place ≠ some .directory)
    (hmake : (makeDirectory place).on ws = (.error obstacle, ws)) :
    (ensureDirectory place).on ws = (.error obstacle, ws) := by
  have hdirectory : ws.isDirectory place = false := by rwa [← Bool.not_eq_true, isDirectory_iff]
  rw [ensureDirectory, on_get_bind, if_neg (Bool.eq_false_iff.mp short)]
  refine (on_tryCatch_error hmake).trans ?_
  rw [on_get_bind, hdirectory]
  rfl

theorem ensureDirectory_on_of_obstacle (tree : ws.IsTree) (h : ws.obstacle? place = some obstacle) :
    (ensureDirectory place).on ws = (.error obstacle, ws) := by
  unfold obstacle? at h
  split at h
  · rename_i hself
    obtain ⟨hnode, hdirectory⟩ := isObstacle_iff.mp hself
    cases h
    exact ensureDirectory_on_error short hdirectory
      (makeDirectory_on_of_taken (fun p hp => tree.above_eq hnode hp) hnode)
  · split at h
    · rename_i hany
      cases h
      obtain ⟨p, hp, hobstacle⟩ := List.any_eq_true.mp hany
      refine ensureDirectory_on_error short (fun hself => ?_)
        (on_bind_error (lookUp_on_of_obstacle tree ⟨p, hp, hobstacle⟩))
      have hdirectory := tree.above_eq (by rw [hself]; simp) hp
      exact (isObstacle_iff.mp hobstacle).2 hdirectory
    · cases h

theorem ensureDirectory_on_of_missing (tree : ws.IsTree) (h : ws.obstacle? place = none)
    (hmissing : ∃ p ∈ above place, ws.node? p = none) :
    (ensureDirectory place).on ws = (.error (.missing (ws.fullName place)), ws) := by
  have hclear : ∀ p ∈ above place, ws.isObstacle p = false := fun p hp =>
    isObstacle_eq_false.mpr (obstacle?_eq_none.mp h p (mem_above.mp hp).2.1)
  refine ensureDirectory_on_error short (fun hself => ?_)
    (on_bind_error (lookUp_on_of_missing hclear hmissing))
  obtain ⟨p, hp, hnone⟩ := hmissing
  have hdirectory := tree.above_eq (by rw [hself]; simp) hp
  rw [hnone] at hdirectory
  cases hdirectory

theorem ensureDirectory_on_of_directories (tree : ws.IsTree) (hne : place ≠ [])
    (h : ws.obstacle? place = none) (habove : ∀ p ∈ above place, ws.node? p = some .directory) :
    ∃ ws', (ensureDirectory place).on ws = (.ok (), ws') ∧ Grown ws ws' place := by
  have hbefore (ws' : Workspace) (habove' : ∀ p ∈ above place, ws'.node? p = some .directory)
      (hself' : ws'.node? place = some .directory) (p : Place) (hp : p <+: place) :
      ws'.node? p = some .directory := by
    by_cases hnil : p = []
    · exact hnil ▸ node?_nil
    · by_cases heq : p = place
      · exact heq ▸ hself'
      · exact habove' p (mem_above.mpr ⟨hnil, hp, heq⟩)
  rw [ensureDirectory, on_get_bind, if_neg (Bool.eq_false_iff.mp short)]
  rcases obstacle?_eq_none.mp h place List.prefix_rfl with hself | hself
  · refine ⟨ws.set place .directory, on_tryCatch_ok (makeDirectory_on_of_free habove hself), rfl,
      tree.set habove fun _ => rfl, ?_, fun p => ?_⟩
    · refine hbefore _ (fun p hp => ?_) (node?_set_self hne)
      rw [node?_set_of_ne (mem_above.mp hp).2.2]
      exact habove p hp
    · by_cases heq : p = place
      · exact .inr ⟨heq ▸ List.prefix_rfl, heq ▸ hself, by rw [heq, node?_set_self hne]⟩
      · exact .inl (node?_set_of_ne heq)
  · have hmake := makeDirectory_on_of_taken habove (by rw [hself]; simp)
    refine ⟨ws, (on_tryCatch_error hmake).trans ?_, rfl, tree, hbefore ws habove hself, fun p => .inl rfl⟩
    rw [on_get_bind, isDirectory_iff.mpr hself]
    rfl

end Short

/-- The last of the directories is made below those that have been made. -/
theorem ensureDirectory_on_grown {name : Text} {names : List Text} {mid : Workspace}
    (clear : ws.obstacle? (name :: names).reverse = none) (hgrown : Grown ws mid names.reverse) :
    Ended ws (name :: names).reverse (Grown ws · (name :: names).reverse)
      ((ensureDirectory (name :: names).reverse).on mid) := by
  cases hlong : mid.isTooLong (name :: names).reverse with
  | true =>
    rw [ensureDirectory_on_of_tooLong hlong]
    exact .tooLong _ _
  | false =>
    have hclear' : mid.obstacle? (name :: names).reverse = none := by
      refine obstacle?_eq_none.mpr fun p hp => ?_
      rcases hgrown.rest p with heq | ⟨-, -, hnew⟩
      · rw [heq]
        exact obstacle?_eq_none.mp clear p hp
      · exact .inr hnew
    have habove : ∀ p ∈ above (name :: names).reverse, mid.node? p = some .directory := by
      intro p hp
      rw [List.reverse_cons] at hp
      exact hgrown.isDirectory p (mem_above_concat.mp hp).2
    obtain ⟨ws', hensure, hgrown'⟩ :=
      ensureDirectory_on_of_directories hlong hgrown.isTree (by simp) hclear' habove
    rw [hensure]
    exact .done clear (hgrown.trans (by simp) hgrown')

/-- Directories are made down to a place. -/
theorem makeDirectories_on (tree : ws.IsTree) (upward : List Text) :
    Ended ws upward.reverse (Grown ws · upward.reverse) ((makeDirectories upward).on ws) := by
  induction upward with
  | nil =>
    have hroot : ∀ p, p <+: [] → ws.node? p = some .directory := fun p hp => by
      rw [List.prefix_nil.mp hp, node?_nil]
    exact .done rfl ⟨rfl, tree, hroot, fun p => .inl rfl⟩
  | cons name names ih =>
    cases hlong : ws.isTooLong (name :: names).reverse with
    | true =>
      rw [makeDirectories, on_tryCatch_error (ensureDirectory_on_of_tooLong hlong)]
      exact .tooLong _ _
    | false =>
      cases hobstacle : ws.obstacle? (name :: names).reverse with
      | some obstacle =>
        rw [makeDirectories, on_tryCatch_error (ensureDirectory_on_of_obstacle hlong tree hobstacle)]
        cases obstacle with
        | missing => exact absurd hobstacle obstacle?_ne_missing
        | fileExists | notDirectory | isDirectory | nameTooLong => exact .blocked hobstacle
      | none =>
        by_cases hmissing : ∃ p ∈ above (name :: names).reverse, ws.node? p = none
        · rw [makeDirectories,
            on_tryCatch_error (ensureDirectory_on_of_missing hlong tree hobstacle hmissing)]
          generalize hmake : (makeDirectories names).on ws = result at ih
          cases ih with
          | done clear hgrown =>
            exact on_bind_ok hmake ▸ ensureDirectory_on_grown hobstacle hgrown
          | blocked hblocked =>
            have hup : names.reverse <+: (name :: names).reverse := by simp
            have hclear : ws.obstacle? names.reverse = none :=
              obstacle?_eq_none.mpr fun p hp => obstacle?_eq_none.mp hobstacle p (hp.trans hup)
            rw [hclear] at hblocked
            cases hblocked
          | tooLong => exact on_bind_error hmake ▸ .tooLong _ _
        · push Not at hmissing
          have hdirectories : ∀ p ∈ above (name :: names).reverse, ws.node? p = some .directory :=
            fun p hp => (obstacle?_eq_none.mp hobstacle p (mem_above.mp hp).2.1).resolve_left
              (hmissing p hp)
          obtain ⟨ws', hensure, hgrown⟩ :=
            ensureDirectory_on_of_directories hlong tree (by simp) hobstacle hdirectories
          rw [makeDirectories, on_tryCatch_ok hensure]
          exact .done hobstacle hgrown

end Calls
end LoosePatch
