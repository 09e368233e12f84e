import LoosePatch.Proofs.Engine.Effect
import LoosePatch.Proofs.Workspace.Drafts
import LoosePatch.Tool.Edit

/-!
What a plan of the edit tool comes from (`plan_eq_ok`), what it finds in its workspace
(`Plan.Ready`), and what carrying it out does there (`Plan.commit_on`): the change that it says,
unless no directory can be made for the file or a name is too long.
-/

namespace LoosePatch

open Workspace

variable {ws mid after : Workspace} {place source goal : Place} {node : Node}
  {content old : ByteArray} {mode : Nat}

/-! ## Changes of a workspace -/

/-- How a workspace has changed: what was written, which file is gone, and nothing else but new
directories above what was written. -/
structure Changed (before after : Workspace) (written : Option (Place × Node)) (gone : Option Place) :
    Prop where
  root_eq : after.root = before.root
  isTree : after.IsTree
  written_eq : ∀ place node, written = some (place, node) → after.node? place = some node
  gone_eq : ∀ place, gone = some place → after.node? place = none
  rest : ∀ p, written.map Prod.fst ≠ some p → gone ≠ some p → after.node? p = before.node? p ∨
    ∃ place node, written = some (place, node) ∧ p ∈ above place ∧ before.node? p = none ∧
      after.node? p = some .directory

theorem Written.changed (h : Written ws after place node) :
    Changed ws after (some (place, node)) none where
  root_eq := h.root_eq
  isTree := h.isTree
  written_eq := by
    rintro _ _ ⟨⟩
    exact h.node_eq
  gone_eq := by
    rintro _ ⟨⟩
  rest p hp _ := (h.rest p fun heq => hp (congrArg some heq.symm)).imp_right fun hnew =>
    ⟨place, node, rfl, hnew⟩

theorem IsTree.changed_remove (tree : ws.IsTree) (h : ws.node? place = some (.file old mode)) :
    Changed ws (ws.remove place) none (some place) where
  root_eq := rfl
  isTree := tree.remove (by rw [h]; simp)
  written_eq := by
    rintro _ _ ⟨⟩
  gone_eq := by
    rintro _ ⟨⟩
    refine node?_remove_self ?_
    rintro rfl
    cases h
  rest p _ hp := .inl (node?_remove_of_ne fun heq => hp (congrArg some heq.symm))

theorem Written.changed_remove (h : Written ws mid goal node) (hne : source ≠ goal)
    (hsource : mid.node? source = some (.file old mode)) :
    Changed ws (mid.remove source) (some (goal, node)) (some source) where
  root_eq := h.root_eq
  isTree := h.isTree.remove (by rw [hsource]; simp)
  written_eq := by
    rintro _ _ ⟨⟩
    rw [node?_remove_of_ne hne.symm, h.node_eq]
  gone_eq := by
    rintro _ ⟨⟩
    refine node?_remove_self ?_
    rintro rfl
    cases hsource
  rest p hp hp' := by
    rw [node?_remove_of_ne fun heq => hp' (congrArg some heq.symm)]
    exact (h.rest p fun heq => hp (congrArg some heq.symm)).imp_right fun hnew =>
      ⟨goal, node, rfl, hnew⟩

/-- A file is moved to a place where nothing is, or written where it is. -/
theorem Calls.move_on (tree : ws.IsTree) (hne : goal ≠ [])
    (hsource : ws.node? source = some (.file old mode))
    (hgoal : goal = source ∨ ws.node? goal = none) (content : ByteArray) :
    Ended ws goal.dropLast
      (Changed ws · (some (goal, .file content mode)) (if goal = source then none else some source))
      ((move source goal content mode).on ws) := by
  have hfile : ws.node? goal ≠ some .directory := by
    rcases hgoal with rfl | hfree
    · simp [hsource]
    · simp [hfree]
  refine (overwrite_on tree hne hfile content mode).bind fun mid clear hwritten => ?_
  by_cases hsame : goal = source
  · rw [if_neg (not_not.mpr hsame), if_pos hsame]
    exact .done clear hwritten.changed
  · have hkept : mid.node? source = some (.file old mode) := by
      rcases hwritten.rest source (Ne.symm hsame) with heq | ⟨-, hnone, -⟩
      · rw [heq, hsource]
      · rw [hsource] at hnone
        cases hnone
    rw [if_pos hsame, if_neg hsame, on_tryCatch_ok (unlink_on hwritten.isTree hkept)]
    exact .done clear (hwritten.changed_remove (Ne.symm hsame) hkept)

namespace Tool

variable {α : Type} {target : Target} {given : Text} {op : Operation}

/-! ## What calls find -/

theorem resolvePath_eq_ok (h : resolvePath ws given = .ok target) :
    pathFault? (Path.plain given) given = none ∧ target.1 = Path.plain given ∧
      ws.resolve (Path.plain given) = .inside target.2 := by
  simp only [resolvePath] at h
  cases hfault : pathFault? (Path.plain given) given with
  | some why =>
    rw [hfault] at h
    cases h
  | none =>
    cases hresolve : ws.resolve (Path.plain given) with
    | inside place =>
      rw [hfault, hresolve] at h
      cases h
      exact ⟨rfl, rfl, rfl⟩
    | outside | loop =>
      rw [hfault, hresolve] at h
      cases h

theorem resolvePath_followed (h : resolvePath ws given = .ok target) : ws.Followed target.2 :=
  resolve_followed (resolvePath_eq_ok h).2.2

theorem resolvePath_of_no_links (hlinks : ∀ entry ∈ ws.entries, ∀ target, entry.2 ≠ .link target)
    (hplain : Path.plain given = given) (hfault : pathFault? given given = none)
    (hnames : ∀ name ∈ Path.parts given, name ≠ [] ∧ name ≠ Path.here ∧ name ≠ Path.parent) :
    resolvePath ws given = .ok (given, Path.parts given) := by
  simp only [resolvePath, hplain, hfault, resolve_of_no_links hlinks hnames]

theorem node?_eq_none_of_holds (hfollowed : ws.Followed place) (h : ws.holds place = false) :
    ws.node? place = none := by
  unfold holds at h
  split at h
  · rename_i target hlink
    exact absurd hlink (hfollowed place List.prefix_rfl target)
  · assumption
  · cases h

/-- A new file starts from nothing. -/
theorem holds_of_readCurrent_create {current : Option ByteArray}
    (h : readCurrent ws .create target = .ok current) :
    current = none ∧ ws.holds target.2 = false := by
  obtain ⟨path, place⟩ := target
  simp only [readCurrent] at h
  split at h
  · cases h
  · split at h
    · cases h
    · rename_i hfree
      cases h
      exact ⟨rfl, by simpa using hfree⟩

/-- Any other change starts from what the file holds. -/
theorem file_of_readCurrent {current : Option ByteArray} (hop : op ≠ .create)
    (h : readCurrent ws op target = .ok current) :
    ∃ content mode, current = some content ∧ ws.node? target.2 = some (.file content mode) := by
  obtain ⟨path, place⟩ := target
  simp only [readCurrent] at h
  split at h
  · cases h
  · cases op with
    | create => exact absurd rfl hop
    | update | delete =>
      simp only at h
      split at h
      · cases h
      · split at h
        · rename_i content mode hfile
          cases h
          exact ⟨content, mode, rfl, file?_eq_some.mp hfile⟩
        · cases h

theorem checkDestination_eq_ok {name : Text} {start : Target}
    (h : checkDestination ws start (some (name, place)) = .ok ()) :
    ws.holds place = false ∨ place = start.2 := by
  simp only [checkDestination] at h
  split at h
  · cases h
  · split at h
    · cases h
    · rename_i hfree
      simpa [Classical.or_iff_not_imp_left] using hfree

/-! ## Where plans come from -/

namespace Plan

/-- What a plan finds in its workspace: a place that is free, or a file. -/
inductive Ready (ws : Workspace) : Plan α → Prop
  | create {source : Target} {change : Change α} {content : ByteArray}
    (free : ws.node? source.2 = none) (writes : change.effect = .write content) :
    Ready ws { operation := .create, source, destination := none, change }
  | update {source : Target} {destination : Option Target} {change : Change α}
    {old content : ByteArray} {mode : Nat}
    (file : ws.node? source.2 = some (.file old mode)) (writes : change.effect = .write content)
    (free : (destination.getD source).2 = source.2 ∨ ws.node? (destination.getD source).2 = none) :
    Ready ws { operation := .update, source, destination, change }
  | delete {source : Target} {change : Change α} {old : ByteArray} {mode : Nat}
    (file : ws.node? source.2 = some (.file old mode)) (deletes : change.effect = .delete) :
    Ready ws { operation := .delete, source, destination := none, change }

/-- What carrying a plan out changes: a new file has the mode of new files, any other keeps its
mode. -/
def Performed (plan : Plan α) (before after : Workspace) : Prop :=
  match plan.operation, plan.change.effect with
  | .create, .write content => Changed before after (some (plan.target.2, .file content 0o644)) none
  | .update, .write content => ∃ old mode, before.file? plan.source.2 = some (old, mode) ∧
      Changed before after (some (plan.target.2, .file content mode))
        (if plan.target.2 = plan.source.2 then none else some plan.source.2)
  | .delete, .delete => Changed before after none (some plan.source.2)
  | _, _ => False

/-- The directory that a plan needs; there is always the root. -/
def directory (plan : Plan α) : Place :=
  match plan.change.effect with
  | .write _ => plan.target.2.dropLast
  | .delete => []

variable {plan : Plan α}

theorem commit_on (tree : ws.IsTree) (ready : plan.Ready ws) :
    Calls.Ended ws plan.directory (plan.Performed ws) (plan.commit.on ws) := by
  have hroot {place : Place} (h : ws.node? place ≠ some .directory) : place ≠ [] := by
    rintro rfl
    exact h node?_nil
  cases ready with
  | @create source change content free writes =>
    have hcreate := Calls.create_on tree (hroot (by simp [free])) free content
    simp only [directory, commit, writes, target, Option.getD_none, if_pos]
    refine hcreate.imp fun after hwritten => ?_
    simp only [Performed, writes, target, Option.getD_none]
    exact hwritten.changed
  | @update source destination change old content mode file writes free =>
    have hgoal : ws.node? (destination.getD source).2 ≠ some .directory := by
      rcases free with hsame | hfree
      · simp [hsame, file]
      · simp [hfree]
    have hmove := Calls.move_on tree (hroot hgoal) file free content
    have hmode : (Calls.modeOf source.2).on ws = (.ok mode, ws) := by
      rw [Calls.modeOf, Calls.on_get_bind, file?_eq_some.mpr file]
      rfl
    simp only [directory, commit, writes, target, reduceCtorEq, if_false]
    rw [Calls.on_bind_ok hmode]
    refine hmove.imp fun after hchanged => ?_
    simp only [Performed, writes, target]
    exact ⟨old, mode, file?_eq_some.mpr file, hchanged⟩
  | @delete source change old mode file deletes =>
    simp only [directory, commit, deletes]
    rw [Calls.unlink_on tree file]
    refine .done rfl ?_
    simp only [Performed, deletes]
    exact IsTree.changed_remove tree file

end Plan

variable [Score α] {config : Config α} {params : Params} {plan : Plan α}

theorem changeFor_eq_ok {request : Request} {current : Option ByteArray} {change : Change α}
    (h : changeFor config request current = .ok change) :
    (Engine.apply config request current).result = .ok change := by
  unfold changeFor at h
  split at h
  · cases h
  · cases h
  · rename_i hresult
    split at h
    · cases h
    · cases h
      exact hresult

/-- A plan is what the engine makes of the files that are found. -/
theorem plan_eq_ok (h : Tool.plan config ws params = .ok plan) :
    ∃ source destination current change, resolvePath ws params.path = .ok source ∧
      resolveRename ws params = .ok destination ∧
      readCurrent ws params.operation source = .ok current ∧
      (Engine.apply config (params.request source destination) current).result = .ok change ∧
      checkDestination ws source destination = .ok () ∧
      plan = { operation := params.operation, source, destination, change } := by
  obtain ⟨-, -, h⟩ := bind_eq_ok.mp h
  obtain ⟨source, hsource, h⟩ := bind_eq_ok.mp h
  obtain ⟨destination, hdestination, h⟩ := bind_eq_ok.mp h
  obtain ⟨current, hcurrent, h⟩ := bind_eq_ok.mp h
  obtain ⟨change, hchange, h⟩ := bind_eq_ok.mp h
  obtain ⟨⟨⟩, hfree, h⟩ := bind_eq_ok.mp h
  cases h
  exact ⟨source, destination, current, change, hsource, hdestination, hcurrent,
    changeFor_eq_ok hchange, hfree, rfl⟩

theorem resolveRename_of_some {name : Text} {destination : Option Target} (hname : params.rename = some name)
    (h : resolveRename ws params = .ok destination) :
    ∃ target, destination = some target ∧ resolvePath ws name = .ok target := by
  simp only [resolveRename, hname] at h
  cases hresolve : resolvePath ws name with
  | error why =>
    rw [hresolve] at h
    cases h
  | ok target =>
    rw [hresolve] at h
    cases h
    exact ⟨target, rfl, rfl⟩

theorem resolveRename_eq_ok {destination : Target} (h : resolveRename ws params = .ok (some destination)) :
    ∃ name, resolvePath ws name = .ok destination := by
  cases hname : params.rename with
  | none =>
    rw [resolveRename, hname] at h
    cases h
  | some name =>
    obtain ⟨target, htarget, hresolve⟩ := resolveRename_of_some hname h
    cases htarget
    exact ⟨name, hresolve⟩

/-- What a plan comes from makes it ready. -/
theorem ready_of_plan (h : Tool.plan config ws params = .ok plan) : plan.Ready ws := by
  obtain ⟨source, destination, current, change, hsource, hdestination, hcurrent, hchange, hfree,
    rfl⟩ := plan_eq_ok h
  have heffect := Engine.apply_effect hchange
  have hstays (hop : params.operation ≠ .update) : destination = none := by
    by_contra hrenamed
    refine hop (Engine.update_of_renameTo hchange ?_)
    rwa [Params.request, ne_eq, Option.map_eq_none_iff]
  cases hop : params.operation with
  | create =>
    simp only [Params.request, hop] at hcurrent heffect
    obtain ⟨content, hcontent⟩ := heffect
    rw [hstays (by rw [hop]; decide)]
    exact .create (node?_eq_none_of_holds (resolvePath_followed hsource)
      (holds_of_readCurrent_create hcurrent).2) hcontent
  | delete =>
    simp only [Params.request, hop] at hcurrent heffect
    obtain ⟨old, mode, -, hfile⟩ := file_of_readCurrent (by decide) hcurrent
    rw [hstays (by rw [hop]; decide)]
    exact .delete hfile heffect
  | update =>
    simp only [Params.request, hop] at hcurrent heffect
    obtain ⟨old, mode, -, hfile⟩ := file_of_readCurrent (by decide) hcurrent
    obtain ⟨content, hcontent⟩ := heffect
    refine .update hfile hcontent ?_
    cases destination with
    | none => exact .inl rfl
    | some target =>
      obtain ⟨name, hname⟩ := resolveRename_eq_ok hdestination
      exact (checkDestination_eq_ok hfree).symm.imp_right
        (node?_eq_none_of_holds (resolvePath_followed hname))

end Tool
end LoosePatch
