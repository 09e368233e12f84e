import LoosePatch.Proofs.Path
import LoosePatch.Proofs.Tool.Plan
import LoosePatch.Tool.Read

/-!
The paths that the tools take. A path is followed component by component from where the workspace
lies (`Path.reach`), and its resolved form leads to the same place (`reach_normalize`). One that
passes the check of the tools is made of names only (`Path.Descends`), so it leads below the place
that it is followed from; one that leads anywhere else is refused (`accepted_paths_descend`).
-/

namespace LoosePatch.Path

variable {rooted : Bool} {above ps : List Text} {part path : Text} {top : Place}

/-- Where a component leads from a place; above the top of the tree there is the top again. -/
def follow (place : Place) (part : Text) : Place :=
  if part = [] ∨ part = here then place
  else if part = parent then place.dropLast
  else place ++ [part]

/-- The place that a path names for someone at `top`; with a slash in front it is followed from the
top of the tree. -/
def reach (top : Place) (path : Text) : Place :=
  (parts path).foldl follow (if path.head? = some '/' then [] else top)

/-- Below a place, and not the place itself. -/
def Below (top place : Place) : Prop := top <+: place ∧ place ≠ top

theorem below_append (top : Place) (h : ps ≠ []) : Below top (top ++ ps) :=
  ⟨List.prefix_append top ps, fun heq => h (List.append_right_eq_self.mp heq)⟩

/-- A path that only goes down, by names that every system takes for names. -/
structure Descends (path : Text) : Prop where
  ne_nil : path ≠ []
  relative : path.head? ≠ some '/'
  names : ∀ part ∈ parts path, part ≠ [] ∧ part ≠ here ∧ part ≠ parent
  no_backslash : '\\' ∉ path
  no_colon : ':' ∉ path
  no_nul : '\x00' ∉ path

/-! ## Following what is resolved -/

theorem follow_name (hproper : Proper part) (hnot : part ≠ parent) (place : Place) :
    follow place part = place ++ [part] := by
  rw [follow, if_neg (not_or.mpr ⟨hproper.1, hproper.2.1⟩), if_neg hnot]

theorem follow_parent (place : Place) : follow place parent = place.dropLast := rfl

theorem foldl_follow_cons (top : Place) (part : Text) (above : List Text) :
    (part :: above).reverse.foldl follow top = follow (above.reverse.foldl follow top) part := by
  rw [List.reverse_cons, List.foldl_append, List.foldl_cons, List.foldl_nil]

/-- Pushing a component leads where following it leads. -/
theorem foldl_follow_push (h : Resolved rooted above) (htop : rooted = true → top = [])
    (part : Text) : (push rooted above part).reverse.foldl follow top =
      follow (above.reverse.foldl follow top) part := by
  unfold push
  split
  · rename_i hempty
    rw [follow, if_pos hempty]
  · rename_i hkept
    split
    · rename_i hparent
      subst hparent
      cases h with
      | nil =>
        cases rooted with
        | true =>
          rw [htop rfl]
          rfl
        | false => rfl
      | @cons above last hrest hproper hclimbs =>
        dsimp only
        split
        · exact foldl_follow_cons top parent _
        · -- The step back takes the last name off again.
          rename_i hlast
          rw [foldl_follow_cons, follow_name hproper hlast, follow_parent, List.dropLast_concat]
    · exact foldl_follow_cons top part above

theorem foldl_follow_foldl_push (h : Resolved rooted above) (htop : rooted = true → top = [])
    (hps : ∀ part ∈ ps, '/' ∉ part) : (ps.foldl (push rooted) above).reverse.foldl follow top =
      ps.foldl follow (above.reverse.foldl follow top) := by
  induction ps generalizing above with
  | nil => rfl
  | cons part ps ih =>
    obtain ⟨hpart, hps⟩ := List.forall_mem_cons.mp hps
    rw [List.foldl_cons, ih (h.push hpart) hps, foldl_follow_push h htop, List.foldl_cons]

theorem root_eq_nil_iff : root path = [] ↔ path.head? ≠ some '/' := by
  unfold root
  split
  · simp
  · simp
  · simp
  · rename_i hslash
    refine iff_of_true rfl fun hhead => ?_
    obtain ⟨rest, hrest⟩ := List.head?_eq_some_iff.mp hhead
    exact hslash rest hrest

theorem foldl_follow_parts (place : Place) (h : ∀ part ∈ ps, Proper part) :
    (parts (['/'].intercalate ps)).foldl follow place = ps.foldl follow place := by
  by_cases hnil : ps = []
  · subst hnil
    rfl
  · rw [parts_intercalate h hnil]

theorem reach_slash (top : Place) (path : Text) :
    reach top ('/' :: path) = (parts path).foldl follow [] := by
  rw [reach, parts_slash]
  rfl

theorem reach_spell {lead : Text} (hlead : lead = [] ∨ lead = ['/'] ∨ lead = ['/', '/'])
    (h : ∀ part ∈ ps, Proper part) :
    reach top (spell lead ps) = ps.foldl follow (if lead = [] then top else []) := by
  rw [spell]
  split
  · rename_i hempty
    obtain ⟨hlead, hbody⟩ := Bool.and_eq_true_iff.mp hempty
    rcases intercalate_cases h with rfl | ⟨c, text, htext, -⟩
    · rw [List.isEmpty_iff.mp hlead]
      rfl
    · rw [htext] at hbody
      cases hbody
  · rcases hlead with rfl | rfl | rfl
    · have hroot : root (['/'].intercalate ps) = [] := root_append (.inl rfl) h
      rw [List.nil_append, reach, if_neg (root_eq_nil_iff.mp hroot), if_pos rfl,
        foldl_follow_parts top h]
    · rw [List.singleton_append, reach_slash, foldl_follow_parts [] h]
      rfl
    · rw [List.cons_append, List.singleton_append, reach_slash, parts_slash, List.foldl_cons,
        foldl_follow_parts _ h]
      rfl

/-- Resolving a path changes nothing about where it leads, wherever it is followed from. -/
theorem reach_normalize (top : Place) (path : Text) : reach top (normalize path) = reach top path := by
  have htop : (!(root path).isEmpty) = true → (if root path = [] then top else []) = [] := by
    intro hrooted
    rw [if_neg]
    rintro heq
    rw [heq] at hrooted
    cases hrooted
  have hstart : (if root path = [] then top else []) = if path.head? = some '/' then [] else top := by
    by_cases hroot : root path = []
    · rw [if_pos hroot, if_neg (root_eq_nil_iff.mp hroot)]
    · rw [if_neg hroot, if_pos (not_not.mp fun hhead => hroot (root_eq_nil_iff.mpr hhead))]
  rw [normalize_eq_spell, reach_spell (root_cases path) fun _ => proper_of_mem_resolve, resolve,
    foldl_follow_foldl_push .nil htop fun _ => not_mem_of_mem_parts, reach, ← hstart]
  rfl

theorem reach_plain (top : Place) (raw : Text) : reach top (plain raw) = reach top (forward raw.trim) := by
  rw [plain]
  split
  · rename_i hempty
    rw [List.isEmpty_iff.mp hempty]
  · exact reach_normalize top _

/-! ## Names only -/

theorem foldl_follow_names (h : ∀ part ∈ ps, part ≠ [] ∧ part ≠ here ∧ part ≠ parent) :
    ps.foldl follow top = top ++ ps := by
  induction ps generalizing top with
  | nil => rw [List.foldl_nil, List.append_nil]
  | cons part ps ih =>
    obtain ⟨⟨hne, hhere, hparent⟩, hps⟩ := List.forall_mem_cons.mp h
    rw [List.foldl_cons, ih hps, follow, if_neg (not_or.mpr ⟨hne, hhere⟩), if_neg hparent,
      List.append_assoc, List.singleton_append]

theorem Descends.reach_eq (h : Descends path) (top : Place) : reach top path = top ++ parts path := by
  rw [reach, if_neg h.relative, foldl_follow_names h.names]

/-- A path that goes down is appended to the path of a directory as a place is. -/
theorem Descends.reach_append (h : Descends path) (base : Text) :
    reach [] (base ++ '/' :: path) = reach [] base ++ parts path := by
  have hparts : parts (base ++ '/' :: path) = parts base ++ parts path :=
    List.splitOn_append_cons_self base path
  rw [reach, reach, ite_self, ite_self, hparts, List.foldl_append, foldl_follow_names h.names]

/-- On a stack a `..` lies under all names, so it comes first. -/
theorem Resolved.head?_reverse (h : Resolved rooted above) (hmem : parent ∈ above) :
    above.reverse.head? = some parent := by
  induction h with
  | nil => cases hmem
  | @cons above part hrest hproper hclimbs ih =>
    rw [List.reverse_cons]
    by_cases hbelow : parent ∈ above
    · rw [List.head?_append, ih hbelow, Option.some_or]
    · rcases List.mem_cons.mp hmem with rfl | hmem
      · have hnil : above = [] :=
          List.eq_nil_iff_forall_not_mem.mpr fun part hpart =>
            hbelow ((hclimbs rfl).2 part hpart ▸ hpart)
        rw [hnil]
        rfl
      · exact absurd hmem hbelow

/-- A normal path goes down, unless it begins with a slash or with `..`, or is `.`. -/
theorem names_of_normal (h : normalize path = path) (hhere : path ≠ here)
    (hslash : path.head? ≠ some '/') (hparent : ¬parent <+: path) :
    ∀ part ∈ parts path, part ≠ [] ∧ part ≠ here ∧ part ≠ parent := by
  obtain ⟨hproper, hresolved⟩ := parts_of_normal h (root_eq_nil_iff.mpr hslash) hhere
  intro part hpart
  refine ⟨(hproper part hpart).1, (hproper part hpart).2.1, ?_⟩
  rintro rfl
  have hhead := hresolved.head?_reverse (List.mem_reverse.mpr hpart)
  rw [List.reverse_reverse] at hhead
  obtain ⟨rest, hrest⟩ := List.head?_eq_some_iff.mp hhead
  have hjoin : ['/'].intercalate (parts path) = path := List.intercalate_splitOn '/'
  refine hparent ?_
  rw [← hjoin, hrest]
  cases rest with
  | nil => exact ⟨[], (List.append_nil _).trans (List.intercalate_singleton ..).symm⟩
  | cons next rest =>
    rw [List.intercalate_cons_cons, List.append_assoc]
    exact List.prefix_append _ _

end LoosePatch.Path

namespace LoosePatch.Tool

open LoosePatch.Path (parts reach plain forward Below Descends)

variable {α : Type} [Score α] {config : Config α} {ws : Workspace} {path raw : Text}
  {target : Target} {params : Params} {plan : Plan α} {args : Fields}

/-- A path as it is given passes the check. -/
def Passes (raw : Text) : Prop := pathFault? (plain raw) raw = none

theorem of_pathFault?_eq_none (h : pathFault? path raw = none) :
    path ≠ [] ∧ path ≠ Path.here ∧ path.head? ≠ some '/' ∧ ¬Path.parent <+: path ∧ ':' ∉ path ∧
      '\x00' ∉ path := by
  unfold pathFault? at h
  split_ifs at h with hempty hclimbs _ hcolon hnul _
  rw [Bool.or_eq_true, not_or, List.isEmpty_iff, beq_iff_eq] at hempty
  rw [Bool.or_eq_true, not_or, beq_iff_eq, List.isPrefixOf_iff_prefix] at hclimbs
  rw [List.contains_iff_mem] at hcolon hnul
  exact ⟨hempty.1, hempty.2, hclimbs.1, hclimbs.2, hcolon, hnul⟩

theorem Passes.descends (h : Passes raw) : Descends (plain raw) := by
  obtain ⟨hne, hhere, hslash, hparent, hcolon, hnul⟩ := of_pathFault?_eq_none h
  have hnormal : plain raw = Path.normalize (forward raw.trim) := by
    rw [plain, if_neg]
    intro hempty
    exact hne (if_pos hempty)
  have hbackslash : '\\' ∉ plain raw := by
    intro hmem
    rw [hnormal] at hmem
    rcases Path.mem_normalize hmem with hmem | hslash | hdot
    · exact Path.not_mem_forward _ hmem
    · cases hslash
    · cases hdot
  refine ⟨hne, hslash, ?_, hbackslash, hcolon, hnul⟩
  refine Path.names_of_normal ?_ hhere hslash hparent
  rw [hnormal, Path.normalize_normalize]

theorem Passes.reach_eq (h : Passes raw) (top : Place) :
    reach top (forward raw.trim) = top ++ parts (plain raw) := by
  rw [← Path.reach_plain, h.descends.reach_eq]

/-! ## Where the check is made -/

theorem passes_of_resolvePath (h : resolvePath ws raw = .ok target) :
    Passes raw ∧ target.1 = plain raw :=
  (resolvePath_eq_ok h).imp_right And.left

theorem resolvePath_of_pathFault? {fault : PathFault} (h : pathFault? (plain raw) raw = some fault)
    (ws : Workspace) : resolvePath ws raw =
      .error (.failed ⟨.badPath fault, if raw.isEmpty then none else some raw⟩) := by
  simp only [resolvePath, h]

theorem passes_of_plan (h : Tool.plan config ws params = .ok plan) :
    (Passes params.path ∧ plan.source.1 = plain params.path) ∧
    ∀ name, params.rename = some name →
      Passes name ∧ plan.destination.map Prod.fst = some (plain name) := by
  obtain ⟨source, destination, current, change, hsource, hdestination, -, -, -, rfl⟩ := plan_eq_ok h
  refine ⟨passes_of_resolvePath hsource, fun name hname => ?_⟩
  obtain ⟨target, rfl, hresolve⟩ := resolveRename_of_some hname hdestination
  obtain ⟨hpasses, htarget⟩ := passes_of_resolvePath hresolve
  exact ⟨hpasses, congrArg some htarget⟩

theorem Stop.answer_ne_page (stop : Stop) (page : Text) : stop.answer ≠ .page page := by
  cases stop <;> rintro ⟨⟩

theorem passes_of_read {path : String} {page : Text} (hpath : args.get? "path" = some (.text path))
    (h : read ws args = .page page) : Passes path.toList := by
  cases hresolve : resolvePath ws path.toList with
  | ok target => exact (passes_of_resolvePath hresolve).1
  | error stop =>
    simp only [read, hpath, hresolve] at h
    cases hcall : isCall readArguments args with
    | true =>
      rw [hcall] at h
      exact absurd h (Stop.answer_ne_page stop page)
    | false =>
      rw [hcall] at h
      cases h

/-- **Accepted paths do not climb out.** A path that passes the check has a plain form of names only,
and leads below the place it is followed from, as it was given and when its plain form is appended to
the path of a directory. A path that leads anywhere else, from any place, is refused for its own
fault. What is followed of a given path is the path without the blanks around it, and a backslash in
it parts two components as a slash does. An edit is planned, and a page is read, only for paths that
pass. -/
theorem accepted_paths_descend (config : Config α) (ws : Workspace) (raw : Text) :
    (Passes raw → Descends (plain raw) ∧
      (∀ top, Below top (reach top (forward raw.trim))) ∧
      ∀ base, Below (reach [] base) (reach [] (base ++ '/' :: plain raw))) ∧
    (∀ top, ¬Below top (reach top (forward raw.trim)) → ∃ fault,
      pathFault? (plain raw) raw = some fault ∧ (Refusal.badPath fault).kind = "file_state" ∧
      resolvePath ws raw =
        .error (.failed ⟨.badPath fault, if raw.isEmpty then none else some raw⟩)) ∧
    (∀ params plan, Tool.plan config ws params = .ok plan →
      (params.path = raw → Passes raw ∧ plan.source.1 = plain raw) ∧
      (params.rename = some raw → Passes raw ∧ plan.destination.map Prod.fst = some (plain raw))) ∧
    ∀ args page, args.get? "path" = some (.text (String.ofList raw)) → read ws args = .page page →
      Passes raw := by
  have hbelow (hpasses : Passes raw) (top : Place) : Below top (reach top (forward raw.trim)) := by
    rw [hpasses.reach_eq]
    exact Path.below_append top (List.splitOn_ne_nil _ _)
  refine ⟨fun hpasses => ⟨hpasses.descends, hbelow hpasses, fun base => ?_⟩, fun top houtside => ?_,
    fun params plan hplan => ⟨?_, (passes_of_plan hplan).2 raw⟩, fun args page hpath hread => ?_⟩
  · rw [hpasses.descends.reach_append]
    exact Path.below_append _ (List.splitOn_ne_nil _ _)
  · cases hfault : pathFault? (plain raw) raw with
    | none => exact absurd (hbelow hfault top) houtside
    | some fault => exact ⟨fault, rfl, rfl, resolvePath_of_pathFault? hfault ws⟩
  · rintro rfl
    exact (passes_of_plan hplan).1
  · have hpasses := passes_of_read hpath hread
    rwa [String.toList_ofList] at hpasses

/-- A path that turns back on its way, and one that turns back too often. -/
theorem accepted_paths_descend_turning :
    Descends ['b', '/', 'c'] ∧
    ∃ fault, resolvePath { root := ['w'] } ['a', '\\', '.', '.', '/', '.', '.'] =
      .error (.failed ⟨.badPath fault, some ['a', '\\', '.', '.', '/', '.', '.']⟩) := by
  let config : Config Rat := .usual Score.decimal
  have hturns := accepted_paths_descend config { root := ['w'] }
    [' ', '.', '/', 'a', '/', '.', '.', '/', 'b', '\\', 'c', '\n']
  have hleaves := accepted_paths_descend config { root := ['w'] } ['a', '\\', '.', '.', '/', '.', '.']
  obtain ⟨fault, -, -, hrefused⟩ := hleaves.2.1 [['w']] (by unfold Below; decide)
  exact ⟨(hturns.1 (by unfold Passes; decide)).1, fault, hrefused⟩

end LoosePatch.Tool
