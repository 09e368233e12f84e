import LoosePatch.Path
import LoosePatch.Proofs.Text.Lines

/-!
Resolved paths. Resolving pushes components on a stack, and what stands on it is `Resolved`: pushed
again, it gives the same stack. So a resolved path is resolved already (`normalize_normalize`), and
it does not begin with `./` (`not_here_lead_normalize`).
-/

namespace LoosePatch.Path

variable {rooted : Bool} {above ps : List Text} {part path : Text}

/-- A component that resolving keeps. -/
def Proper (part : Text) : Prop := part ≠ [] ∧ part ≠ here ∧ '/' ∉ part

/-- The components of a resolved path, last component first: `..` stands only in front of all others,
and not behind a root. -/
inductive Resolved (rooted : Bool) : List Text → Prop where
  | nil : Resolved rooted []
  | cons {above : List Text} {part : Text} (rest : Resolved rooted above) (proper : Proper part)
      (climbs : part = parent → rooted = false ∧ ∀ part ∈ above, part = parent) :
      Resolved rooted (part :: above)

namespace Resolved

theorem proper_of_mem (h : Resolved rooted above) (hpart : part ∈ above) : Proper part := by
  induction h with
  | nil => cases hpart
  | cons _ hproper _ ih =>
    rcases List.mem_cons.mp hpart with rfl | hpart
    · exact hproper
    · exact ih hpart

theorem push (h : Resolved rooted above) (hpart : '/' ∉ part) :
    Resolved rooted (Path.push rooted above part) := by
  unfold Path.push
  split
  · exact h
  · rename_i hkept
    obtain ⟨hne, hhere⟩ := not_or.mp hkept
    split
    · rename_i hparent
      subst hparent
      cases h with
      | nil =>
        cases rooted with
        | true => exact .nil
        | false => exact .cons .nil ⟨hne, hhere, hpart⟩ fun _ => ⟨rfl, by simp⟩
      | @cons above last hrest hproper hclimbs =>
        dsimp only
        split
        · rename_i hlast
          obtain ⟨hrooted, hall⟩ := hclimbs hlast
          exact .cons (.cons hrest hproper hclimbs) ⟨hne, hhere, hpart⟩ fun _ =>
            ⟨hrooted, List.forall_mem_cons.mpr ⟨hlast, hall⟩⟩
        · exact hrest
    · rename_i hnot
      exact .cons h ⟨hne, hhere, hpart⟩ fun heq => absurd heq hnot

theorem foldl (h : Resolved rooted above) (hps : ∀ part ∈ ps, '/' ∉ part) :
    Resolved rooted (ps.foldl (Path.push rooted) above) := by
  induction ps generalizing above with
  | nil => exact h
  | cons part ps ih =>
    obtain ⟨hpart, hps⟩ := List.forall_mem_cons.mp hps
    exact ih (h.push hpart) hps

/-- What stands on the stack is put there by pushing it in order. -/
theorem foldl_reverse (h : Resolved rooted above) :
    above.reverse.foldl (Path.push rooted) [] = above := by
  induction h with
  | nil => rfl
  | @cons above part _ hproper hclimbs ih =>
    rw [List.reverse_cons, List.foldl_append, ih, List.foldl_cons, List.foldl_nil]
    unfold Path.push
    rw [if_neg (not_or.mpr ⟨hproper.1, hproper.2.1⟩)]
    split
    · rename_i hparent
      obtain ⟨rfl, hall⟩ := hclimbs hparent
      cases above with
      | nil => rw [hparent]; rfl
      | cons last above =>
        dsimp only
        rw [if_pos (hall last List.mem_cons_self), hparent]
    · rfl

theorem of_append {below : List Text} (h : Resolved rooted (above ++ below)) : Resolved rooted above := by
  induction above with
  | nil => exact .nil
  | cons part above ih =>
    cases h with
    | cons hrest hproper hclimbs =>
      refine .cons (ih hrest) hproper fun hparent => ?_
      obtain ⟨hrooted, hall⟩ := hclimbs hparent
      exact ⟨hrooted, fun part hpart => hall part (List.mem_append_left below hpart)⟩

end Resolved

/-! ## Components -/

theorem not_mem_of_mem_parts (h : part ∈ parts path) : '/' ∉ part := Text.not_mem_of_mem_splitOn h

theorem resolved_parts (rooted : Bool) (path : Text) :
    Resolved rooted ((parts path).foldl (push rooted) []) :=
  Resolved.nil.foldl fun _ => not_mem_of_mem_parts

theorem proper_of_mem_resolve (h : part ∈ resolve rooted (parts path)) : Proper part :=
  (resolved_parts rooted path).proper_of_mem (List.mem_reverse.mp h)

theorem resolve_resolve (rooted : Bool) (path : Text) :
    resolve rooted (resolve rooted (parts path)) = resolve rooted (parts path) := by
  rw [resolve, resolve, (resolved_parts rooted path).foldl_reverse]

/-- Resolving makes up no component but `..`. -/
theorem mem_of_mem_foldl (h : part ∈ ps.foldl (push rooted) above) :
    part ∈ above ∨ part ∈ ps ∨ part = parent := by
  induction ps generalizing above with
  | nil => exact .inl h
  | cons next ps ih =>
    rcases ih h with hpush | hps | hparent
    · unfold push at hpush
      split at hpush
      · exact .inl hpush
      · split at hpush
        · split at hpush
          · split at hpush
            · cases hpush
            · exact .inr (.inr (List.mem_singleton.mp hpush))
          · split at hpush
            · exact (List.mem_cons.mp hpush).symm.imp_right .inr
            · exact .inl (List.mem_cons_of_mem _ hpush)
        · rcases List.mem_cons.mp hpush with rfl | habove
          · exact .inr (.inl List.mem_cons_self)
          · exact .inl habove
    · exact .inr (.inl (List.mem_cons_of_mem _ hps))
    · exact .inr (.inr hparent)

/-- A path with the components of another behind a slash ends in its components. -/
theorem parts_suffix {path' : Text} (h : '/' :: path <:+ path') : parts path <:+ parts path' := by
  obtain ⟨front, rfl⟩ := h
  rw [parts, parts, List.splitOn_append_cons_self]
  exact List.suffix_append _ _

/-! ## Whole paths -/

/-- The path with these slashes in front and these components. -/
def spell (lead : Text) (ps : List Text) : Text :=
  if lead.isEmpty && (['/'].intercalate ps).isEmpty then here else lead ++ ['/'].intercalate ps

theorem normalize_eq_spell (path : Text) :
    normalize path = spell (root path) (resolve (!(root path).isEmpty) (parts path)) := rfl

theorem root_cases (path : Text) : root path = [] ∨ root path = ['/'] ∨ root path = ['/', '/'] := by
  unfold root
  split <;> simp

theorem intercalate_cases (h : ∀ part ∈ ps, Proper part) :
    ps = [] ∨ ∃ c text, ['/'].intercalate ps = c :: text ∧ c ≠ '/' := by
  cases ps with
  | nil => exact .inl rfl
  | cons part ps =>
    obtain ⟨hne, -, hslash⟩ := h part List.mem_cons_self
    obtain ⟨c, rest, rfl⟩ := List.exists_cons_of_ne_nil hne
    refine .inr ⟨c, ?_⟩
    have hc : c ≠ '/' := fun heq => hslash (heq ▸ List.mem_cons_self)
    cases ps with
    | nil => exact ⟨rest, by simp, hc⟩
    | cons next ps => exact ⟨_, by rw [List.intercalate_cons_cons]; rfl, hc⟩

theorem parts_intercalate (h : ∀ part ∈ ps, Proper part) (hne : ps ≠ []) :
    parts (['/'].intercalate ps) = ps :=
  List.splitOn_intercalate '/' (fun part hpart => (h part hpart).2.2) hne

theorem root_append {lead : Text} (hlead : lead = [] ∨ lead = ['/'] ∨ lead = ['/', '/'])
    (h : ∀ part ∈ ps, Proper part) : root (lead ++ ['/'].intercalate ps) = lead := by
  rcases intercalate_cases h with rfl | ⟨c, text, htext, hc⟩
  · rcases hlead with rfl | rfl | rfl <;> rfl
  · rw [htext]
    rcases hlead with rfl | rfl | rfl <;> simp [root, hc]

theorem parts_slash (path : Text) : parts ('/' :: path) = [] :: parts path :=
  List.splitOn_append_cons_self [] path

theorem resolve_slash (rooted : Bool) (path : Text) :
    resolve rooted (parts ('/' :: path)) = resolve rooted (parts path) := by
  rw [parts_slash]
  rfl

/-- A path that is spelled of resolved components is normal. -/
theorem normalize_spell {lead : Text} (hlead : lead = [] ∨ lead = ['/'] ∨ lead = ['/', '/'])
    (h : ∀ part ∈ ps, Proper part) (hresolved : resolve (!lead.isEmpty) ps = ps) :
    normalize (spell lead ps) = spell lead ps := by
  have hbody (rooted : Bool) (hps : resolve rooted ps = ps) :
      resolve rooted (parts (['/'].intercalate ps)) = ps := by
    by_cases hne : ps = []
    · subst hne
      rfl
    · rw [parts_intercalate h hne, hps]
  by_cases hempty : (lead.isEmpty && (['/'].intercalate ps).isEmpty) = true
  · rw [spell, if_pos hempty]
    rfl
  · have hspell : spell lead ps = lead ++ ['/'].intercalate ps := if_neg hempty
    have hparts : resolve (!lead.isEmpty) (parts (lead ++ ['/'].intercalate ps)) = ps := by
      rcases hlead with rfl | rfl | rfl
      · exact hbody _ hresolved
      · rw [List.singleton_append, resolve_slash, hbody _ hresolved]
      · rw [List.cons_append, resolve_slash, List.singleton_append, resolve_slash,
          hbody _ hresolved]
    rw [normalize_eq_spell, hspell, root_append hlead h, hparts, hspell]

/-- A normal path is normal already. -/
theorem normalize_normalize (path : Text) : normalize (normalize path) = normalize path := by
  rw [normalize_eq_spell path]
  exact normalize_spell (root_cases path) (fun _ => proper_of_mem_resolve) (resolve_resolve _ path)

/-- The components of a normal path without a root are resolved as they are written. -/
theorem parts_of_normal (h : normalize path = path) (hroot : root path = []) (hhere : path ≠ here) :
    (∀ part ∈ parts path, Proper part) ∧ Resolved false (parts path).reverse := by
  have hproper : ∀ part ∈ resolve false (parts path), Proper part := fun _ => proper_of_mem_resolve
  have hspell : spell [] (resolve false (parts path)) = path := by
    rwa [normalize_eq_spell, hroot] at h
  have hjoin : ['/'].intercalate (resolve false (parts path)) = path := by
    unfold spell at hspell
    split at hspell
    · exact absurd hspell.symm hhere
    · exact hspell
  have hparts : parts path = resolve false (parts path) := by
    by_cases hnil : resolve false (parts path) = []
    · have hempty : path = [] := by rw [← hjoin, hnil]; rfl
      rw [hempty] at h
      cases h
    · rw [← parts_intercalate hproper hnil, hjoin]
  refine ⟨hparts ▸ hproper, ?_⟩
  rw [hparts, resolve, List.reverse_reverse]
  exact resolved_parts false path

theorem normalize_of_parts (hproper : ∀ part ∈ parts path, Proper part)
    (hresolved : Resolved false (parts path).reverse) : path ≠ [] ∧ normalize path = path := by
  have hne : path ≠ [] := by
    rintro rfl
    exact (hproper [] List.mem_cons_self).1 rfl
  have hjoin : ['/'].intercalate (parts path) = path := List.intercalate_splitOn '/'
  have hspell : spell [] (parts path) = path := by
    rw [spell, hjoin, List.isEmpty_eq_false_iff.mpr hne, Bool.and_false, if_neg Bool.false_ne_true,
      List.nil_append]
  have hresolve : resolve false (parts path) = parts path := by
    have hfold := hresolved.foldl_reverse
    rw [List.reverse_reverse] at hfold
    rw [resolve, hfold, List.reverse_reverse]
  have hnormal := normalize_spell (.inl rfl) hproper hresolve
  exact ⟨hne, by rwa [hspell] at hnormal⟩

/-- Behind the first component of a normal path the path is normal. -/
theorem normalize_behind {front : Text} (hne : front ≠ []) (hslash : '/' ∉ front)
    (h : normalize (front ++ '/' :: path) = front ++ '/' :: path) :
    path ≠ [] ∧ normalize path = path := by
  have hsplit : parts (front ++ '/' :: path) = front :: parts path :=
    List.splitOn_append_cons_self_of_not_mem hslash path
  have hroot : root (front ++ '/' :: path) = [] := by
    obtain ⟨c, front, rfl⟩ := List.exists_cons_of_ne_nil hne
    have hc : c ≠ '/' := fun heq => hslash (heq ▸ List.mem_cons_self)
    simp [root, hc]
  have hhere : front ++ '/' :: path ≠ here := by
    intro heq
    have hmem : '/' ∈ here := heq ▸ List.mem_append_right front List.mem_cons_self
    exact absurd hmem (by decide)
  obtain ⟨hproper, hresolved⟩ := parts_of_normal h hroot hhere
  rw [hsplit] at hproper hresolved
  rw [List.reverse_cons] at hresolved
  exact normalize_of_parts (fun part hpart => hproper part (List.mem_cons_of_mem front hpart))
    hresolved.of_append

theorem not_here_lead_intercalate (h : ∀ part ∈ ps, Proper part) :
    ['.', '/'].isPrefixOf (['/'].intercalate ps) = false := by
  refine Bool.eq_false_iff.mpr fun hprefix => ?_
  obtain ⟨rest, hrest⟩ := List.isPrefixOf_iff_prefix.mp hprefix
  have hne : ps ≠ [] := by
    rintro rfl
    cases hrest
  -- The first component would be a `.`.
  have hsplit : parts (here ++ '/' :: rest) = here :: parts rest :=
    List.splitOn_append_cons_self_of_not_mem (by decide) rest
  have hparts : parts (here ++ '/' :: rest) = ps := by
    rw [← parts_intercalate h hne, ← hrest]
    rfl
  exact (h here (hparts ▸ hsplit ▸ List.mem_cons_self)).2.1 rfl

theorem not_here_lead_normalize (path : Text) : ['.', '/'].isPrefixOf (normalize path) = false := by
  rw [normalize_eq_spell, spell]
  split
  · rfl
  · rcases root_cases path with hroot | hroot | hroot
    · rw [hroot, List.nil_append]
      exact not_here_lead_intercalate fun _ => proper_of_mem_resolve
    · rw [hroot]
      rfl
    · rw [hroot]
      rfl

/-- The characters of a normal path are those of the path, but for slashes and dots. -/
theorem mem_normalize {c : Char} (h : c ∈ normalize path) : c ∈ path ∨ c = '/' ∨ c = '.' := by
  rw [normalize_eq_spell, spell] at h
  split at h
  · exact .inr (.inr (List.mem_singleton.mp h))
  · rcases List.mem_append.mp h with h | h
    · right
      left
      rcases root_cases path with hroot | hroot | hroot
      · rw [hroot] at h
        cases h
      · simpa [hroot] using h
      · simpa [hroot] using h
    · rcases Text.mem_intercalate h with hslash | ⟨part, hpart, hc⟩
      · exact .inr (.inl hslash)
      · rcases mem_of_mem_foldl (List.mem_reverse.mp hpart) with hnone | hpart | rfl
        · cases hnone
        · exact .inl (Text.mem_of_mem_splitOn hpart hc)
        · right
          right
          simpa [parent] using hc

theorem not_mem_forward (path : Text) : '\\' ∉ forward path := by
  intro h
  obtain ⟨c, -, hc⟩ := List.mem_map.mp h
  split at hc
  · cases hc
  · rename_i hne
    exact hne hc

theorem forward_of_not_mem (h : '\\' ∉ path) : forward path = path := by
  refine (List.map_congr_left fun c hc => ?_).trans (List.map_id path)
  exact if_neg fun heq : c = '\\' => h (heq ▸ hc)

end LoosePatch.Path
