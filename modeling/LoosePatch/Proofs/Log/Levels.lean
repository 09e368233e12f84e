import LoosePatch.Proofs.Log.Names
import LoosePatch.Proofs.Lookup

/-!
Which level governs a logger. `Config.Threshold` says which of the levels that a configuration lists
is meant for a logger. Applied for the first time, it is the one that events of the logger are held
against (`Levels.threshold_configure`), and there is no other (`Config.Threshold.unique`).
-/

namespace LoosePatch.Log

variable {entries : List (Text × Level)} {levels : Levels} {c : Config} {name logger : Text}

/-! ## Listed levels -/

/-- The level of the last entry for such a name. -/
def given? (named : Text → Bool) (entries : List (Text × Level)) : Option Level :=
  (entries.reverse.find? fun entry => named entry.1).map Prod.snd

theorem given?_cons (named : Text → Bool) (entry : Text × Level) (entries : List (Text × Level)) :
    given? named (entry :: entries) =
      (given? named entries).or (if named entry.1 then some entry.2 else none) := by
  rw [given?, given?, List.reverse_cons, List.find?_append, Option.map_or, List.find?_singleton]
  split <;> rfl

theorem given?_append (named : Text → Bool) (front back : List (Text × Level)) :
    given? named (front ++ back) = (given? named back).or (given? named front) := by
  rw [given?, given?, given?, List.reverse_append, List.find?_append, Option.map_or]

theorem given?_eq_none_iff {named : Text → Bool} :
    given? named entries = none ↔ ∀ entry ∈ entries, named entry.1 = false := by
  rw [given?, Option.map_eq_none_iff, List.find?_eq_none]
  refine ⟨fun h entry hentry => ?_, fun h entry hentry => ?_⟩
  · exact Bool.eq_false_iff.mpr (h entry (List.mem_reverse.mpr hentry))
  · exact Bool.eq_false_iff.mp (h entry (List.mem_reverse.mp hentry))

/-- What the configuration lists for loggers of such a name. -/
def Config.level? (c : Config) (named : Text → Bool) : Option Level := given? named c.levels

/-- What the configuration lists for a logger of its own, which the root is not. -/
def Config.ownLevel? (c : Config) (name : Text) : Option Level :=
  if isRoot name then none else c.level? (· == name)

/-- On the path of the root no name has a level of its own. -/
theorem Config.ownLevel?_of_isRoot (h : isRoot logger = true) (hpath : OnPath name logger) :
    c.ownLevel? name = none := by
  rcases hpath with rfl | habove
  · exact if_pos h
  · rw [isRoot, Bool.or_eq_true, List.isEmpty_iff, beq_iff_eq] at h
    rcases h with rfl | rfl
    · cases habove.dot_mem
    · exact absurd habove.dot_mem (by decide)

/-- The level from which events of a logger are let through: that of the longest name on its path
with a level of its own, or else the one listed for the root, or else the general one. -/
inductive Config.Threshold (c : Config) (logger : Text) : Level → Prop where
  | nearest {name : Text} {level : Level} (path : OnPath name logger)
      (given : c.ownLevel? name = some level)
      (hidden : ∀ nearer, OnPath nearer logger → name.length < nearer.length →
        c.ownLevel? nearer = none) : Threshold c logger level
  | root {level : Level} (none : ∀ name, OnPath name logger → c.ownLevel? name = none)
      (given : c.level? isRoot = some level) : Threshold c logger level
  | general (none : ∀ name, OnPath name logger → c.ownLevel? name = none)
      (given : c.level? isRoot = Option.none) : Threshold c logger c.level

/-- A logger has one threshold. -/
theorem Config.Threshold.unique {level other : Level} (h : c.Threshold logger level)
    (h' : c.Threshold logger other) : level = other := by
  cases h with
  | @nearest name _ hpath hgiven hhidden =>
    cases h' with
    | @nearest name' _ hpath' hgiven' hhidden' =>
      have hlength : name.length = name'.length := by
        rcases Nat.lt_trichotomy name.length name'.length with hlt | heq | hlt
        · rw [hhidden name' hpath' hlt] at hgiven'
          cases hgiven'
        · exact heq
        · rw [hhidden' name hpath hlt] at hgiven
          cases hgiven
      obtain rfl := hpath.eq_of_length_eq hpath' hlength
      exact Option.some.inj (hgiven.symm.trans hgiven')
    | root hnone | general hnone =>
      rw [hnone name hpath] at hgiven
      cases hgiven
  | root hnone hgiven =>
    cases h' with
    | nearest hpath' hgiven' =>
      rw [hnone _ hpath'] at hgiven'
      cases hgiven'
    | root _ hgiven' => exact Option.some.inj (hgiven.symm.trans hgiven')
    | general _ hgiven' =>
      rw [hgiven] at hgiven'
      cases hgiven'
  | general hnone hgiven =>
    cases h' with
    | nearest hpath' hgiven' =>
      rw [hnone _ hpath'] at hgiven'
      cases hgiven'
    | root _ hgiven' =>
      rw [hgiven] at hgiven'
      cases hgiven'
    | general => rfl

/-! ## Levels that were set -/

namespace Levels

theorem ofLogger?_set (levels : Levels) (logger : Text) (level : Level) (name : Text) :
    (levels.set logger level).ofLogger? name =
      if name = logger ∧ isRoot name = false then some level else levels.ofLogger? name := by
  by_cases hroot : isRoot logger
  · rw [set, if_pos hroot, if_neg]
    · rfl
    · rintro ⟨rfl, hname⟩
      rw [hroot] at hname
      cases hname
  · rw [set, if_neg hroot, ofLogger?, lookup_cons_eq_ite, lookup_filter_ne]
    by_cases hname : name = logger
    · rw [if_pos hname, if_pos ⟨hname, by simpa [hname] using hroot⟩]
    · rw [if_neg hname, if_neg hname, if_neg fun h => hname h.1]
      rfl

theorem root_set (levels : Levels) (logger : Text) (level : Level) :
    (levels.set logger level).root = if isRoot logger then level else levels.root := by
  rw [set]
  split <;> rfl

/-- Of several levels set for one logger the last one holds. -/
theorem ofLogger?_foldl_set (levels : Levels) (entries : List (Text × Level)) (name : Text) :
    (entries.foldl (fun levels entry => levels.set entry.1 entry.2) levels).ofLogger? name =
      (if isRoot name then none else given? (· == name) entries).or (levels.ofLogger? name) := by
  induction entries generalizing levels with
  | nil => split <;> rfl
  | cons entry entries ih =>
    rw [List.foldl_cons, ih, ofLogger?_set, given?_cons]
    by_cases hroot : isRoot name
    · rw [if_pos hroot, if_pos hroot, if_neg (by simp [hroot])]
    · rw [if_neg hroot, if_neg hroot, Option.or_assoc]
      congr 1
      by_cases hname : name = entry.1
      · rw [if_pos ⟨hname, by simpa using hroot⟩, if_pos (beq_iff_eq.mpr hname.symm)]
        rfl
      · rw [if_neg fun h => hname h.1, if_neg fun h => hname (beq_iff_eq.mp h).symm]
        rfl

theorem root_foldl_set (levels : Levels) (entries : List (Text × Level)) :
    (entries.foldl (fun levels entry => levels.set entry.1 entry.2) levels).root =
      (given? isRoot entries).getD levels.root := by
  induction entries generalizing levels with
  | nil => rfl
  | cons entry entries ih =>
    rw [List.foldl_cons, ih, root_set, given?_cons]
    cases given? isRoot entries with
    | some level => rfl
    | none => split <;> rfl

theorem ofLogger?_configure (levels : Levels) (c : Config) (name : Text) :
    (levels.configure c).ofLogger? name = (c.ownLevel? name).or (levels.ofLogger? name) :=
  ofLogger?_foldl_set { levels with root := c.level } c.levels name

theorem root_configure (levels : Levels) (c : Config) :
    (levels.configure c).root = (c.level? isRoot).getD c.level :=
  root_foldl_set { levels with root := c.level } c.levels

/-- After the first configuration the events of a logger are held against its threshold. -/
theorem threshold_configure (c : Config) (logger : Text) :
    c.Threshold logger ((({} : Levels).configure c).threshold logger) := by
  have hlevel (name : Text) : (({} : Levels).configure c).ofLogger? name = c.ownLevel? name := by
    rw [ofLogger?_configure]
    exact Option.or_none
  have hroot (hnone : ∀ name, OnPath name logger → c.ownLevel? name = none) :
      c.Threshold logger ((({} : Levels).configure c).root) := by
    rw [root_configure]
    cases hgiven : c.level? isRoot with
    | some level => exact .root hnone hgiven
    | none => exact .general hnone hgiven
  rw [threshold]
  split
  · rename_i hlogger
    exact hroot fun name hpath => Config.ownLevel?_of_isRoot hlogger hpath
  · cases hfound : (logger :: ancestors logger).findSome? (({} : Levels).configure c).ofLogger? with
    | none =>
      refine hroot fun name hpath => ?_
      rw [← hlevel]
      exact List.findSome?_eq_none_iff.mp hfound name (mem_path_iff.mpr hpath)
    | some level =>
      obtain ⟨longer, name, shorter, hsplit, hgiven, hlonger⟩ := List.findSome?_eq_some_iff.mp hfound
      have hname : name ∈ logger :: ancestors logger := by
        rw [hsplit]
        exact List.mem_append_right _ List.mem_cons_self
      refine .nearest (mem_path_iff.mp hname) (hlevel name ▸ hgiven) fun nearer hnearer hlt => ?_
      have hne : nearer ≠ name := by
        rintro rfl
        exact Nat.lt_irrefl _ hlt
      rw [← hlevel]
      exact hlonger nearer (mem_front_of_length_le hsplit hnearer (Nat.le_of_lt hlt) hne)

end Levels
end LoosePatch.Log
