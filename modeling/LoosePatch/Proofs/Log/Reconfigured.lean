import LoosePatch.Proofs.Log.Delivery

/-!
What is left of earlier configurations. Of all that they set, only the levels of single loggers stay,
as if the latest configuration had listed them in front of its own. So an event is written as after
the latest configuration alone wherever that one hides what earlier ones listed
(`Session.written_reconfigured`), and not everywhere else (`Session.silenced_after_reconfiguring`).
-/

namespace LoosePatch.Log

variable {levels : Levels} {c : Config} {earlier : List Config} {name logger : Text}

/-- The levels that a configuration lists for single loggers. -/
def Config.singles (c : Config) : List (Text × Level) := c.levels.filter fun entry => !isRoot entry.1

/-- A configuration with levels listed in front of its own. -/
def Config.after (c : Config) (listed : List (Text × Level)) : Config :=
  { c with levels := listed ++ c.levels }

/-- Wherever earlier configurations list a logger on the path of this one, the configuration lists a
logger at least as near. -/
def Config.Hides (c : Config) (earlier : List Config) (logger : Text) : Prop :=
  ∀ d ∈ earlier, ∀ name, OnPath name logger → d.ownLevel? name ≠ none →
    ∃ nearer, OnPath nearer logger ∧ name.length ≤ nearer.length ∧ c.ownLevel? nearer ≠ none

/-! ## What stays -/

theorem given?_singles (c : Config) (h : isRoot name = false) :
    given? (· == name) c.singles = c.ownLevel? name := by
  rw [Config.ownLevel?, if_neg (by simp [h]), Config.level?, Config.singles, given?, given?,
    ← List.filter_reverse, List.find?_filter]
  congr 2
  funext entry
  by_cases hname : entry.1 = name
  · simp [hname, h]
  · simp [hname]

namespace Levels

/-- The level of the root is set anew; the other levels are set as the list for single loggers has
them. -/
theorem configure_eq (levels : Levels) (c : Config) (root : Level) :
    { levels.configure c with root } =
      c.singles.foldl (fun levels entry => levels.set entry.1 entry.2) { levels with root } := by
  have hset (entries : List (Text × Level)) (start : Levels) :
      { entries.foldl (fun levels entry => levels.set entry.1 entry.2) start with root } =
        (entries.filter fun entry => !isRoot entry.1).foldl
          (fun levels entry => levels.set entry.1 entry.2) { start with root } := by
    induction entries generalizing start with
    | nil => rfl
    | cons entry entries ih =>
      by_cases hroot : isRoot entry.1
      · rw [List.foldl_cons, ih, List.filter_cons_of_neg (by simp [hroot]), set, if_pos hroot]
      · rw [List.foldl_cons, ih, List.filter_cons_of_pos (by simpa using hroot), List.foldl_cons,
          set, if_neg hroot, set, if_neg hroot]
  exact hset c.levels { levels with root := c.level }

theorem foldl_configure_eq (levels : Levels) (earlier : List Config) (root : Level) :
    { earlier.foldl configure levels with root } =
      (earlier.flatMap Config.singles).foldl (fun levels entry => levels.set entry.1 entry.2)
        { levels with root } := by
  induction earlier generalizing levels with
  | nil => rfl
  | cons d earlier ih =>
    rw [List.foldl_cons, ih, configure_eq, List.flatMap_cons, List.foldl_append]

/-- After several configurations the levels are those of the latest one alone, had it listed those of
the earlier ones for single loggers in front of its own. -/
theorem configure_foldl_configure (levels : Levels) (earlier : List Config) (c : Config) :
    (earlier.foldl configure levels).configure c =
      levels.configure (c.after (earlier.flatMap Config.singles)) := by
  rw [configure, configure, foldl_configure_eq, Config.after, List.foldl_append]

/-! ## What is hidden -/

/-- Two look-ups along a list end alike if one that differs comes after one that finds something. -/
theorem findSome?_eq_of_hidden {β γ : Type} {f g : β → Option γ} {xs : List β}
    (h : ∀ before x after, xs = before ++ x :: after → f x ≠ g x → ∃ y ∈ before, f y ≠ none) :
    xs.findSome? f = xs.findSome? g := by
  induction xs with
  | nil => rfl
  | cons x xs ih =>
    have hx : f x = g x := by
      by_contra hne
      obtain ⟨y, hy, -⟩ := h [] x xs rfl hne
      cases hy
    rw [List.findSome?_cons, List.findSome?_cons, ← hx]
    cases hfound : f x with
    | some found => rfl
    | none =>
      refine ih fun before y after hsplit hne => ?_
      obtain ⟨z, hz, hsome⟩ := h (x :: before) y after (by rw [hsplit]; rfl) hne
      rcases List.mem_cons.mp hz with rfl | hz
      · exact absurd hfound hsome
      · exact ⟨z, hz, hsome⟩

theorem ownLevel?_after (c : Config) (listed : List (Text × Level)) (name : Text) :
    (c.after listed).ownLevel? name =
      (c.ownLevel? name).or (if isRoot name then none else given? (· == name) listed) := by
  rw [Config.ownLevel?, Config.ownLevel?, Config.level?, Config.level?, Config.after]
  split
  · rfl
  · exact given?_append _ _ _

theorem level?_isRoot_after (c : Config) (earlier : List Config) :
    (c.after (earlier.flatMap Config.singles)).level? isRoot = c.level? isRoot := by
  have hnone : given? isRoot (earlier.flatMap Config.singles) = none := by
    refine given?_eq_none_iff.mpr fun entry hentry => ?_
    obtain ⟨d, -, hentry⟩ := List.mem_flatMap.mp hentry
    simpa using (List.mem_filter.mp hentry).2
  rw [Config.level?, Config.after, given?_append, hnone]
  exact Option.or_none

/-- What is listed for single loggers was listed by one of the configurations. -/
theorem exists_ownLevel?_of_given? (hroot : isRoot name = false)
    (h : given? (· == name) (earlier.flatMap Config.singles) ≠ none) :
    ∃ d ∈ earlier, d.ownLevel? name ≠ none := by
  by_contra hall
  push Not at hall
  refine h (given?_eq_none_iff.mpr fun entry hentry => ?_)
  obtain ⟨d, hd, hentry⟩ := List.mem_flatMap.mp hentry
  have hnone := given?_singles d hroot ▸ hall d hd
  exact given?_eq_none_iff.mp hnone entry hentry

/-- Levels of earlier configurations matter for a logger only where the latest one lists none. -/
theorem of_ownLevel?_after_ne
    (h : (c.after (earlier.flatMap Config.singles)).ownLevel? name ≠ c.ownLevel? name) :
    c.ownLevel? name = none ∧ ∃ d ∈ earlier, d.ownLevel? name ≠ none := by
  rw [ownLevel?_after] at h
  cases hown : c.ownLevel? name with
  | some level =>
    rw [hown] at h
    exact absurd rfl h
  | none =>
    rw [hown, Option.none_or] at h
    by_cases hroot : isRoot name
    · rw [if_pos hroot] at h
      exact absurd rfl h
    · rw [if_neg hroot] at h
      exact ⟨rfl, exists_ownLevel?_of_given? (by simpa using hroot) h⟩

/-- Levels that are hidden on the path of a logger do not change its threshold. -/
theorem threshold_after (hhides : c.Hides earlier logger) (levels : Levels) :
    (levels.configure (c.after (earlier.flatMap Config.singles))).threshold logger =
      (levels.configure c).threshold logger := by
  have hroot : (levels.configure (c.after (earlier.flatMap Config.singles))).root =
      (levels.configure c).root := by
    rw [root_configure, root_configure, level?_isRoot_after]
    rfl
  rw [threshold, threshold, hroot]
  split
  · rfl
  · congr 1
    refine (findSome?_eq_of_hidden fun front name back hsplit hne => ?_).symm
    rw [ofLogger?_configure, ofLogger?_configure] at hne
    obtain ⟨hown, d, hd, hlisted⟩ := of_ownLevel?_after_ne fun heq => hne (by rw [heq])
    have hname : OnPath name logger := by
      rw [← mem_path_iff, hsplit]
      exact List.mem_append_right _ List.mem_cons_self
    obtain ⟨nearer, hnearer, hlength, hfound⟩ := hhides d hd name hname hlisted
    have hdiffer : nearer ≠ name := by
      rintro rfl
      exact hfound hown
    refine ⟨nearer, mem_front_of_length_le hsplit hnearer hlength hdiffer, ?_⟩
    rw [ofLogger?_configure]
    exact fun hnone => hfound (Option.or_eq_none_iff.mp hnone).1

end Levels

/-! ## What is written -/

namespace Session

theorem foldl_configure_kept (s : Session) (earlier : List Config) :
    (earlier.foldl configure s).levels = earlier.foldl Levels.configure s.levels ∧
      (earlier.foldl configure s).bound = s.bound ∧
      (earlier.foldl configure s).render = s.render := by
  induction earlier generalizing s with
  | nil => exact ⟨rfl, rfl, rfl⟩
  | cons d earlier ih => exact ih (s.configure d)

/-- After any number of configurations what is written is what the latest one alone would have
written, had it listed the levels of the earlier ones for single loggers in front of its own. Where it
hides them, it is what the latest one alone would have written. -/
theorem written_reconfigured (s : Session) (earlier : List Config) (c : Config) (r : Record) :
    ((earlier.foldl configure s).configure c).written r =
        (s.configure (c.after (earlier.flatMap Config.singles))).written r ∧
      (c.Hides earlier r.logger →
        ((earlier.foldl configure s).configure c).written r = (s.configure c).written r) := by
  obtain ⟨hlevels, hbound, hrender⟩ := foldl_configure_kept s earlier
  have hwritten : ((earlier.foldl configure s).configure c).written r =
      (s.configure (c.after (earlier.flatMap Config.singles))).written r := by
    rw [written_configure, written_configure, hlevels, hbound, hrender,
      Levels.configure_foldl_configure]
    rfl
  refine ⟨hwritten, fun hhides => ?_⟩
  have hpasses : passes (s.levels.configure (c.after (earlier.flatMap Config.singles)))
      (c.after (earlier.flatMap Config.singles)) r = passes (s.levels.configure c) c r := by
    rw [passes, passes, Levels.threshold_after hhides]
    rfl
  rw [hwritten, written_configure, written_configure, hpasses]
  rfl

/-- A level for `a` that a later configuration lists again is forgotten. -/
theorem written_reconfigured_again :
    let first : Config := { levels := [("a".toList, .error)] }
    let second : Config := { levels := [("a".toList, .info)] }
    let r : Record := ⟨"a".toList, .info, "e", []⟩
    second.Hides [first] r.logger ∧
      ((({} : Session).configure first).configure second).written r =
        (({} : Session).configure second).written r := by
  intro first second r
  have hhides : second.Hides [first] r.logger := by
    intro d hd name hname hlisted
    exact ⟨r.logger, .inl rfl, hname.length_le, by decide⟩
  exact ⟨hhides, (written_reconfigured {} [first] second r).2 hhides⟩

/-- A logger that was listed once stays silent after a configuration that does not list it. -/
theorem silenced_after_reconfiguring :
    let first : Config := { levels := [("a".toList, .error)] }
    let second : Config := {}
    let r : Record := ⟨"a".toList, .info, "e", []⟩
    ((({} : Session).configure first).configure second).written r = [] ∧
      (({} : Session).configure second).written r ≠ [] := by
  intro first second r
  have hkept (fields : Fields) : filtered second.filters fields = some fields := rfl
  refine ⟨rfl, ?_⟩
  rw [written_configure, if_pos (by decide), hkept]
  dsimp only
  exact shows_outputs second.format _

end Session
end LoosePatch.Log
