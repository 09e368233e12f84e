import LoosePatch.Log.Session
import LoosePatch.Proofs.Log.Levels

/-!
Which events are written. After the first configuration it takes three things: the event reaches the
general level, it reaches the threshold of its logger, and no filter drops it
(`Session.written_configured_iff`). So a level listed for a logger can silence it, and cannot make it
say more than the general level lets through (`Session.verbose_level_unheard`).
-/

namespace LoosePatch.Log

variable {filters : List Filter} {fields : Fields}

/-! ## Filters -/

theorem filtered_cons (filter : Filter) (filters : List Filter) (fields : Fields) :
    filtered (filter :: filters) fields = (filter fields).bind (filtered filters) := by
  rw [filtered, List.foldlM_cons]
  rfl

/-- One of the filters drops the event. It sees the fields that the filters before it leave. -/
def Config.Drops (c : Config) (fields : Fields) : Prop :=
  ∃ before filter after kept, c.filters = before ++ filter :: after ∧
    filtered before fields = some kept ∧ filter kept = none

theorem Config.not_drops {c : Config} (h : c.filters = []) (fields : Fields) : ¬ c.Drops fields := by
  rintro ⟨before, filter, after, kept, hsplit, -⟩
  rw [h] at hsplit
  exact List.append_ne_nil_of_right_ne_nil before (List.cons_ne_nil filter after) hsplit.symm

theorem filtered_eq_none_iff :
    filtered filters fields = none ↔ ∃ before filter after kept,
      filters = before ++ filter :: after ∧ filtered before fields = some kept ∧
        filter kept = none := by
  induction filters generalizing fields with
  | nil => exact iff_of_false (by rintro ⟨⟩) (by simp)
  | cons first filters ih =>
    rw [filtered_cons]
    constructor
    · intro h
      cases hfirst : first fields with
      | none => exact ⟨[], first, filters, fields, rfl, rfl, hfirst⟩
      | some next =>
        rw [hfirst] at h
        obtain ⟨before, filter, after, kept, rfl, hbefore, hdrop⟩ := ih.mp h
        refine ⟨first :: before, filter, after, kept, rfl, ?_, hdrop⟩
        rw [filtered_cons, hfirst]
        exact hbefore
    · rintro ⟨before, filter, after, kept, hsplit, hbefore, hdrop⟩
      cases before with
      | nil =>
        obtain ⟨rfl, -⟩ := List.cons.inj hsplit
        obtain rfl : fields = kept := Option.some.inj hbefore
        rw [hdrop]
        rfl
      | cons _ before =>
        obtain ⟨rfl, rfl⟩ := List.cons.inj hsplit
        obtain ⟨next, hnext, hbefore⟩ := Option.bind_eq_some_iff.mp (filtered_cons .. ▸ hbefore)
        rw [hnext]
        exact ih.mpr ⟨before, filter, after, kept, rfl, hbefore, hdrop⟩

/-! ## Events -/

/-- Something is written of every event. -/
def Renderer.Shows (render : Renderer) : Prop := ∀ format fields, render format fields ≠ []

/-- An event that is written takes up at least one line. -/
theorem shows_outputs : Renderer.Shows outputs := by
  intro format fields
  cases format with
  | json => exact List.cons_ne_nil _ _
  | plain =>
    rw [outputs, rows]
    simpa using Text.rows_ne_nil (by simp)

namespace Session

variable {render : Renderer}

theorem written_configure (s : Session) (c : Config) (r : Record) :
    (s.configure c).written r =
      if passes (s.levels.configure c) c r then
        match filtered c.filters ((r.written s.bound).put timeKey .null) with
        | some fields => s.render c.format fields
        | none => []
      else [] := rfl

/-- After the first configuration an event is written if and only if its level is at least the general
one and at least the threshold of its logger, and no filter drops it. Then its fields are written,
as the filters leave them. This holds however events are written, as long as they show. -/
theorem written_configured_iff (hrender : render.Shows) (c : Config) (bound : Fields) (r : Record) :
    let written := (({ bound, render } : Session).configure c).written r
    let fields := (r.written bound).put timeKey .null
    (∃ threshold, c.Threshold r.logger threshold) ∧
      (∀ threshold, c.Threshold r.logger threshold →
        (written ≠ [] ↔ c.level.number ≤ r.level.number ∧ threshold.number ≤ r.level.number ∧
          ¬ c.Drops fields)) ∧
      (written ≠ [] → ∃ kept, filtered c.filters fields = some kept ∧
        written = render c.format kept) := by
  intro written fields
  have hthreshold := Levels.threshold_configure c r.logger
  have hwritten : written = if passes (({} : Levels).configure c) c r then
      match filtered c.filters fields with
      | some kept => render c.format kept
      | none => []
      else [] := written_configure { bound, render } c r
  have hdrops : ¬ c.Drops fields ↔ ∃ kept, filtered c.filters fields = some kept := by
    rw [← Option.ne_none_iff_exists']
    exact not_congr filtered_eq_none_iff.symm
  refine ⟨⟨_, hthreshold⟩, fun threshold h => ?_, fun h => ?_⟩
  · obtain rfl := hthreshold.unique h
    rw [hdrops, hwritten, passes]
    by_cases hpasses : c.level.number ≤ r.level.number ∧
        ((({} : Levels).configure c).threshold r.logger).number ≤ r.level.number
    · cases hkept : filtered c.filters fields with
      | none => simp
      | some kept => simp [hpasses, hrender c.format kept]
    · rw [if_neg fun hand => hpasses ?_]
      · exact iff_of_false (fun h => h rfl) fun h => hpasses ⟨h.1, h.2.1⟩
      · simpa [and_comm] using hand
  · rw [hwritten] at h ⊢
    split at h
    · rename_i hpasses
      rw [if_pos hpasses]
      split at h
      · rename_i kept hkept
        exact ⟨kept, hkept, rfl⟩
      · exact absurd rfl h
    · exact absurd rfl h

/-- A level that is listed for `a` silences `a.b` as well. -/
theorem written_configured_iff_listed :
    let c : Config := { levels := [("a".toList, .error)] }
    let r (level : Level) : Record := ⟨"a.b".toList, level, "e", []⟩
    c.Threshold "a.b".toList .error ∧ (∀ fields, ¬ c.Drops fields) ∧
      (({} : Session).configure c).written (r .warning) = [] ∧
      (({} : Session).configure c).written (r .error) ≠ [] := by
  intro c r
  have hpath : "a.b".toList :: ancestors "a.b".toList = ["a.b".toList, "a".toList] := by decide
  have hthreshold : c.Threshold "a.b".toList .error := by
    have ha : OnPath "a".toList "a.b".toList := by
      rw [← mem_path_iff, hpath]
      exact List.mem_cons_of_mem _ List.mem_cons_self
    refine .nearest ha (by decide) fun nearer hnearer hlt => ?_
    have hmem := mem_path_iff.mpr hnearer
    rw [hpath] at hmem
    rcases List.mem_pair.mp hmem with rfl | rfl
    · decide
    · exact absurd hlt (Nat.lt_irrefl _)
  have hdrops (fields : Fields) : ¬ c.Drops fields := Config.not_drops rfl fields
  refine ⟨hthreshold, hdrops, ?_, ?_⟩
  · have hiff := (written_configured_iff shows_outputs c [] (r .warning)).2.1 .error hthreshold
    exact Decidable.not_not.mp fun h => absurd (hiff.mp h).2.1 (by decide)
  · have hiff := (written_configured_iff shows_outputs c [] (r .error)).2.1 .error hthreshold
    exact hiff.mpr ⟨by decide, by decide, hdrops _⟩

/-- A logger that is listed with a level below the general one is not heard at that level, although
its event reaches its threshold and there is no filter to drop it. -/
theorem verbose_level_unheard :
    let c : Config := { levels := [("a".toList, .debug)] }
    let r : Record := ⟨"a".toList, .debug, "e", []⟩
    c.Threshold r.logger .debug ∧ (∀ fields, ¬ c.Drops fields) ∧
      (({} : Session).configure c).written r = [] := by
  intro c r
  refine ⟨?_, Config.not_drops rfl, rfl⟩
  exact .nearest (.inl rfl) (by decide) fun nearer hnearer hlt =>
    absurd hnearer.length_le (Nat.not_le_of_lt hlt)

end Session
end LoosePatch.Log
