import LoosePatch.Locate.Anchor
import Mathlib.Data.List.Basic
import Mathlib.Data.List.Induction

/-!
Where anchors can point. Every line that an anchor may mean lies below the line of the anchor
before it and inside the file, at whatever level and from however many phrases it was found.
-/

namespace LoosePatch.Anchor

variable {α : Type}

/-! ## One anchor -/

theorem mem_numbered {lines : List Text} {start l : Nat} (h : l ∈ (numbered lines start).map Prod.snd) :
    start ≤ l ∧ l < lines.length := by
  rw [numbered, List.map_drop, List.zipIdx_map_snd, List.drop_range', List.mem_range'_1] at h
  omega

theorem linesWhere_subset {p : Text → Bool} {given : List (Text × Nat)} {l : Nat}
    (h : l ∈ linesWhere p given) : l ∈ given.map Prod.snd := by
  obtain ⟨x, hx, rfl⟩ := List.mem_map.mp h
  exact List.mem_map_of_mem (List.mem_filter.mp hx).1

theorem hits?_eq_some {ls : List Nat} {c : α} {level : AnchorLevel} {hits : AnchorHits α}
    (h : hits? ls c level = some hits) : hits.lines = ls := by
  obtain ⟨-, h⟩ := Option.ite_none_left_eq_some.mp h
  cases h
  rfl

variable [Score α] {config : Config α} {lines : List Text}

theorem fuzzyHits_subset {target : Text} {given : List (Text × Nat)} {hits : AnchorHits α}
    (h : fuzzyHits config target given = some hits) {l : Nat} (hl : l ∈ hits.lines) :
    l ∈ given.map Prod.snd := by
  unfold fuzzyHits at h
  simp only at h
  split at h
  · cases h
  · rw [hits?_eq_some h] at hl
    obtain ⟨⟨i, x⟩, hx, rfl⟩ := List.mem_map.mp hl
    unfold Sequence.winners at hx
    split at hx
    · cases hx
    · have hscored := (List.mem_filter.mp (List.mem_filter.mp hx).1).1
      obtain ⟨⟨line, j⟩, hj, heq⟩ := List.mem_map.mp hscored
      cases heq
      exact List.mem_map_of_mem hj

/-- The lines that an anchor means come from the lines searched, whatever the level. -/
theorem find_within {anchor : Text} {start : Nat} {hits : AnchorHits α}
    (h : find config lines anchor start = some hits) {l : Nat} (hl : l ∈ hits.lines) :
    start ≤ l ∧ l < lines.length := by
  have given (f : Text → Text) : ((numbered lines start).map fun x => (f x.1, x.2)).map
      Prod.snd = (numbered lines start).map Prod.snd := by
    rw [List.map_map]
    rfl
  have inside {p : Text → Bool} {f : Text → Text} {c : α} {level : AnchorLevel}
      (h : hits? (linesWhere p ((numbered lines start).map fun x => (f x.1, x.2))) c level =
        some hits) : start ≤ l ∧ l < lines.length := by
    rw [hits?_eq_some h] at hl
    have hmem := linesWhere_subset hl
    rw [given f] at hmem
    exact mem_numbered hmem
  unfold find at h
  simp only at h
  split at h
  · cases h
  · simp only [Option.orElse_eq_orElse, Option.orElse_eq_or, Option.or_eq_some_iff] at h
    rcases h with h | ⟨-, h | ⟨-, h | ⟨-, h | ⟨-, h | ⟨-, h⟩⟩⟩⟩⟩
    · rw [hits?_eq_some h] at hl
      exact mem_numbered (linesWhere_subset hl)
    · exact inside h
    · exact inside h
    · exact inside h
    · split at h
      · exact inside h
      · cases h
    · split at h
      · rcases Option.or_eq_some_iff.mp h with h | ⟨-, h⟩
        · exact inside h
        · have hmem := fuzzyHits_subset h hl
          rw [given Text.loose] at hmem
          exact mem_numbered hmem
      · cases h

/-! ## Phrases and chains -/

theorem phrases_within {search : Text → Nat → Option Nat} {n : Nat}
    (hs : ∀ phrase start l, search phrase start = some l → start ≤ l ∧ l < n)
    {notWhole : Bool} {words : List Text} {start line : Nat}
    (h : phrases search notWhole words start = some line) : start ≤ line ∧ line < n := by
  -- each phrase takes a word, so the induction is on the number of words left
  induction hsize : words.length using Nat.strongRecOn generalizing notWhole words start with
  | ind size ih =>
    cases words with
    | nil =>
      rw [phrases] at h
      cases h
    | cons word rest =>
      rw [phrases] at h
      split at h
      · cases h
      · rename_i k l hfound
        obtain ⟨j, -, hj⟩ := List.exists_of_findSome?_eq_some hfound
        obtain ⟨l', hl', heq⟩ := Option.map_eq_some_iff.mp hj
        cases heq
        have hfirst := hs _ _ _ hl'
        split at h
        · cases h
          exact hfirst
        · have hlast := ih (rest.drop k).length (by
            simp only [List.length_drop, List.length_cons] at hsize ⊢
            omega) h rfl
          omega

theorem locate_within {anchor : Text} {start l : Nat}
    (h : l ∈ (locate config lines anchor start).1) : start ≤ l ∧ l < lines.length := by
  unfold locate at h
  split at h
  · rename_i hits hfind
    exact find_within hfind h
  · split at h
    · rename_i line hphrases
      rw [List.mem_singleton.mp h]
      refine phrases_within (fun phrase start l hl => ?_) hphrases
      obtain ⟨hits, hfind, hhead⟩ := Option.bind_eq_some_iff.mp hl
      exact find_within hfind (List.mem_of_head? hhead)
    · cases h

/-- Following anchors leads downwards, at least one line for each. -/
theorem follow_within {anchors : List Text} {line l : Nat} {c c' : α} (hline : line < lines.length)
    (h : follow config lines anchors line c = .ok (l, c')) :
    line + anchors.length ≤ l ∧ l < lines.length := by
  induction anchors generalizing line c with
  | nil =>
    simp only [follow, Except.ok.injEq, Prod.mk.injEq] at h
    simp only [List.length_nil]
    omega
  | cons anchor anchors ih =>
    simp only [follow] at h
    split at h
    · cases h
    · rename_i next others d hlocate
      have hmem : next ∈ (locate config lines anchor (line + 1)).1 := by
        rw [hlocate]
        exact List.mem_cons_self
      have hnext := locate_within hmem
      have hrest := ih hnext.2 h
      rw [List.length_cons]
      omega

/-- A chain is broken by one of its anchors. -/
theorem mem_of_follow_eq_error {anchors : List Text} {line : Nat} {c : α} {anchor : Text}
    (h : follow config lines anchors line c = .error anchor) : anchor ∈ anchors := by
  induction anchors generalizing line c with
  | nil => cases h
  | cons first anchors ih =>
    simp only [follow] at h
    split at h
    · cases h
      exact List.mem_cons_self
    · exact List.mem_cons_of_mem first (ih h)

/-! ## The ends of chains -/

section Ends

omit [Score α]

theorem mem_insertEnd {x : Nat × α} {line : Nat} {c : α} {found : List (Nat × α)}
    (h : x ∈ insertEnd line c found) : x = (line, c) ∨ x ∈ found := by
  induction found with
  | nil => exact Or.inl (List.mem_singleton.mp h)
  | cons y found ih =>
    simp only [insertEnd] at h
    split at h
    · exact List.mem_cons.mp h
    · split at h
      · exact Or.inr h
      · rcases List.mem_cons.mp h with rfl | h
        · exact Or.inr List.mem_cons_self
        · exact (ih h).imp id (List.mem_cons_of_mem _)

theorem mem_insertEnd_lines {line l : Nat} {c : α} {found : List (Nat × α)} :
    l ∈ (insertEnd line c found).map Prod.fst ↔ l = line ∨ l ∈ found.map Prod.fst := by
  induction found with
  | nil => simp [insertEnd]
  | cons x found ih =>
    simp only [insertEnd]
    split
    · simp
    · split
      · rename_i heq
        simp [heq]
      · simp only [List.map_cons, List.mem_cons, ih, or_left_comm]

theorem insertEnd_sorted {line : Nat} {c : α} {found : List (Nat × α)}
    (h : (found.map Prod.fst).Pairwise (· < ·)) :
    ((insertEnd line c found).map Prod.fst).Pairwise (· < ·) := by
  induction found with
  | nil => exact List.pairwise_singleton _ _
  | cons x found ih =>
    obtain ⟨hx, hfound⟩ := List.pairwise_cons.mp h
    simp only [insertEnd]
    split
    · rename_i hlt
      refine List.pairwise_cons.mpr ⟨List.forall_mem_cons.mpr ⟨hlt, fun l hl => ?_⟩, h⟩
      exact Nat.lt_trans hlt (hx l hl)
    · split
      · exact h
      · refine List.pairwise_cons.mpr ⟨fun l hl => ?_, ih hfound⟩
        rcases mem_insertEnd_lines.mp hl with rfl | hl
        · omega
        · exact hx l hl

variable {chains : List (Except Text (Nat × α))}

theorem ends_concat (chains : List (Except Text (Nat × α))) (chain : Except Text (Nat × α)) :
    ends (chains ++ [chain]) =
      match chain with
      | .ok (line, confidence) => (insertEnd line confidence (ends chains).1, (ends chains).2)
      | .error anchor => ((ends chains).1, some anchor) := by
  rw [ends, List.foldl_append]
  rfl

theorem mem_ends {x : Nat × α} (h : x ∈ (ends chains).1) : .ok x ∈ chains := by
  induction chains using List.reverseRecOn with
  | nil => cases h
  | append_singleton chains chain ih =>
    rw [ends_concat] at h
    cases chain with
    | error anchor => exact List.mem_append_left _ (ih h)
    | ok y =>
      rcases mem_insertEnd h with rfl | h
      · exact List.mem_append_right _ (List.mem_singleton_self _)
      · exact List.mem_append_left _ (ih h)

/-- Of several chains that end at one line the first stands for all, so no line is lost. -/
theorem mem_ends_lines {l : Nat} : l ∈ (ends chains).1.map Prod.fst ↔ ∃ c, .ok (l, c) ∈ chains := by
  induction chains using List.reverseRecOn with
  | nil => simp [ends]
  | append_singleton chains chain ih =>
    rw [ends_concat]
    cases chain with
    | error anchor => simp [ih]
    | ok y =>
      simp only [mem_insertEnd_lines, ih, List.mem_append, List.mem_singleton, Except.ok.injEq,
        exists_or]
      rw [or_comm]
      exact or_congr_right ⟨fun heq => ⟨y.2, Prod.ext heq rfl⟩, fun ⟨c, heq⟩ => congrArg Prod.fst heq⟩

theorem ends_sorted (chains : List (Except Text (Nat × α))) :
    ((ends chains).1.map Prod.fst).Pairwise (· < ·) := by
  induction chains using List.reverseRecOn with
  | nil => exact List.Pairwise.nil
  | append_singleton chains chain ih =>
    rw [ends_concat]
    cases chain with
    | error anchor => exact ih
    | ok y => exact insertEnd_sorted ih

/-- Where every chain is broken, one of the anchors that broke them is named. -/
theorem ends_eq_nil (hne : chains ≠ []) (h : (ends chains).1 = []) :
    ∃ anchor, (ends chains).2 = some anchor ∧ .error anchor ∈ chains := by
  obtain ⟨chains, chain, rfl⟩ := (List.eq_nil_or_concat' chains).resolve_left hne
  have hlast : chain ∈ chains ++ [chain] := List.mem_append_right _ (List.mem_singleton_self _)
  cases chain with
  | error anchor =>
    rw [ends_concat]
    exact ⟨anchor, rfl, hlast⟩
  | ok y =>
    have hline : y.1 ∈ (ends (chains ++ [.ok y])).1.map Prod.fst := mem_ends_lines.mpr ⟨y.2, hlast⟩
    rw [h] at hline
    cases hline

/-- Each line where chains end has a confidence. -/
theorem exists_lookup {found : List (Nat × α)} {place : Nat} (h : place ∈ found.map Prod.fst) :
    ∃ c, found.lookup place = some c ∧ (place, c) ∈ found := by
  obtain ⟨x, hx, hfst⟩ := List.mem_map.mp h
  obtain ⟨c, hc⟩ := Option.isSome_iff_exists.mp
    (List.lookup_isSome_iff.mpr ⟨x, hx, beq_iff_eq.mpr hfst.symm⟩)
  obtain ⟨before, after, hsplit, -⟩ := List.lookup_eq_some_iff.mp hc
  refine ⟨c, hc, ?_⟩
  rw [hsplit]
  exact List.mem_append_right before List.mem_cons_self

end Ends

/-! ## The nearest lines -/

theorem mem_nearest {target : Int} {places : List Nat} {p : Nat} :
    p ∈ nearest target places ↔ p ∈ places ∧
      ∀ q ∈ places, ((p : Int) - target).natAbs ≤ ((q : Int) - target).natAbs := by
  let distance (p : Nat) : Nat := ((p : Int) - target).natAbs
  cases hleast : (places.map distance).min? with
  | none =>
    rw [List.min?_eq_none_iff, List.map_eq_nil_iff] at hleast
    simp [hleast, nearest]
  | some least =>
    obtain ⟨hmem, hle⟩ := List.min?_eq_some_iff.mp hleast
    have hnearest : nearest target places = places.filter fun p => decide (distance p = least) := by
      simp only [distance] at hleast ⊢
      simp only [nearest, hleast]
    rw [hnearest, List.mem_filter, decide_eq_true_eq]
    refine and_congr_right fun hp => ⟨fun heq q hq => ?_, fun hall => ?_⟩
    · have hq' := hle _ (List.mem_map_of_mem hq)
      rwa [← heq] at hq'
    · obtain ⟨q, hq, hdistance⟩ := List.mem_map.mp hmem
      exact Nat.le_antisymm (hdistance ▸ hall q hq) (hle _ (List.mem_map_of_mem hp))

theorem nearest_sublist (target : Int) (places : List Nat) : (nearest target places).Sublist places := by
  unfold nearest
  extract_lets distance
  split
  · exact List.nil_sublist places
  · exact List.filter_sublist

theorem nearest_ne_nil {places : List Nat} (target : Int) (hne : places ≠ []) :
    nearest target places ≠ [] := by
  unfold nearest
  extract_lets distance
  obtain ⟨least, hleast⟩ := Option.isSome_iff_exists.mp
    (List.isSome_min?_of_ne_nil (l := places.map distance) (by simpa using hne))
  obtain ⟨p, hp, hdistance⟩ := List.mem_map.mp (List.min?_mem hleast)
  rw [hleast]
  exact List.ne_nil_of_mem (List.mem_filter.mpr ⟨hp, decide_eq_true hdistance⟩)

/-- The lines that a hint leaves of several. -/
def hinted (hint : Option Int) (places : List Nat) : List Nat :=
  match hint with
  | some target => nearest target places
  | none => places

theorem hinted_sublist (hint : Option Int) (places : List Nat) : (hinted hint places).Sublist places := by
  cases hint with
  | none => exact List.Sublist.refl places
  | some target => exact nearest_sublist target places

theorem hinted_ne_nil {places : List Nat} (hint : Option Int) (hne : places ≠ []) :
    hinted hint places ≠ [] := by
  cases hint with
  | none => exact hne
  | some target => exact nearest_ne_nil target hne

/-! ## All anchors -/

/-- A line where the anchors `first :: rest` lead, with the confidence of a chain that leads there. -/
def Leads (config : Config α) (lines : List Text) (first : Text) (rest : List Text) (x : Nat × α) :
    Prop :=
  ∃ hit ∈ (locate config lines first 0).1,
    follow config lines rest hit (locate config lines first 0).2 = .ok x

theorem Leads.lt {first : Text} {rest : List Text} {x : Nat × α} (h : Leads config lines first rest x) :
    x.1 < lines.length := by
  obtain ⟨hit, hhit, hfollow⟩ := h
  exact (follow_within (locate_within hhit).2 hfollow).2

/-- The lines where anchors lead, in file order. -/
def endLines (config : Config α) (lines : List Text) (first : Text) (rest : List Text) : List Nat :=
  (ends ((locate config lines first 0).1.map fun hit =>
    follow config lines rest hit (locate config lines first 0).2)).1.map Prod.fst

theorem mem_endLines {first : Text} {rest : List Text} {place : Nat} :
    place ∈ endLines config lines first rest ↔ ∃ c, Leads config lines first rest (place, c) := by
  rw [endLines, mem_ends_lines]
  exact exists_congr fun c => List.mem_map

/-- What anchors point to: the only line where they lead that the hint leaves, all such lines if there
are several, or one of the anchors if they lead nowhere. -/
theorem resolve_cons (config : Config α) (lines : List Text) (first : Text) (rest : List Text)
    (hint : Option Int) :
    ∃ anchoring, resolve config lines (first :: rest) hint = some anchoring ∧
      match anchoring with
      | .line place c =>
        hinted hint (endLines config lines first rest) = [place] ∧
          Leads config lines first rest (place, c)
      | .candidates places _ =>
        hinted hint (endLines config lines first rest) = places ∧ 2 ≤ places.length
      | .missing anchor => endLines config lines first rest = [] ∧ anchor ∈ first :: rest := by
  simp only [endLines, Leads, resolve]
  rcases hlocate : locate config lines first 0 with ⟨_ | ⟨hit, hits⟩, d⟩
  · exact ⟨.missing first, rfl, rfl, List.mem_cons_self⟩
  · dsimp only
    generalize hchains : ((hit :: hits).map fun hit => follow config lines rest hit d) = chains
    have hne : chains ≠ [] := hchains ▸ List.cons_ne_nil _ _
    rcases hends : ends chains with ⟨_ | ⟨⟨line, c⟩, others⟩, missing⟩
    · obtain ⟨anchor, hanchor, hbroken⟩ := ends_eq_nil hne (congrArg Prod.fst hends)
      obtain ⟨hit', -, herror⟩ := List.mem_map.mp (hchains ▸ hbroken)
      rw [hends] at hanchor
      refine ⟨.missing anchor, ?_, rfl, List.mem_cons_of_mem first (mem_of_follow_eq_error herror)⟩
      cases hanchor
      rfl
    · dsimp only
      have hkept : hinted hint (((line, c) :: others).map Prod.fst) ≠ [] :=
        hinted_ne_nil hint (List.cons_ne_nil _ _)
      rcases hplaces : hinted hint (((line, c) :: others).map Prod.fst) with
        _ | ⟨place, _ | ⟨next, places⟩⟩
      · exact absurd hplaces hkept
      · have hmem : place ∈ ((line, c) :: others).map Prod.fst :=
          (hinted_sublist hint _).subset (hplaces ▸ List.mem_singleton_self place)
        obtain ⟨c', hc', hfound⟩ := exists_lookup hmem
        refine ⟨.line place c', ?_, rfl, ?_⟩
        · cases hint <;> simp only [hinted] at hplaces <;> simp only [hplaces, hc', Option.getD_some]
        · have hok : .ok (place, c') ∈ chains := mem_ends (by rw [hends]; exact hfound)
          exact List.mem_map.mp (hchains ▸ hok)
      · refine ⟨.candidates (place :: next :: places)
          (others.foldl (fun acc x => Score.least acc x.2) c), ?_, rfl,
          Nat.succ_lt_succ (Nat.succ_pos _)⟩
        cases hint <;> simp only [hinted] at hplaces <;> simp only [hplaces]

/-- What anchors point to, unless one is missing: a line where they lead, or else several. -/
theorem resolve_leads {anchors : List Text} {hint : Option Int} {anchoring : Anchoring α}
    (h : resolve config lines anchors hint = some anchoring)
    (hfound : ∀ anchor, anchoring ≠ .missing anchor) :
    ∃ first rest, anchors = first :: rest ∧
      ((∃ place c, anchoring = .line place c ∧ Leads config lines first rest (place, c)) ∨
        ∃ places c, anchoring = .candidates places c ∧ 2 ≤ places.length ∧
          ∀ place ∈ places, ∃ c, Leads config lines first rest (place, c)) := by
  cases anchors with
  | nil => cases h
  | cons first rest =>
    refine ⟨first, rest, rfl, ?_⟩
    obtain ⟨anchoring', hresolve, hcase⟩ := resolve_cons config lines first rest hint
    cases hresolve.symm.trans h
    cases anchoring with
    | line place c => exact Or.inl ⟨place, c, rfl, hcase.2⟩
    | candidates places c =>
      obtain ⟨rfl, htwo⟩ := hcase
      exact Or.inr ⟨_, c, rfl, htwo, fun place hplace =>
        mem_endLines.mp ((hinted_sublist hint _).subset hplace)⟩
    | missing anchor => exact absurd rfl (hfound anchor)

/-- The line that anchors point to ends a chain, and has the confidence of this chain. -/
theorem resolve_line_leads {anchors : List Text} {hint : Option Int} {place : Nat} {c : α}
    (h : resolve config lines anchors hint = some (.line place c)) :
    ∃ first rest, anchors = first :: rest ∧ Leads config lines first rest (place, c) := by
  obtain ⟨first, rest, hanchors, ⟨place', c', heq, hleads⟩ | ⟨places, c', heq, -⟩⟩ :=
    resolve_leads h fun anchor hmissing => by cases hmissing
  · cases heq
    exact ⟨first, rest, hanchors, hleads⟩
  · cases heq

/-- Anchors that do not point to one line point to several lines of the file. -/
theorem resolve_candidates {anchors : List Text} {hint : Option Int} {places : List Nat} {c : α}
    (h : resolve config lines anchors hint = some (.candidates places c)) :
    2 ≤ places.length ∧ ∀ place ∈ places, place < lines.length := by
  obtain ⟨first, rest, -, ⟨place, c', heq, -⟩ | ⟨places', c', heq, htwo, hleads⟩⟩ :=
    resolve_leads h fun anchor hmissing => by cases hmissing
  · cases heq
  · cases heq
    refine ⟨htwo, fun place hplace => ?_⟩
    obtain ⟨c', hleads⟩ := hleads place hplace
    exact hleads.lt

/-- A resolved anchor is a line of the file. -/
theorem resolve_line_lt {anchors : List Text} {hint : Option Int} {place : Nat} {c : α}
    (h : resolve config lines anchors hint = some (.line place c)) : place < lines.length := by
  obtain ⟨first, rest, -, hleads⟩ := resolve_line_leads h
  exact hleads.lt

end LoosePatch.Anchor
