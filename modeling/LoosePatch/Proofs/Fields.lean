import LoosePatch.Proofs.Lookup
import LoosePatch.Value

/-!
Named values after they are changed: put in place, dropped, or laid under others.
-/

namespace LoosePatch.Fields

variable {key other : String}

theorem get?_cons (k : String) (v : Value) (rest : Fields) (key : String) :
    get? ((k, v) :: rest) key = if key = k then some v else get? rest key :=
  lookup_cons_eq_ite k key v rest

/-- Where no key comes twice, each one has the value it comes with. -/
theorem get?_of_mem {fields : Fields} {value : Value} (hkeys : (fields.map Prod.fst).Nodup)
    (h : (key, value) ∈ fields) : fields.get? key = some value := by
  obtain ⟨before, after, rfl⟩ := List.append_of_mem h
  refine List.lookup_eq_some_iff.mpr ⟨before, after, rfl, fun field hfield => ?_⟩
  rw [List.map_append, List.map_cons, List.nodup_append] at hkeys
  exact bne_iff_ne.mpr (hkeys.2.2 _ (List.mem_map_of_mem hfield) _ List.mem_cons_self).symm

theorem get?_put_self (key : String) (value : Value) (fields : Fields) :
    (fields.put key value).get? key = some value := by
  induction fields with
  | nil => rw [put, get?_cons, if_pos rfl]
  | cons field rest ih =>
    obtain ⟨k, v⟩ := field
    by_cases hk : k = key
    · rw [put, if_pos hk, get?_cons, if_pos rfl]
    · rw [put, if_neg hk, get?_cons, if_neg (Ne.symm hk), ih]

theorem get?_put_of_ne (h : other ≠ key) (value : Value) (fields : Fields) :
    (fields.put key value).get? other = fields.get? other := by
  induction fields with
  | nil => rw [put, get?_cons, if_neg h]
  | cons field rest ih =>
    obtain ⟨k, v⟩ := field
    by_cases hk : k = key
    · rw [put, if_pos hk, get?_cons, get?_cons, if_neg h, if_neg (hk ▸ h)]
    · rw [put, if_neg hk, get?_cons, get?_cons, ih]

theorem keys_put (key : String) (value value' : Value) (fields : Fields) :
    (fields.put key value).map Prod.fst = (fields.put key value').map Prod.fst := by
  induction fields with
  | nil => rfl
  | cons field rest ih =>
    obtain ⟨k, v⟩ := field
    by_cases hk : k = key
    · simp [put, hk]
    · simp [put, hk, ih]

theorem get?_drop_of_ne (h : other ≠ key) (fields : Fields) :
    (fields.drop key).get? other = fields.get? other :=
  (lookup_filter_ne key other fields).trans (if_neg h)

theorem overlay_cons (fields : Fields) (k : String) (v : Value) (rest : Fields) :
    fields.overlay ((k, v) :: rest) = (fields.put k v).overlay rest := rfl

/-- Fields laid over others hide those; of two for one key the last one shows. -/
theorem get?_overlay (fields top : Fields) (key : String) :
    (fields.overlay top).get? key = (get? top.reverse key).or (fields.get? key) := by
  induction top generalizing fields with
  | nil => rfl
  | cons field rest ih =>
    obtain ⟨k, v⟩ := field
    have hreverse : get? ((k, v) :: rest).reverse key = (get? rest.reverse key).or (get? [(k, v)] key) := by
      rw [List.reverse_cons]
      exact List.lookup_append
    rw [overlay_cons, ih, hreverse, Option.or_assoc, get?_cons]
    congr 1
    by_cases hk : key = k
    · subst hk
      rw [get?_put_self, if_pos rfl, Option.some_or]
    · rw [get?_put_of_ne hk, if_neg hk]
      rfl

theorem underlay_cons (fields : Fields) (k : String) (v : Value) (rest : Fields) :
    fields.underlay ((k, v) :: rest) =
      (if (fields.get? k).isSome then fields else fields.put k v).underlay rest := rfl

/-- Fields laid under others show where those have no value. -/
theorem get?_underlay (fields under : Fields) (key : String) :
    (fields.underlay under).get? key = (fields.get? key).or (under.get? key) := by
  induction under generalizing fields with
  | nil => exact Option.or_none.symm
  | cons field rest ih =>
    obtain ⟨k, v⟩ := field
    rw [underlay_cons, ih, get?_cons]
    by_cases hk : key = k
    · subst hk
      rw [if_pos rfl]
      cases hget : fields.get? key with
      | none => rw [Option.isSome_none, if_neg Bool.false_ne_true, get?_put_self]; rfl
      | some w => rw [Option.isSome_some, if_pos rfl, hget]; rfl
    · rw [if_neg hk]
      split
      · rfl
      · rw [get?_put_of_ne hk]

end LoosePatch.Fields
