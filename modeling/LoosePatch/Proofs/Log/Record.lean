import LoosePatch.Log.Session
import LoosePatch.Proofs.Fields

/-!
What is written of a record: its own fields as they are given, and under them those that are bound
around it (`Record.get?_written`); and of several records, what is written of each of them
(`Session.logAll_fst`). What is written of an event of the engine tells all of it (`tells_ofEvent`).
-/

namespace LoosePatch.Log

/-- The fields that a record always has, and those that are never written for it. -/
def ownKeys : List String := ["event", timeKey, stackRequestKey, "logger", "level"]

theorem Record.get?_written (r : Record) (bound : Fields) {key : String} (hkey : key ∉ ownKeys) :
    (r.written bound).get? key = (r.fields.get? key).or (bound.get? key) := by
  simp only [ownKeys, List.mem_cons, List.not_mem_nil, or_false, not_or] at hkey
  obtain ⟨hevent, htime, hstack, hlogger, hlevel⟩ := hkey
  rw [written, Fields.get?_put_of_ne hlevel, Fields.get?_put_of_ne hlogger,
    Fields.get?_drop_of_ne hstack, Fields.get?_drop_of_ne htime, Fields.get?_underlay,
    Fields.get?_put_of_ne hevent]

theorem Record.get?_written_event (r : Record) (bound : Fields) :
    (r.written bound).get? "event" = some (.text r.event) := by
  rw [written, Fields.get?_put_of_ne (by decide), Fields.get?_put_of_ne (by decide),
    Fields.get?_drop_of_ne (by decide), Fields.get?_drop_of_ne (by decide), Fields.get?_underlay,
    Fields.get?_put_self, Option.some_or]

theorem Record.get?_written_level (r : Record) (bound : Fields) :
    (r.written bound).get? "level" = some (.text r.level.name) := by
  rw [written, Fields.get?_put_self]

theorem Record.get?_written_logger (r : Record) (bound : Fields) :
    (r.written bound).get? "logger" = some (.text (String.ofList r.logger)) := by
  rw [written, Fields.get?_put_of_ne (by decide), Fields.get?_put_self]

/-- Output changes nothing in a session but what its file holds. -/
theorem Session.exists_keep (s : Session) (out : List Output) : ∃ file, s.keep out = { s with file } := by
  unfold keep
  split
  · exact ⟨_, rfl⟩
  · exact ⟨s.file, rfl⟩

theorem Session.written_keep (s : Session) (out : List Output) : (s.keep out).written = s.written := by
  obtain ⟨file, hkeep⟩ := s.exists_keep out
  rw [hkeep]
  rfl

/-- What is written of a record depends on nothing that is written before it. -/
theorem Session.logAll_fst (s : Session) (rs : List Record) :
    (s.logAll rs).1 = rs.flatMap s.written := by
  induction rs generalizing s with
  | nil => rfl
  | cons r rs ih =>
    rw [List.flatMap_cons, ← written_keep s (s.written r), ← ih, written_keep]
    rfl

variable {α : Type} [Score α]

/-- Around a request its path and its operation are bound, whatever was bound before. -/
theorem bind_requestFields (s : Session) (request : Request) :
    (s.bind (requestFields request)).bound.get? "path" =
        some (.text (String.ofList request.path)) ∧
      (s.bind (requestFields request)).bound.get? "op" = some (.text request.operation.name) := by
  have hbound : (s.bind (requestFields request)).bound =
      (s.bound.put "path" (.text (String.ofList request.path))).put "op"
        (.text request.operation.name) := rfl
  rw [hbound, Fields.get?_put_of_ne (by decide), Fields.get?_put_self, Fields.get?_put_self]
  exact ⟨rfl, rfl⟩

/-- While a request is applied, its events are written, in order. -/
theorem Session.apply_written (s : Session) (config : LoosePatch.Config α) (request : Request)
    (current : Option ByteArray) :
    (s.apply config request current).2.1 = ((Engine.apply config request current).events.map
      ofEvent).flatMap (s.bind (requestFields request)).written := by
  rw [← logAll_fst]
  rfl

/-- The records of the engine leave the path, the operation and the fields of every record to the
log. -/
theorem get?_ofEvent (event : Event α) {key : String} (hkey : key ∈ "path" :: "op" :: ownKeys) :
    (ofEvent event).fields.get? key = none := by
  simp only [ownKeys, timeKey, stackRequestKey, List.mem_cons, List.not_mem_nil, or_false] at hkey
  cases event with
  | hunkLocated | lineEditsApplied | applied | rejected =>
    rcases hkey with rfl | rfl | rfl | rfl | rfl | rfl | rfl <;> rfl

/-- The fields have each of these keys with its value. -/
def Carry (fields expected : Fields) : Prop :=
  ∀ key value, (key, value) ∈ expected → fields.get? key = some value

/-- The fields tell of an event what it is, at which level and by which logger, and each of its
values under a key of its own. -/
def Tells (fields : Fields) (event : Event α) : Prop :=
  fields.get? "logger" = some (.text "patchwise.patch.engine") ∧
  match event with
  | .hunkLocated hunk strategy place confidence => Carry fields [
      ("event", .text "Hunk located"), ("level", .text "debug"), ("hunk", .whole hunk),
      ("strategy", .text strategy.text), ("line", .whole (place + 1 : Nat)),
      ("confidence", .real (roundPlaces 3 (Score.exact confidence)))]
  | .lineEditsApplied edits firstChanged => Carry fields [
      ("event", .text "Line edits applied"), ("level", .text "debug"), ("edits", .whole edits),
      ("first_changed_line", match firstChanged with | some line => .whole line | none => .null)]
  | .applied target hunks added removed fuzzy deleted => Carry fields [
      ("event", .text "Patch applied"), ("level", .text "info"),
      ("target", .text (String.ofList target)), ("hunks", .whole hunks), ("lines_added", .whole added),
      ("lines_removed", .whole removed), ("fuzzy", .bool fuzzy), ("deleted", .bool deleted)]
  | .rejected kind message => Carry fields [
      ("event", .text "Patch rejected"), ("level", .text "warning"), ("kind", .text kind.tag),
      ("error", .text message)]

/-- What is written of a record carries its name, its level and its own fields. -/
theorem Record.carry_written {r : Record} (hkeys : (r.fields.map Prod.fst).Nodup)
    (hown : ∀ key ∈ ownKeys, r.fields.get? key = none) (bound : Fields) :
    Carry (r.written bound)
      (("event", .text r.event) :: ("level", .text r.level.name) :: r.fields) := by
  intro key value hmem
  rcases List.mem_cons.mp hmem with heq | hmem
  · cases heq
    exact r.get?_written_event bound
  rcases List.mem_cons.mp hmem with heq | hmem
  · cases heq
    exact r.get?_written_level bound
  · have hvalue := Fields.get?_of_mem hkeys hmem
    have hkey : key ∉ ownKeys := fun hkey => by
      rw [hown key hkey] at hvalue
      cases hvalue
    rw [get?_written r bound hkey, hvalue, Option.some_or]

/-- What is written of an event tells all of it, whatever is bound around it. -/
theorem tells_ofEvent (event : Event α) (bound : Fields) :
    Tells ((ofEvent event).written bound) event := by
  have hown : ∀ key ∈ ownKeys, (ofEvent event).fields.get? key = none := fun key hkey =>
    get?_ofEvent event (List.mem_cons_of_mem _ (List.mem_cons_of_mem _ hkey))
  refine ⟨?_, ?_⟩
  · rw [Record.get?_written_logger]
    cases event <;> rfl
  · cases event with
    | hunkLocated | lineEditsApplied | applied | rejected =>
      exact Record.carry_written (by simp [ofEvent]) hown bound

/-- Whatever is bound around a request, its events are told, with its path and its operation. -/
theorem written_ofEvent (s : Session) (request : Request) (event : Event α) :
    let fields := (ofEvent event).written (s.bind (requestFields request)).bound
    Tells fields event ∧ fields.get? "path" = some (.text (String.ofList request.path)) ∧
      fields.get? "op" = some (.text request.operation.name) := by
  intro fields
  obtain ⟨hpath, hop⟩ := bind_requestFields s request
  refine ⟨tells_ofEvent event _, ?_, ?_⟩
  · rw [Record.get?_written _ _ (by decide), get?_ofEvent event (by decide), hpath, Option.none_or]
  · rw [Record.get?_written _ _ (by decide), get?_ofEvent event (by decide), hop, Option.none_or]

end LoosePatch.Log
