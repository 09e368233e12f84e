import LoosePatch.Image
import LoosePatch.Proofs.Text.Bytes
import LoosePatch.Proofs.Text.Lines

/-!
An image and its text determine each other. Writing an image puts its lines, each with its break,
before the piece that no break ends (`toText_eq`). `Coherent` says which images reading a text can
give: `toText_ofText` and `ofText_toText` are the two directions between them, and
`ofBytes?_inverse_toBytes` says what this means for the bytes of a file.
-/

namespace LoosePatch.Image

variable {image : Image} {ls : List Text} {last text : Text}

/-! ## Lines and their breaks -/

/-- The lines that a break ends. -/
def ended (image : Image) : List Text :=
  if image.endsWithBreak then image.lines else image.lines.dropLast

/-- What stands behind the last break. -/
def tail (image : Image) : Text :=
  if image.endsWithBreak then [] else image.lines.getLast?.getD []

/-- What a break has before its line feed. -/
def returns : LineEnd → Text
  | .lf => []
  | .crlf => ['\r']

/-- The ended lines up to their line feeds. -/
def rows (image : Image) : List Text := image.ended.map (· ++ returns image.lineEnd)

theorem mem_ended {l : Text} (h : l ∈ image.ended) : l ∈ image.lines := by
  rw [ended] at h
  split at h
  · exact h
  · exact List.dropLast_subset _ h

theorem ended_append_tail (h : image.lines ≠ []) :
    Text.terminated image.ended ++ image.tail =
      Text.unlines image.lines ++ if image.endsWithBreak then ['\n'] else [] := by
  rw [ended, tail]
  split
  · rw [List.append_nil, Text.unlines_append_break h]
  · rw [List.append_nil, List.getLast?_eq_some_getLast h, Option.getD_some, ← Text.unlines_concat,
      List.dropLast_concat_getLast]

theorem ended_cons (first : Text) (rest : List Text) (lineEnd : LineEnd) (hasMark endsWithBreak : Bool) :
    (ended ⟨first :: rest, lineEnd, hasMark, endsWithBreak⟩ = [] ∧
        tail ⟨first :: rest, lineEnd, hasMark, endsWithBreak⟩ = first) ∨
      ∃ ls, ended ⟨first :: rest, lineEnd, hasMark, endsWithBreak⟩ = first :: ls := by
  cases endsWithBreak with
  | true => exact .inr ⟨rest, rfl⟩
  | false =>
    cases rest with
    | nil => exact .inl ⟨rfl, rfl⟩
    | cons second rest => exact .inr ⟨(second :: rest).dropLast, rfl⟩

theorem not_mem_tail {c : Char} (h : ∀ l ∈ image.lines, c ∉ l) : c ∉ image.tail := by
  rw [tail]
  split
  · exact List.not_mem_nil
  · cases hlast : image.lines.getLast? with
    | none => exact List.not_mem_nil
    | some l => exact h l (List.mem_of_getLast? hlast)

theorem not_mem_rows {c : Char} (hc : c ≠ '\r') (h : ∀ l ∈ image.lines, c ∉ l) :
    ∀ l ∈ image.rows, c ∉ l := by
  intro l hl hmem
  obtain ⟨l', hl', rfl⟩ := List.mem_map.mp hl
  rcases List.mem_append.mp hmem with hmem | hmem
  · exact h l' (mem_ended hl') hmem
  · revert hmem
    cases image.lineEnd with
    | lf => exact List.not_mem_nil
    | crlf => exact fun hmem => hc (List.mem_singleton.mp hmem)

/-! ## Writing -/

/-- A text without line feeds stays as it is when line feeds are replaced. -/
theorem flatMap_breakText_of_not_mem (h : '\n' ∉ text) :
    (text.flatMap fun c => if c = '\n' then breakText .crlf else [c]) = text := by
  induction text with
  | nil => rfl
  | cons c text ih =>
    have hc : c ≠ '\n' := fun heq => h (heq ▸ List.mem_cons_self)
    rw [List.flatMap_cons, if_neg hc,
      ih fun hmem => h (List.mem_cons_of_mem c hmem), List.singleton_append]

theorem flatMap_breakText_terminated (h : ∀ l ∈ ls, '\n' ∉ l) :
    ((Text.terminated ls).flatMap fun c => if c = '\n' then breakText .crlf else [c]) =
      Text.terminated (ls.map (· ++ ['\r'])) := by
  induction ls with
  | nil => rfl
  | cons l ls ih =>
    rw [Text.terminated_cons, List.flatMap_append, List.flatMap_cons,
      flatMap_breakText_of_not_mem (h l List.mem_cons_self),
      ih fun l' hl' => h l' (List.mem_cons_of_mem l hl'), List.map_cons, Text.terminated_cons,
      List.append_assoc]
    rfl

/-- An image is written as its ended lines, each with its break, and the rest. -/
theorem toText_eq (h : ∀ l ∈ image.lines, '\n' ∉ l) :
    image.toText = Text.terminated image.rows ++ image.tail := by
  by_cases hempty : image.lines = []
  · simp [toText, rows, ended, tail, hempty, Text.terminated]
  have hended : ∀ l ∈ image.ended, '\n' ∉ l := fun l hl => h l (mem_ended hl)
  rw [toText, if_neg (by simpa using hempty)]
  simp only [← ended_append_tail hempty]
  cases hend : image.lineEnd with
  | lf => simp [rows, returns, hend]
  | crlf =>
    rw [List.flatMap_append, flatMap_breakText_terminated hended,
      flatMap_breakText_of_not_mem (not_mem_tail h), rows, returns.eq_def, hend]

/-! ## Reading -/

/-- Whether all of these lines end in a carriage return, and there are any. -/
def returned (ls : List Text) : Bool := !ls.isEmpty && ls.all fun l => l.getLast? == some '\r'

theorem returned_eq_true_iff : returned ls = true ↔ ls ≠ [] ∧ ∀ l ∈ ls, l.getLast? = some '\r' := by
  simp [returned]

/-- The image of lines with their breaks and what stands behind the last of them. -/
def ofParts (ended : List Text) (tail : Text) (lineEnd : LineEnd) (hasMark : Bool) : Image :=
  { lines := ended ++ if tail.isEmpty then [] else [tail]
    lineEnd
    hasMark
    endsWithBreak := tail.isEmpty }

theorem ended_ofParts (lineEnd : LineEnd) (hasMark : Bool) :
    (ofParts ls last lineEnd hasMark).ended = ls := by
  cases last <;> simp [ofParts, ended]

theorem tail_ofParts (lineEnd : LineEnd) (hasMark : Bool) :
    (ofParts ls last lineEnd hasMark).tail = last := by
  cases last <;> simp [ofParts, tail]

theorem eq_ofParts (h : image.endsWithBreak = false → image.tail ≠ []) :
    ofParts image.ended image.tail image.lineEnd image.hasMark = image := by
  obtain ⟨lines, lineEnd, hasMark, endsWithBreak⟩ := image
  cases endsWithBreak with
  | true => simp [ofParts, ended, tail]
  | false =>
    have htail : lines.getLast?.getD [] ≠ [] := h rfl
    obtain ⟨last, hlast⟩ : ∃ last, lines.getLast? = some last := by
      rw [← Option.isSome_iff_exists]
      exact Option.isSome_iff_ne_none.mpr fun hnone => htail (by rw [hnone]; rfl)
    rw [hlast, Option.getD_some] at htail
    simp [ofParts, ended, tail, hlast, htail, List.dropLast_append_getLast? last hlast]

theorem ofText_eq (h : ∀ l ∈ ls, '\n' ∉ l) (hlast : '\n' ∉ last) (hasMark : Bool) :
    ofText (Text.terminated ls ++ last) hasMark =
      ofParts (if returned ls then ls.map List.dropLast else ls) last
        (if returned ls then .crlf else .lf) hasMark := by
  rw [ofText, Text.lines_terminated_append h hlast, List.dropLast_concat, List.getLast?_concat]
  cases last with
  | nil => simp only [ofParts, List.isEmpty_nil, if_true, List.append_nil]; rfl
  | cons c last => rfl

/-- What an image has that reading a text gives. The break that ends the lines of a file is read
off these lines: both characters if there is a line, and each of them ends in a carriage return. -/
structure Coherent (image : Image) : Prop where
  not_mem : ∀ l ∈ image.lines, '\n' ∉ l
  tail_ne_nil : image.endsWithBreak = false → image.tail ≠ []
  lineEnd_eq : image.lineEnd = if returned image.rows then .crlf else .lf

theorem rows_ofText (h : ∀ l ∈ ls, '\n' ∉ l) (hlast : '\n' ∉ last) (hasMark : Bool) :
    (ofText (Text.terminated ls ++ last) hasMark).rows = ls := by
  rw [rows, ofText_eq h hlast, ended_ofParts, ofParts]
  cases hreturned : returned ls with
  | false => simp [returns]
  | true =>
    have hends := (returned_eq_true_iff.mp hreturned).2
    rw [if_pos rfl, if_pos rfl, List.map_map]
    refine (List.map_congr_left fun l hl => ?_).trans (List.map_id ls)
    exact List.dropLast_append_getLast? '\r' (hends l hl)

theorem coherent_ofText (text : Text) (hasMark : Bool) : Coherent (ofText text hasMark) := by
  obtain ⟨ls, last, rfl, h, hlast⟩ := Text.exists_terminated_append text
  refine ⟨fun l hl => ?_, fun hend => ?_, ?_⟩
  · rw [ofText_eq h hlast, ofParts] at hl
    rcases List.mem_append.mp hl with hl | hl
    · split at hl
      · obtain ⟨l', hl', rfl⟩ := List.mem_map.mp hl
        exact fun hmem => h l' hl' (List.dropLast_subset l' hmem)
      · exact h l hl
    · split at hl
      · cases hl
      · exact List.mem_singleton.mp hl ▸ hlast
  · rw [ofText_eq h hlast] at hend ⊢
    rw [tail_ofParts]
    exact List.isEmpty_eq_false_iff.mp hend
  · rw [rows_ofText h hlast, ofText_eq h hlast, ofParts]

theorem toText_ofText (text : Text) (hasMark : Bool) : (ofText text hasMark).toText = text := by
  obtain ⟨ls, last, rfl, h, hlast⟩ := Text.exists_terminated_append text
  rw [toText_eq (coherent_ofText _ hasMark).not_mem, rows_ofText h hlast, ofText_eq h hlast,
    tail_ofParts]

theorem ofText_toText (h : Coherent image) : ofText image.toText image.hasMark = image := by
  have hended : (if returned image.rows then image.rows.map List.dropLast else image.rows) =
      image.ended := by
    have hend := h.lineEnd_eq
    by_cases hreturned : returned image.rows = true
    · rw [if_pos hreturned] at hend ⊢
      simp [rows, hend, returns, Function.comp_def]
    · rw [if_neg hreturned] at hend ⊢
      simp [rows, hend, returns]
  rw [toText_eq h.not_mem, ofText_eq (not_mem_rows (by decide) h.not_mem) (not_mem_tail h.not_mem),
    ← h.lineEnd_eq, hended, eq_ofParts h.tail_ne_nil]

/-! ## Marks and bytes -/

theorem toMarkedText_ofMarkedText (text : Text) : (ofMarkedText text).toMarkedText = text := by
  cases text with
  | nil => rfl
  | cons c text =>
    rw [ofMarkedText]
    split
    · rename_i hc
      rw [toMarkedText, toText_ofText, hc]
      rfl
    · rw [toMarkedText, toText_ofText]
      rfl

theorem ofMarkedText_toMarkedText (h : Coherent image)
    (hmark : image.hasMark = false → image.toText.head? ≠ some mark) :
    ofMarkedText image.toMarkedText = image := by
  rw [toMarkedText]
  cases hhas : image.hasMark with
  | true =>
    rw [if_pos rfl, ofMarkedText, if_pos rfl, ← hhas, ofText_toText h]
  | false =>
    have hplain : ofMarkedText image.toText = ofText image.toText false := by
      cases htext : image.toText with
      | nil => rfl
      | cons c text =>
        have hc : c ≠ mark := fun heq => hmark hhas (by rw [htext, heq, List.head?_cons])
        rw [ofMarkedText, if_neg hc]
    rw [if_neg Bool.false_ne_true, hplain, ← hhas, ofText_toText h]

theorem toBytes_ofBytes? {b : ByteArray} (h : ofBytes? b = some image) : image.toBytes = b := by
  obtain ⟨text, htext, rfl⟩ := Option.map_eq_some_iff.mp h
  rw [toBytes, toMarkedText_ofMarkedText, Text.toBytes_ofBytes? htext]

/-! ## Lines that a line feed alone ends -/

theorem ofMarkedText_of_not_mem (h : mark ∉ text) : ofMarkedText text = ofText text false := by
  cases text with
  | nil => rfl
  | cons c text =>
    have hc : c ≠ mark := fun heq => h (heq ▸ List.mem_cons_self)
    exact if_neg hc

/-- Lines that all end in a line feed alone are read as they are. -/
theorem ofMarkedText_terminated (hne : ls ≠ []) (hbreak : ∀ l ∈ ls, '\n' ∉ l)
    (hreturn : ∀ l ∈ ls, '\r' ∉ l) (hmark : ∀ l ∈ ls, mark ∉ l) :
    ofMarkedText (Text.terminated ls) = { lines := ls } := by
  have hplain : returned ls = false := by
    rw [Bool.eq_false_iff, Ne, returned_eq_true_iff]
    rintro ⟨-, hends⟩
    obtain ⟨l, hl⟩ := List.exists_mem_of_ne_nil ls hne
    exact hreturn l hl (List.mem_of_getLast? (hends l hl))
  rw [ofMarkedText_of_not_mem (Text.not_mem_terminated (by decide) hmark),
    ← List.append_nil (Text.terminated ls), ofText_eq hbreak List.not_mem_nil, hplain, ofParts]
  simp

/-- And written as they are. -/
theorem toBytes_mk (lines : List Text) :
    toBytes { lines } = (Text.terminated lines).toBytes := by
  rw [toBytes, toMarkedText, toText]
  cases lines with
  | nil => rfl
  | cons l rest =>
    rw [← Text.unlines_append_break (List.cons_ne_nil l rest)]
    rfl

/-! ## Other lines in the same shape -/

/-- The break of a file is lost if no line has one. -/
def settled (image : Image) : Image :=
  { image with lineEnd := if image.ended.isEmpty then .lf else image.lineEnd }

theorem rows_settled (image : Image) : image.settled.rows = image.rows := by
  cases hended : image.ended with
  | nil =>
    have hsettled : image.settled.ended = [] := hended
    rw [rows, rows, hsettled, hended]
    rfl
  | cons l ls =>
    have hend : image.settled.lineEnd = image.lineEnd := by rw [settled, hended]; rfl
    rw [rows, rows, hend]
    rfl

theorem toText_settled (h : ∀ l ∈ image.lines, '\n' ∉ l) : image.settled.toText = image.toText := by
  have hsettled : ∀ l ∈ image.settled.lines, '\n' ∉ l := h
  rw [toText_eq h, ← rows_settled]
  exact toText_eq hsettled

theorem coherent_settled (h : ∀ l ∈ image.lines, '\n' ∉ l) (hreturn : ∀ l ∈ image.lines, '\r' ∉ l)
    (htail : image.endsWithBreak = false → image.tail ≠ []) : Coherent image.settled := by
  refine ⟨h, htail, ?_⟩
  rw [rows_settled, rows, settled]
  cases hended : image.ended with
  | nil => rfl
  | cons l ls =>
    cases hend : image.lineEnd with
    | lf =>
      have hl : l.getLast? ≠ some '\r' := fun hlast =>
        hreturn l (mem_ended (hended ▸ List.mem_cons_self)) (List.mem_of_getLast? hlast)
      simp [returned, returns, hl]
    | crlf => simp [returned, returns]

/-- The text begins as the first line does, or with a break. -/
theorem head?_of_head?_toText {c : Char} (h : ∀ l ∈ image.lines, '\n' ∉ l) (hreturn : c ≠ '\r')
    (hbreak : c ≠ '\n') (hhead : image.toText.head? = some c) :
    ∃ l ∈ image.lines.head?, l.head? = some c := by
  rw [toText_eq h, rows] at hhead
  obtain ⟨lines, lineEnd, hasMark, endsWithBreak⟩ := image
  cases lines with
  | nil => cases endsWithBreak <;> cases hhead
  | cons first rest =>
    refine ⟨first, rfl, ?_⟩
    rcases ended_cons first rest lineEnd hasMark endsWithBreak with ⟨hended, htail⟩ | ⟨ls, hended⟩
    · rwa [hended, htail] at hhead
    · rw [hended, List.map_cons, Text.terminated_cons, List.append_assoc, List.append_assoc] at hhead
      cases first with
      | cons c' first => exact hhead
      | nil =>
        cases lineEnd with
        | lf => exact absurd (Option.some.inj hhead).symm hbreak
        | crlf => exact absurd (Option.some.inj hhead).symm hreturn

theorem ended_ne_nil_of_mem (h : ∀ l ∈ image.lines, '\n' ∉ l) (hmem : '\n' ∈ image.toText) :
    image.ended ≠ [] := by
  intro hended
  rw [toText_eq h, rows, hended] at hmem
  exact not_mem_tail h hmem

/-- **Round trips.** A file that is read and written again has the same bytes, whatever ends its
lines. Other lines written in its shape are read back as they are, in the same shape; only the
break is known no more if no line has one. -/
theorem ofBytes?_inverse_toBytes :
    (∀ b : ByteArray, b.IsValidUTF8 → ∃ image, ofBytes? b = some image ∧ image.toBytes = b) ∧
      ∀ (image : Image) (ls : List Text), ls ≠ [] → (∀ l ∈ ls, '\n' ∉ l ∧ '\r' ∉ l) →
        (∀ l ∈ ls.head?, l.head? ≠ some mark) →
        (image.endsWithBreak = false → ls.getLast? ≠ some []) →
        ∃ again, ofBytes? (image.withLines ls).toBytes = some again ∧ again.lines = ls ∧
          again.hasMark = image.hasMark ∧ again.endsWithBreak = image.endsWithBreak ∧
          ('\n' ∈ (image.withLines ls).toText → again.lineEnd = image.lineEnd) := by
  refine ⟨fun b hb => ?_, fun image ls hne hls hmark hlast => ?_⟩
  · obtain ⟨text, htext⟩ := Text.exists_ofBytes? hb
    have himage : ofBytes? b = some (ofMarkedText text) := by rw [ofBytes?, htext, Option.map_some]
    exact ⟨_, himage, toBytes_ofBytes? himage⟩
  · have hbreak : ∀ l ∈ (image.withLines ls).lines, '\n' ∉ l := fun l hl => (hls l hl).1
    have hcoherent : Coherent (image.withLines ls).settled := by
      refine coherent_settled hbreak (fun l hl => (hls l hl).2) fun hend => ?_
      have htail : (image.withLines ls).tail = ls.getLast hne := by
        have hend : image.endsWithBreak = false := hend
        rw [tail, withLines, hend, List.getLast?_eq_some_getLast hne]
        rfl
      rw [htail]
      exact fun hnil => hlast hend (by rw [List.getLast?_eq_some_getLast hne, hnil])
    have htext := toText_settled hbreak
    have hread : ofBytes? (image.withLines ls).toBytes = some (image.withLines ls).settled := by
      have hmarked : (image.withLines ls).toMarkedText = (image.withLines ls).settled.toMarkedText := by
        rw [toMarkedText, toMarkedText, htext]
        rfl
      rw [ofBytes?, toBytes, Text.ofBytes?_toBytes, Option.map_some, hmarked,
        ofMarkedText_toMarkedText hcoherent]
      intro _ hhead
      rw [htext] at hhead
      obtain ⟨l, hl, hfirst⟩ := head?_of_head?_toText hbreak (by decide) (by decide) hhead
      exact hmark l hl hfirst
    refine ⟨_, hread, rfl, rfl, rfl, fun hmem => ?_⟩
    have hended := ended_ne_nil_of_mem hbreak hmem
    rw [settled, if_neg (by simpa using hended)]
    rfl

/-- A marked file in which some carriage returns end no line, and two lines written in the shape of
a file that ends without a break. -/
theorem ofBytes?_inverse_toBytes_two_lines :
    (∃ image, ofBytes? (Text.toBytes [mark, 'a', '\r', '\n', '\r', 'b', '\n', '\r']) = some image ∧
        image.toBytes = Text.toBytes [mark, 'a', '\r', '\n', '\r', 'b', '\n', '\r']) ∧
      ∃ again,
        ofBytes? (withLines ⟨[['a'], ['b']], .crlf, true, false⟩ [[], ['x']]).toBytes = some again ∧
          again.lines = [[], ['x']] ∧ again.hasMark = true ∧ again.endsWithBreak = false ∧
          again.lineEnd = .crlf := by
  refine ⟨ofBytes?_inverse_toBytes.1 _ (String.isValidUTF8 _), ?_⟩
  obtain ⟨again, hread, hlines, hmark, hbreak, hend⟩ :=
    ofBytes?_inverse_toBytes.2 ⟨[['a'], ['b']], .crlf, true, false⟩ [[], ['x']] (by decide) (by decide)
      (by decide) (by decide)
  exact ⟨again, hread, hlines, hmark, hbreak, hend (by decide)⟩

end LoosePatch.Image
