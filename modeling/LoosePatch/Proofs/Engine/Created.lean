import LoosePatch.Proofs.Dialect.NewFile
import LoosePatch.Proofs.Engine.Effect

/-!
Files that are created from a diff of added lines. The file has these lines and they are counted as
added, but for one blank line at the end, which is lost (`Engine.apply_creates`).
-/

namespace LoosePatch.Engine

open Dialect (addedText dropLastEmpty newFileText)
open Text (terminated)

variable {α : Type} [Score α]

/-- A request to create a file and nothing else is granted unless the diff names another file or is
no text. -/
theorem apply_create (config : Config α) {path diff : Text} (current : Option ByteArray)
    (hnul : '\x00' ∉ diff) (hfile : Dialect.checkSingleFile diff (some path) = .ok ()) :
    (apply config { path, operation := .create, diff := some diff } current).result =
      .ok { effect := .write (newFileText diff).toBytes, added := (newFileText diff).count '\n' } := by
  show (perform config _ current).2 = _
  have hcontent : diff.contains '\x00' = false := by
    rw [Bool.eq_false_iff]
    exact mt List.contains_iff_mem.mp hnul
  have hchecks : (do
      Request.checkRename { path, operation := .create, diff := some diff }
      Request.checkContent { path, operation := .create, diff := some diff } : Outcome Unit) = .ok () := by
    show (if diff.contains '\x00' then _ else _) = _
    rw [hcontent]
    rfl
  rw [perform, hchecks]
  show create _ = _
  rw [create]
  show (Dialect.checkSingleFile diff (some path) >>= fun _ => _) = _
  rw [hfile]
  rfl

/-- A file that is created from added lines, one of which has text that does not begin with a space,
has these lines up to a blank one at the end. -/
theorem apply_creates {ls : List Text} (hbreak : ∀ l ∈ ls, '\n' ∉ l ∧ '\r' ∉ l)
    (hline : ∃ l ∈ ls, l ≠ [] ∧ l.head? ≠ some ' ') (ended : Bool) :
    newFileText (addedText ls ended) = terminated (dropLastEmpty ls) ∧
    (newFileText (addedText ls ended) = terminated ls ↔ ls.getLast? ≠ some []) ∧
    ∀ (config : Config α) (path : Text) (current : Option ByteArray), (∀ l ∈ ls, '\x00' ∉ l) →
      ∃ change, (apply config { path, operation := .create, diff := some (addedText ls ended) }
          current).result = .ok change ∧
        change.content? = some (terminated (dropLastEmpty ls)).toBytes ∧
        change.added = (dropLastEmpty ls).length := by
  have hfeed : ∀ l ∈ ls, '\n' ∉ l := fun l hl => (hbreak l hl).1
  have hreturn : ∀ l ∈ ls, '\r' ∉ l := fun l hl => (hbreak l hl).2
  have hkept : ∀ l ∈ dropLastEmpty ls, '\n' ∉ l := fun l hl =>
    hfeed l (Dialect.dropLastEmpty_subset ls hl)
  have htext := Dialect.newFileText_addedText hfeed hreturn ended hline
  have hne : ls ≠ [] := by
    obtain ⟨l, hl, -⟩ := hline
    exact List.ne_nil_of_mem hl
  refine ⟨htext, ?_, fun config path current hnul => ?_⟩
  · rw [htext, ← Dialect.dropLastEmpty_eq_self_iff]
    exact ⟨Text.terminated_injective hkept hfeed, congrArg terminated⟩
  · have hnulText : '\x00' ∉ addedText ls ended := by
      intro hmem
      rcases Dialect.mem_addedText hmem with heq | heq | ⟨l, hl, hc⟩
      · cases heq
      · cases heq
      · exact hnul l hl hc
    refine ⟨_, apply_create config current hnulText
      (Dialect.checkSingleFile_addedText hfeed hreturn ended hne (some path)), ?_, ?_⟩
    · rw [← htext]
      rfl
    · rw [← Text.count_terminated hkept, ← htext]

/-- Five lines, the first and the fourth of them blank. -/
theorem apply_creates_five :
    let ls : List Text := [[], ['a'], [' ', 'b'], [], ['c']]
    newFileText (addedText ls true) = terminated ls ∧
    ∃ change : Change Rat, (apply (Config.usual Score.decimal)
        { path := ['f'], operation := .create, diff := some (addedText ls true) } none).result =
          .ok change ∧
      change.content? = some (terminated ls).toBytes ∧ change.added = 5 := by
  intro ls
  have hbreak : ∀ l ∈ ls, '\n' ∉ l ∧ '\r' ∉ l := by decide
  have hline : ∃ l ∈ ls, l ≠ [] ∧ l.head? ≠ some ' ' := by decide
  obtain ⟨-, hwhole, hcreates⟩ := apply_creates (α := Rat) hbreak hline true
  exact ⟨hwhole.mpr (by decide),
    hcreates (Config.usual Score.decimal) ['f'] none (by decide)⟩

/-- The blank line at the end of two is lost. -/
theorem apply_creates_loses_blank :
    newFileText (addedText [['a'], []] false) = ['a', '\n'] ∧
    terminated [['a'], []] = ['a', '\n', '\n'] ∧
    ∃ change : Change Rat, (apply (Config.usual Score.decimal)
        { path := ['f'], operation := .create, diff := some (addedText [['a'], []] false) } none).result =
          .ok change ∧
      change.content? = some (Text.toBytes ['a', '\n']) ∧ change.added = 1 := by
  have htext : newFileText (addedText [['a'], []] false) = ['a', '\n'] := by decide
  refine ⟨htext, by decide, _, apply_create (Config.usual Score.decimal) none (by decide) (by decide +kernel), ?_, ?_⟩
  · rw [htext]
    rfl
  · rw [htext]
    rfl

end LoosePatch.Engine
