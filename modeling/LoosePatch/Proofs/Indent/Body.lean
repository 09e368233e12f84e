import LoosePatch.Indent.Reconcile
import Mathlib.Data.List.TakeWhile

/-!
What fitting added lines to their surroundings leaves alone: everything behind the spaces and tabs
in front of a line.
-/

namespace LoosePatch.Indent

/-! ## One line -/

theorem isIndent_of_mem_lead {c : Char} {line : Text} (h : c ∈ lead line) : isIndent c = true :=
  List.mem_takeWhile_imp h

/-- Indentation in front of a line is no part of its body. -/
theorem body_append {indent : Text} (h : ∀ c ∈ indent, isIndent c = true) (line : Text) :
    body (indent ++ line) = body line :=
  List.dropWhile_append_of_pos h

theorem body_body (line : Text) : body (body line) = body line := by
  have hlead : ∀ c ∈ lead line, isIndent c = true := fun c hc => isIndent_of_mem_lead hc
  calc body (body line) = body (lead line ++ body line) := (body_append hlead _).symm
    _ = body line := congrArg body (lead_append_body line)

theorem isIndent_char (style : IndentStyle) : isIndent style.char = true := by
  cases style with
  | spaces => rfl
  | tabs => rfl

theorem isIndent_of_mem_replicate {c d : Char} {n : Nat} (hd : isIndent d = true)
    (h : c ∈ List.replicate n d) : isIndent c = true := by
  rw [List.eq_of_mem_replicate h]
  exact hd

theorem body_shift (line : Text) (delta : Int) (style : IndentStyle) :
    body (shift line delta style) = body line := by
  unfold shift
  split
  · rfl
  · cases delta with
    | ofNat n => exact body_append (fun c hc => isIndent_of_mem_replicate (isIndent_char style) hc) line
    | negSucc n =>
      have hlead : ∀ c ∈ (lead line).drop (n + 1), isIndent c = true := fun c hc =>
        isIndent_of_mem_lead (List.mem_of_mem_drop hc)
      exact (body_append hlead _).trans (body_body line)

theorem body_convert (line : Text) (style : IndentStyle) (unit : Nat) :
    body (convert line style unit) = body line := by
  cases style with
  | spaces =>
    refine (body_append (fun c hc => ?_) _).trans (body_body line)
    obtain ⟨d, hd, hc⟩ := List.mem_flatMap.mp hc
    split at hc
    · exact isIndent_of_mem_replicate rfl hc
    · rw [List.mem_singleton.mp hc]
      exact isIndent_of_mem_lead hd
  | tabs =>
    refine (body_append (fun c hc => isIndent_of_mem_replicate rfl hc) _).trans ?_
    exact (body_append (fun c hc => isIndent_of_mem_replicate rfl hc) _).trans (body_body line)

theorem body_settle (target : Option IndentStyle) (unit tabUnit : Nat) (line : Text) :
    body (settle target unit tabUnit line) = body line := by
  unfold settle
  split
  · split
    · exact body_convert line .spaces unit
    · rfl
  · split
    · exact body_convert line .tabs tabUnit
    · rfl
  · rfl

/-! ## All added lines -/

theorem map_body_reindent (pairs : List Pair) (added : List Text) (file : Profile) :
    (reindent pairs added file).map body = added.map body := by
  unfold reindent
  extract_lets actual target agreed written converts style unit pairs' added' delta
  have hconverted : added'.map body = added.map body := by
    simp only [added']
    split
    · rw [List.map_map]
      simp only [Function.comp_def, body_convert]
    · rfl
  rw [← hconverted, List.map_map]
  simp only [Function.comp_def, body_settle, body_shift]

/-- Added lines go into the file with nothing changed but what is in front of them. -/
theorem map_body_reconcile (pairs : List Pair) (added : List Text) (file : Profile) :
    (reconcile pairs added file).map body = added.map body := by
  unfold reconcile
  extract_lets
  split
  · rfl
  · exact map_body_reindent pairs added file

end LoosePatch.Indent
