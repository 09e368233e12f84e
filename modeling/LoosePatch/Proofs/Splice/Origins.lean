import LoosePatch.Proofs.Hunk.Numbered
import LoosePatch.Proofs.Outcome
import LoosePatch.Splice.Render
import Mathlib.Data.List.Basic
import Mathlib.Data.List.Forall2

/-!
Where the lines of a result come from. Emission only moves lines (`emit_forall₂`), so that it can be
watched on a file whose lines are their own numbers: then every line written is its own origin.
-/

namespace LoosePatch

/-- Where a line of the result comes from: a line of the file, or an added line of a hunk. Lines,
hunks and edits are counted from 0. -/
inductive Origin where
  | file (line : Nat)
  | added (hunk edit : Nat)
  deriving DecidableEq, Repr

/-- The order of lines in a result, where `lineAt? h i` is the file line that edit `i` of hunk `h`
matched: file lines and the added lines of a hunk keep their order, and an added line stands between
the lines that the edits before it and after it matched. -/
def Origin.Precedes (lineAt? : Nat → Nat → Option Nat) : Origin → Origin → Prop
  | .file a, .file b => a < b
  | .added h i, .added h' j => h = h' → i < j
  | .file line, .added h j => ∀ i, lineAt? h i = some line → i < j
  | .added h j, .file line => ∀ i, lineAt? h i = some line → j < i

namespace Splice

/-! ## Only moving lines -/

variable {β γ : Type} {R : β → γ → Prop} {lines : List β} {lines' : List γ}

theorem slice_forall₂ (hlines : List.Forall₂ R lines lines') (start stop : Nat) :
    List.Forall₂ R (slice lines start stop) (slice lines' start stop) :=
  List.forall₂_drop start (List.forall₂_take stop hlines)

theorem fetch_forall₂ (hlines : List.Forall₂ R lines lines') {line : Nat} {x : β}
    (h : fetch lines line = .ok x) : ∃ y, fetch lines' line = .ok y ∧ R x y := by
  obtain ⟨hlt, hx⟩ := List.getElem?_eq_some_iff.mp (fetch_eq_ok.mp h)
  have hlt' : line < lines'.length := hlines.length_eq ▸ hlt
  refine ⟨lines'[line], fetch_eq_ok.mpr (List.getElem?_eq_getElem hlt'), ?_⟩
  rw [← hx]
  exact hlines.get hlt hlt'

/-- On lines that correspond one by one, the lines written correspond one by one. -/
theorem emit_forall₂ (hlines : List.Forall₂ R lines lines') {lineOf? : Nat → Option Nat}
    {cursor stop : Nat} {added out : List β} {added' : List γ} {edits : List (Edit × Nat)}
    (hadded : List.Forall₂ R added added')
    (h : emit lines lineOf? cursor added edits = .ok (out, stop)) :
    ∃ out', emit lines' lineOf? cursor added' edits = .ok (out', stop) ∧ List.Forall₂ R out out' := by
  induction edits generalizing cursor added added' out with
  | nil =>
    cases Except.ok.inj h
    exact ⟨[], rfl, .nil⟩
  | cons x edits ih =>
    obtain ⟨e, i⟩ := x
    cases hkind : e.kind with
    | add =>
      simp only [emit, hkind] at h ⊢
      cases hadded with
      | nil => cases h
      | cons hhead htail =>
        obtain ⟨⟨rest, stop'⟩, hrest, hout⟩ := bind_eq_ok.mp h
        cases Except.ok.inj hout
        obtain ⟨rest', hrest', hrel⟩ := ih htail hrest
        exact ⟨_, bind_eq_ok.mpr ⟨_, hrest', rfl⟩, .cons hhead hrel⟩
    | ellipsis =>
      simp only [emit, hkind] at h ⊢
      obtain ⟨⟨rest, stop'⟩, hrest, hout⟩ := bind_eq_ok.mp h
      cases Except.ok.inj hout
      obtain ⟨rest', hrest', hrel⟩ := ih hadded hrest
      exact ⟨_, bind_eq_ok.mpr ⟨_, hrest', rfl⟩, List.rel_append (slice_forall₂ hlines _ _) hrel⟩
    | keep =>
      simp only [emit, hkind] at h ⊢
      cases hline : lineOf? i with
      | none =>
        simp only [hline] at h ⊢
        exact ih hadded h
      | some line =>
        simp only [hline] at h ⊢
        split at h
        · rename_i hlt
          rw [if_pos hlt]
          exact ih hadded h
        · rename_i hlt
          rw [if_neg hlt]
          obtain ⟨kept, hkept, h⟩ := bind_eq_ok.mp h
          obtain ⟨⟨rest, stop'⟩, hrest, hout⟩ := bind_eq_ok.mp h
          cases Except.ok.inj hout
          obtain ⟨kept', hkept', hrelKept⟩ := fetch_forall₂ hlines hkept
          obtain ⟨rest', hrest', hrel⟩ := ih hadded hrest
          exact ⟨_, bind_eq_ok.mpr ⟨_, hkept', bind_eq_ok.mpr ⟨_, hrest', rfl⟩⟩,
            List.rel_append (slice_forall₂ hlines _ _) (.cons hrelKept hrel)⟩
    | remove =>
      simp only [emit, hkind] at h ⊢
      cases hline : lineOf? i with
      | none =>
        simp only [hline] at h ⊢
        exact ih hadded h
      | some line =>
        simp only [hline] at h ⊢
        split at h
        · rename_i hlt
          rw [if_pos hlt]
          exact ih hadded h
        · rename_i hlt
          rw [if_neg hlt]
          obtain ⟨⟨rest, stop'⟩, hrest, hout⟩ := bind_eq_ok.mp h
          cases Except.ok.inj hout
          obtain ⟨rest', hrest', hrel⟩ := ih hadded hrest
          exact ⟨_, bind_eq_ok.mpr ⟨_, hrest', rfl⟩,
            List.rel_append (slice_forall₂ hlines _ _) hrel⟩

/-! ## Lines that are their own numbers -/

/-- A file of `n` lines, each line being its place. -/
def fileOrigins (n : Nat) : List Origin := (List.range n).map Origin.file

/-- The added lines among numbered edits of hunk `h`, each line being its edit. -/
def addedOrigins (h : Nat) (edits : List (Edit × Nat)) : List Origin :=
  (edits.filter fun x => x.1.isAdd).map fun x => Origin.added h x.2

theorem slice_fileOrigins {n start stop : Nat} (hstop : stop ≤ n) :
    slice (fileOrigins n) start stop = (List.range' start (stop - start)).map Origin.file := by
  rw [slice, fileOrigins, ← List.map_take, ← List.map_drop, List.take_range, Nat.min_eq_left hstop,
    List.range_eq_range', List.drop_range', Nat.mul_one, Nat.zero_add]

theorem mem_slice_fileOrigins {n start stop : Nat} (hstop : stop ≤ n) {o : Origin} :
    o ∈ slice (fileOrigins n) start stop ↔ ∃ line, o = .file line ∧ start ≤ line ∧ line < stop := by
  rw [slice_fileOrigins hstop, List.mem_map]
  constructor
  · rintro ⟨line, hline, rfl⟩
    rw [List.mem_range'_1] at hline
    exact ⟨line, rfl, by omega⟩
  · rintro ⟨line, rfl, hline⟩
    exact ⟨line, List.mem_range'_1.mpr (by omega), rfl⟩

theorem slice_fileOrigins_ordered {n start stop : Nat} (hstop : stop ≤ n)
    (lineAt? : Nat → Nat → Option Nat) :
    (slice (fileOrigins n) start stop).Pairwise (Origin.Precedes lineAt?) := by
  rw [slice_fileOrigins hstop, List.pairwise_map]
  exact List.pairwise_lt_range'

theorem fetch_fileOrigins {n line : Nat} (h : line < n) :
    fetch (fileOrigins n) line = .ok (.file line) := by
  rw [fetch_eq_ok, fileOrigins, List.getElem?_map, List.getElem?_range h]
  rfl

section AddedOrigins

variable {h : Nat} {x : Edit × Nat} {edits : List (Edit × Nat)}

theorem addedOrigins_cons_of_add (hadd : x.1.isAdd = true) :
    addedOrigins h (x :: edits) = .added h x.2 :: addedOrigins h edits :=
  congrArg (List.map fun (y : Edit × Nat) => Origin.added h y.2) (numberedWhere_cons_pos hadd)

theorem addedOrigins_cons_of_not_add (hadd : x.1.isAdd = false) :
    addedOrigins h (x :: edits) = addedOrigins h edits :=
  congrArg (List.map fun (y : Edit × Nat) => Origin.added h y.2) (numberedWhere_cons_neg hadd)

theorem mem_addedOrigins {h' i : Nat} :
    .added h' i ∈ addedOrigins h edits ↔ h' = h ∧ ∃ e, (e, i) ∈ edits ∧ e.isAdd = true := by
  rw [addedOrigins, List.mem_map]
  constructor
  · rintro ⟨⟨e, j⟩, hmem, heq⟩
    obtain ⟨hmem, hadd⟩ := mem_numberedWhere.mp hmem
    cases heq
    exact ⟨rfl, e, hmem, hadd⟩
  · rintro ⟨rfl, e, hmem, hadd⟩
    exact ⟨(e, i), mem_numberedWhere.mpr ⟨hmem, hadd⟩, rfl⟩

theorem addedOrigins_ordered (hsorted : edits.Pairwise fun x y => x.2 < y.2)
    (lineAt? : Nat → Nat → Option Nat) :
    (addedOrigins h edits).Pairwise (Origin.Precedes lineAt?) :=
  List.pairwise_map.mpr ((hsorted.filter _).imp fun hlt _ => hlt)

end AddedOrigins

end Splice
end LoosePatch
