import LoosePatch.Proofs.Splice.Assembly
import LoosePatch.Proofs.Splice.Origins

/-!
Regions put together on a file whose lines are their own numbers: which lines are there in the end,
and in which order.
-/

namespace LoosePatch

open Splice

variable {n cursor : Nat} {rs : List (Region Origin)}

theorem drop_fileOrigins (n cursor : Nat) :
    (fileOrigins n).drop cursor = slice (fileOrigins n) cursor n := by
  have hlen : (fileOrigins n).length = n := by
    rw [fileOrigins, List.length_map, List.length_range]
  rw [slice, List.take_of_length_le (Nat.le_of_eq hlen)]

/-- If every region leaves out the removed lines of its range only, and all removed lines are in some
region, then all other lines are there. -/
theorem mem_file_assemble {removed : Nat → Prop} (h : Stacked n cursor rs)
    (hbody : ∀ r ∈ rs, ∀ line, .file line ∈ r.body ↔
      r.start ≤ line ∧ line < r.stop ∧ ¬ removed line)
    (hremoved : ∀ line, removed line → cursor ≤ line → ∃ r ∈ rs, r.start ≤ line ∧ line < r.stop)
    (line : Nat) :
    .file line ∈ assemble (fileOrigins n) cursor rs ↔ cursor ≤ line ∧ line < n ∧ ¬ removed line := by
  induction h with
  | @nil cursor hcursor =>
    rw [assemble, drop_fileOrigins, mem_slice_fileOrigins (Nat.le_refl n)]
    constructor
    · rintro ⟨line', heq, hle, hlt⟩
      cases heq
      refine ⟨hle, hlt, fun hrem => ?_⟩
      obtain ⟨r, hr, -⟩ := hremoved line hrem hle
      cases hr
    · rintro ⟨hle, hlt, -⟩
      exact ⟨line, rfl, hle, hlt⟩
  | @cons cursor r rs hstart hstop hrest ih =>
    have hin := hrest.cursor_le
    have hlater : ∀ line, removed line → r.stop ≤ line →
        ∃ r' ∈ rs, r'.start ≤ line ∧ line < r'.stop := by
      intro line hrem hle
      obtain ⟨r', hr', hbounds⟩ := hremoved line hrem (by omega)
      rcases List.mem_cons.mp hr' with rfl | hr'
      · omega
      · exact ⟨r', hr', hbounds⟩
    have hgap : ∀ line, cursor ≤ line → line < r.start → ¬ removed line := by
      intro line hle hlt hrem
      obtain ⟨r', hr', hbounds⟩ := hremoved line hrem hle
      rcases List.mem_cons.mp hr' with rfl | hr'
      · omega
      · have hbelow := (hrest.bounds hr').1
        omega
    rw [assemble, List.mem_append, List.mem_append, mem_slice_fileOrigins (by omega),
      hbody r List.mem_cons_self, ih (fun r' hr' => hbody r' (List.mem_cons_of_mem r hr')) hlater]
    constructor
    · rintro ((⟨line', heq, hle, hlt⟩ | ⟨hle, hlt, hnot⟩) | ⟨hle, hlt, hnot⟩)
      · cases heq
        exact ⟨hle, by omega, hgap line hle hlt⟩
      · exact ⟨by omega, by omega, hnot⟩
      · exact ⟨by omega, hlt, hnot⟩
    · rintro ⟨hle, hlt, hnot⟩
      by_cases hstart' : line < r.start
      · exact Or.inl (Or.inl ⟨line, rfl, hle, hstart'⟩)
      · by_cases hstop' : line < r.stop
        · exact Or.inl (Or.inr ⟨Nat.le_of_not_lt hstart', hstop', hnot⟩)
        · exact Or.inr ⟨Nat.le_of_not_lt hstop', hlt, hnot⟩

theorem mem_added_assemble (h : Stacked n cursor rs) (hunk edit : Nat) :
    .added hunk edit ∈ assemble (fileOrigins n) cursor rs ↔ ∃ r ∈ rs, .added hunk edit ∈ r.body := by
  induction h with
  | nil =>
    rw [assemble, drop_fileOrigins, mem_slice_fileOrigins (Nat.le_refl n)]
    simp
  | @cons cursor r rs hstart hstop hrest ih =>
    have hin := hrest.cursor_le
    rw [assemble, List.mem_append, List.mem_append, mem_slice_fileOrigins (by omega), ih]
    simp

theorem cursor_le_of_mem_assemble (h : Stacked n cursor rs)
    (hwithin : ∀ r ∈ rs, ∀ line, .file line ∈ r.body → r.start ≤ line ∧ line < r.stop)
    {line : Nat} (hline : .file line ∈ assemble (fileOrigins n) cursor rs) : cursor ≤ line := by
  induction h with
  | @nil cursor hcursor =>
    rw [assemble, drop_fileOrigins] at hline
    obtain ⟨line', heq, hle, -⟩ := (mem_slice_fileOrigins (Nat.le_refl n)).mp hline
    cases heq
    exact hle
  | @cons cursor r rs hstart hstop hrest ih =>
    have hin := hrest.cursor_le
    rw [assemble, List.mem_append, List.mem_append] at hline
    rcases hline with (hline | hline) | hline
    · obtain ⟨line', heq, hle, -⟩ := (mem_slice_fileOrigins (by omega)).mp hline
      cases heq
      exact hle
    · have hle := (hwithin r List.mem_cons_self line hline).1
      omega
    · have hle := ih (fun r' hr' => hwithin r' (List.mem_cons_of_mem r hr')) hline
      omega

/-- What stands in front of the lines below a region is above them, or added by the region. -/
theorem front_of_mem {r : Region Origin} {o : Origin} (hstart : r.start ≤ n)
    (hstop : r.start ≤ r.stop)
    (hwithin : ∀ line, .file line ∈ r.body → r.start ≤ line ∧ line < r.stop)
    (ho : o ∈ slice (fileOrigins n) cursor r.start ++ r.body) :
    (∃ line, o = .file line ∧ line < r.stop) ∨
      ∃ hunk edit, o = .added hunk edit ∧ .added hunk edit ∈ r.body := by
  rcases List.mem_append.mp ho with ho | ho
  · obtain ⟨line, rfl, -, hlt⟩ := (mem_slice_fileOrigins hstart).mp ho
    exact Or.inl ⟨line, rfl, by omega⟩
  · cases o with
    | file line => exact Or.inl ⟨line, rfl, (hwithin line ho).2⟩
    | added hunk edit => exact Or.inr ⟨hunk, edit, rfl, ho⟩

/-- Regions in order, with lines in order, are put together in order. -/
theorem assemble_ordered {R : Origin → Origin → Prop} (h : Stacked n cursor rs)
    (hfile : ∀ a b, a < b → R (.file a) (.file b))
    (hbody : ∀ r ∈ rs, r.body.Pairwise R)
    (hwithin : ∀ r ∈ rs, ∀ line, .file line ∈ r.body → r.start ≤ line ∧ line < r.stop)
    (habove : ∀ r ∈ rs, ∀ hunk edit, .added hunk edit ∈ r.body → ∀ line, line < r.start →
      R (.file line) (.added hunk edit))
    (hbelow : ∀ r ∈ rs, ∀ hunk edit, .added hunk edit ∈ r.body → ∀ line, r.stop ≤ line →
      R (.added hunk edit) (.file line))
    (hadded : rs.Pairwise fun r r' => ∀ hunk edit hunk' edit', .added hunk edit ∈ r.body →
      .added hunk' edit' ∈ r'.body → R (.added hunk edit) (.added hunk' edit')) :
    (assemble (fileOrigins n) cursor rs).Pairwise R := by
  have hslice {start stop : Nat} (hstop : stop ≤ n) :
      (slice (fileOrigins n) start stop).Pairwise R := by
    rw [slice_fileOrigins hstop, List.pairwise_map]
    have hsorted := List.pairwise_lt_range' (s := start) (n := stop - start)
    exact hsorted.imp fun hlt => hfile _ _ hlt
  induction h with
  | @nil cursor hcursor =>
    rw [assemble, drop_fileOrigins]
    exact hslice (Nat.le_refl n)
  | @cons cursor r rs hstart hstop hrest ih =>
    obtain ⟨hr, hrs⟩ := List.pairwise_cons.mp hadded
    have hrwithin := hwithin r List.mem_cons_self
    have hwithin' := fun r' hr' => hwithin r' (List.mem_cons_of_mem r hr')
    have htail := ih (fun r' hr' => hbody r' (List.mem_cons_of_mem r hr')) hwithin'
      (fun r' hr' => habove r' (List.mem_cons_of_mem r hr'))
      (fun r' hr' => hbelow r' (List.mem_cons_of_mem r hr')) hrs
    have hin := hrest.cursor_le
    have hfront : (slice (fileOrigins n) cursor r.start ++ r.body).Pairwise R := by
      refine List.pairwise_append.mpr ⟨hslice (by omega), hbody r List.mem_cons_self, ?_⟩
      intro o ho o' ho'
      obtain ⟨line, rfl, -, hlt⟩ := (mem_slice_fileOrigins (by omega)).mp ho
      cases o' with
      | file line' =>
        have hle := (hrwithin line' ho').1
        exact hfile line line' (by omega)
      | added hunk edit => exact habove r List.mem_cons_self hunk edit ho' line hlt
    rw [assemble]
    refine List.pairwise_append.mpr ⟨hfront, htail, fun o ho o' ho' => ?_⟩
    have hmem := front_of_mem (by omega) hstop hrwithin ho
    cases o' with
    | file line' =>
      have hle := cursor_le_of_mem_assemble hrest hwithin' ho'
      rcases hmem with ⟨line, rfl, hlt⟩ | ⟨hunk, edit, rfl, hadd⟩
      · exact hfile line line' (by omega)
      · exact hbelow r List.mem_cons_self hunk edit hadd line' hle
    | added hunk' edit' =>
      obtain ⟨r', hr', hadd'⟩ := (mem_added_assemble hrest hunk' edit').mp ho'
      rcases hmem with ⟨line, rfl, hlt⟩ | ⟨hunk, edit, rfl, hadd⟩
      · have hbounds := (hrest.bounds hr').1
        exact habove r' (List.mem_cons_of_mem r hr') hunk' edit' hadd' line (by omega)
      · exact hr r' hr' hunk edit hunk' edit' hadd hadd'

end LoosePatch
