import LoosePatch.Text.Basic
import Mathlib.Data.List.Basic

/-!
Texts and their bytes. Encoding and decoding undo each other (`ofBytes?_toBytes`,
`toBytes_ofBytes?`), and a zero byte stands for the zero character only (`zero_mem_toBytes`).
-/

namespace LoosePatch.Text

theorem ofBytes?_toBytes (s : Text) : ofBytes? s.toBytes = some s := by
  have hvalid : (toBytes s).IsValidUTF8 := (String.ofList s).isValidUTF8
  have hstring : String.fromUTF8? s.toBytes = some (String.ofList s) := by
    unfold String.fromUTF8?
    rw [dif_pos hvalid]
    rfl
  rw [ofBytes?, hstring, Option.map_some, String.toList_ofList]

theorem toBytes_ofBytes? {b : ByteArray} {s : Text} (h : ofBytes? b = some s) : s.toBytes = b := by
  obtain ⟨string, hstring, rfl⟩ := Option.map_eq_some_iff.mp h
  rw [toBytes, String.ofList_toList]
  unfold String.fromUTF8? at hstring
  split at hstring
  · cases hstring
    rfl
  · cases hstring

theorem exists_ofBytes? {b : ByteArray} (h : b.IsValidUTF8) : ∃ s, ofBytes? b = some s := by
  rw [ofBytes?, String.fromUTF8?, dif_pos h]
  exact ⟨_, rfl⟩

theorem toBytes_injective {s t : Text} (h : s.toBytes = t.toBytes) : s = t := by
  have hsame := ofBytes?_toBytes s
  rw [h, ofBytes?_toBytes t] at hsame
  exact (Option.some.inj hsame).symm

/-! ## Zero bytes -/

theorem toList_loop (b : ByteArray) (i : Nat) (done : List UInt8) :
    ByteArray.toList.loop b i done = done.reverse ++ b.data.toList.drop i := by
  induction hleft : b.size - i generalizing i done with
  | zero =>
    have hend : b.data.toList.length ≤ i := by
      rw [Array.length_toList]
      exact Nat.le_of_sub_eq_zero hleft
    rw [ByteArray.toList.loop, if_neg (by omega), List.drop_eq_nil_of_le hend, List.append_nil]
  | succ n ih =>
    have hi : i < b.data.size := Nat.lt_of_sub_eq_succ hleft
    have hlt : i < b.data.toList.length := hi
    have hget : b.get! i = b.data.toList[i] := by
      rw [ByteArray.get!, getElem!_pos b.data i hi, Array.getElem_toList]
    rw [ByteArray.toList.loop, if_pos (by omega), ih (i + 1) _ (by omega), List.reverse_cons,
      List.append_assoc, List.singleton_append, hget, ← List.drop_eq_getElem_cons]

theorem toList_toBytes (s : Text) : s.toBytes.toList = s.flatMap String.utf8EncodeChar := by
  rw [ByteArray.toList, toList_loop, List.reverse_nil, List.nil_append, List.drop_zero, toBytes,
    String.toUTF8_eq_toByteArray, String.toByteArray_ofList, List.utf8Encode,
    List.toList_data_toByteArray]

theorem zero_ne_ofNat {n : Nat} (h : n % 256 ≠ 0) : (0 : UInt8) ≠ UInt8.ofNat n := by
  intro heq
  have hzero : (0 : UInt8).toNat = (UInt8.ofNat n).toNat := congrArg UInt8.toNat heq
  rw [UInt8.toNat_ofNat', UInt8.toNat_zero] at hzero
  exact h hzero.symm

/-- Every byte of an encoding of several bytes has its highest bit set. -/
theorem eq_of_zero_mem_encodeChar {c : Char} (h : 0 ∈ String.utf8EncodeChar c) : c = '\x00' := by
  by_contra hne
  have hv : c.val.toNat ≠ 0 := fun hzero => hne (Char.ext (UInt32.toNat_inj.mp hzero))
  unfold String.utf8EncodeChar at h
  extract_lets v at h
  split at h
  · exact absurd (List.mem_singleton.mp h) (zero_ne_ofNat (by omega))
  · split at h
    · rcases List.mem_pair.mp h with h | h <;> exact absurd h (zero_ne_ofNat (by omega))
    · split at h <;> simp only [List.mem_cons, List.not_mem_nil, or_false] at h
      · rcases h with h | h | h <;> exact absurd h (zero_ne_ofNat (by omega))
      · rcases h with h | h | h | h <;> exact absurd h (zero_ne_ofNat (by omega))

theorem zero_mem_toBytes {s : Text} (h : 0 ∈ s.toBytes.toList) : '\x00' ∈ s := by
  rw [toList_toBytes] at h
  obtain ⟨c, hc, hzero⟩ := List.mem_flatMap.mp h
  exact eq_of_zero_mem_encodeChar hzero ▸ hc

end LoosePatch.Text
