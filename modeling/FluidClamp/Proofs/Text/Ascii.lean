/-
  FluidClamp.Proofs.Text.Ascii
  ────────────────────────────
  **CHARACTERS READ OFF THE BYTES.**

  A text is kept as its bytes, and taking its characters one after the other decodes
  them again.  Where every byte is a character of its own, the characters are the
  bytes (`charsOf_eq_toList`).  Conditions on the fixed texts of the table are decided
  on these, which is much faster than on the decoded ones.
-/
import FluidClamp.Text.Bytes

namespace FluidClamp

namespace Bytes

/-- One character for each byte. -/
def chars (bytes : Bytes) : List Char := bytes.map fun byte => Char.ofNat byte.toNat

theorem ofText_ofList (text : List Char) :
    ofText (String.ofList text) = text.flatMap String.utf8EncodeChar := by
  show (String.ofList text).toByteArray.data.toList = _
  rw [String.toByteArray_ofList, List.utf8Encode, List.toList_data_toByteArray]

theorem not_ofNat_lt {n : Nat} (hlow : 128 ≤ n) (hhigh : n < 256) : ¬ UInt8.ofNat n < 128 := by
  rw [UInt8.lt_iff_toNat_lt, UInt8.toNat_ofNat', Nat.mod_eq_of_lt hhigh]
  exact Nat.not_lt.2 hlow

/-- A character with a small first byte is that byte. -/
theorem chars_utf8EncodeChar {c : Char} (h : ∀ byte ∈ String.utf8EncodeChar c, byte < 128) :
    chars (String.utf8EncodeChar c) = [c] := by
  unfold String.utf8EncodeChar at h ⊢
  dsimp only at h ⊢
  by_cases hone : c.val.toNat ≤ 127
  · rw [if_pos hone]
    show [Char.ofNat (UInt8.ofNat c.toNat).toNat] = [c]
    have hsmall : c.toNat < 256 := Nat.lt_of_le_of_lt hone (by decide)
    rw [UInt8.toNat_ofNat', Nat.mod_eq_of_lt hsmall, Char.ofNat_toNat]
  · -- the first of several bytes is large
    rw [if_neg hone] at h
    split at h
    · exact absurd (h _ List.mem_cons_self) (not_ofNat_lt (by omega) (by omega))
    · split at h
      · exact absurd (h _ List.mem_cons_self) (not_ofNat_lt (by omega) (by omega))
      · exact absurd (h _ List.mem_cons_self) (not_ofNat_lt (by omega) (by omega))

/-- **The characters of small bytes** are the bytes. -/
theorem chars_flatMap {text : List Char}
    (h : ∀ byte ∈ text.flatMap String.utf8EncodeChar, byte < 128) :
    chars (text.flatMap String.utf8EncodeChar) = text := by
  induction text with
  | nil => rfl
  | cons c text ih =>
    rw [List.flatMap_cons] at h ⊢
    have hone := chars_utf8EncodeChar fun byte hb => h byte (List.mem_append_left _ hb)
    have hmore := ih fun byte hb => h byte (List.mem_append_right _ hb)
    unfold chars at hone hmore ⊢
    rw [List.map_append, hone, hmore, List.singleton_append]

end Bytes

/-- **The characters of a text**, read off its bytes where these are small. -/
def charsOf (text : String) : List Char :=
  if (Bytes.ofText text).all (· < 128) then Bytes.chars (Bytes.ofText text) else text.toList

theorem charsOf_eq_toList (text : String) : charsOf text = text.toList := by
  unfold charsOf
  split
  · next hsmall =>
    have hbytes := Bytes.ofText_ofList text.toList
    rw [String.ofList_toList] at hbytes
    rw [hbytes] at hsmall ⊢
    apply Bytes.chars_flatMap
    intro byte hbyte
    exact of_decide_eq_true (List.all_eq_true.1 hsmall byte hbyte)
  · rfl

end FluidClamp
