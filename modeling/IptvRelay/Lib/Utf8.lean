import Mathlib.Data.List.Basic

/-!
# Bytes of texts

The encoding of a list of characters in UTF-8. A byte below 128 stands for the character with
its number and is no part of another one.
-/

namespace Utf8

/-- The bytes of a text. -/
def encode (text : List Char) : List UInt8 := text.flatMap String.utf8EncodeChar

@[simp] theorem encode_cons (c : Char) (text : List Char) :
    encode (c :: text) = String.utf8EncodeChar c ++ encode text := List.flatMap_cons

@[simp] theorem encode_append (first second : List Char) :
    encode (first ++ second) = encode first ++ encode second := List.flatMap_append

/-- The bytes of a text are read back as the text. -/
theorem fromUTF8_encode (text : List Char) :
    String.fromUTF8? ⟨(encode text).toArray⟩ = some (String.ofList text) := by
  have hbytes : (⟨(encode text).toArray⟩ : ByteArray) = (String.ofList text).toByteArray := by
    rw [String.toByteArray_ofList]
    exact ByteArray.ext List.data_toByteArray.symm
  have hvalid : ByteArray.IsValidUTF8 ⟨(encode text).toArray⟩ :=
    hbytes ▸ (String.ofList text).isValidUTF8
  rw [String.fromUTF8?, dif_pos hvalid]
  exact congrArg some (String.toByteArray_inj.mp hbytes)

theorem toList_loop (bytes : ByteArray) (i : Nat) (read : List UInt8) :
    ByteArray.toList.loop bytes i read = read.reverse ++ bytes.data.toList.drop i := by
  induction i, read using ByteArray.toList.loop.induct bytes with
  | case1 i read hlt ih =>
    have hlength : i < bytes.data.toList.length := hlt
    have hget : bytes.get! i = bytes.data.toList[i] := getElem!_pos bytes.data i hlt
    rw [ByteArray.toList.loop, if_pos hlt, ih, hget, List.reverse_cons, List.append_assoc,
      List.singleton_append, List.getElem_cons_drop]
  | case2 i read hge =>
    have hdrop : bytes.data.toList.drop i = [] := List.drop_of_length_le (Nat.le_of_not_lt hge)
    rw [ByteArray.toList.loop, if_neg hge, hdrop, List.append_nil]

/-- The bytes of a string are the encoding of its characters. -/
theorem toList_toUTF8 (text : String) : text.toUTF8.toList = encode text.toList := by
  have hbytes : text.toByteArray = (encode text.toList).toByteArray := by
    conv_lhs => rw [← @String.ofList_toList text, String.toByteArray_ofList]
    rfl
  rw [String.toUTF8_eq_toByteArray, hbytes, ByteArray.toList, toList_loop, List.data_toByteArray]
  simp

/-- The bytes of a character that is no ASCII character have the highest bit. -/
theorem eq_of_mem_encodeChar {c : Char} {byte : UInt8} (hmem : byte ∈ String.utf8EncodeChar c)
    (hascii : byte.toNat < 128) : byte.toNat = c.toNat := by
  unfold String.utf8EncodeChar at hmem
  change byte.toNat = c.val.toNat
  simp only at hmem
  split_ifs at hmem with hone htwo hthree
  · rw [List.mem_singleton.mp hmem, UInt8.toNat_ofNat']
    omega
  all_goals
    simp only [List.mem_cons, List.not_mem_nil, or_false] at hmem
    rcases hmem with rfl | rfl | rfl | rfl <;> rw [UInt8.toNat_ofNat'] at hascii <;> omega

/-- An ASCII character stands in a text if its byte stands among the bytes. -/
theorem mem_of_mem_encode {text : List Char} {byte : UInt8} (hmem : byte ∈ encode text)
    (hascii : byte.toNat < 128) : Char.ofNat byte.toNat ∈ text := by
  obtain ⟨c, hc, hbyte⟩ := List.mem_flatMap.mp hmem
  rw [eq_of_mem_encodeChar hbyte hascii, Char.ofNat_toNat]
  exact hc

end Utf8
