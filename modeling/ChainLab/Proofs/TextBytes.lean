/-!
# Text and its bytes

The UTF-8 bytes of a text determine it, and a text made of characters has their bytes one after the
other.
-/

namespace ChainLab

theorem reverse_append_drop_eq_loop (bytes : ByteArray) (i : Nat) (read : List UInt8) :
    read.reverse ++ bytes.data.toList.drop i = ByteArray.toList.loop bytes i read := by
  fun_induction ByteArray.toList.loop bytes i read with
  | case1 i read inside ih =>
    have next : bytes.data.toList.drop i = bytes.get! i :: bytes.data.toList.drop (i + 1) := by
      rw [List.drop_eq_getElem_cons (show i < bytes.data.toList.length from inside)]
      simp [ByteArray.get!, getElem!_pos bytes.data i inside]
    rw [← ih, next]
    simp
  | case2 i read outside =>
    have done : bytes.data.toList.length ≤ i := Nat.le_of_not_lt outside
    simp [List.drop_eq_nil_of_le done]

theorem toList_eq_toList_data (bytes : ByteArray) : bytes.toList = bytes.data.toList := by
  have loop := reverse_append_drop_eq_loop bytes 0 []
  rw [ByteArray.toList, ← loop, List.reverse_nil, List.nil_append, List.drop_zero]

theorem toList_toUTF8_inj {a b : String} (h : a.toUTF8.toList = b.toUTF8.toList) : a = b := by
  rw [toList_eq_toList_data, toList_eq_toList_data, Array.toList_inj] at h
  exact String.toByteArray_inj.mp (ByteArray.ext h)

theorem length_toList_toUTF8 (text : String) :
    text.toUTF8.toList.length = text.utf8ByteSize := by
  rw [toList_eq_toList_data]
  exact Array.length_toList

theorem fromUTF8?_toByteArray_toList (text : String) :
    String.fromUTF8? text.toUTF8.toList.toByteArray = some text := by
  have bytes : text.toUTF8.toList.toByteArray = text.toByteArray := by
    rw [toList_eq_toList_data]
    exact ByteArray.ext (List.data_toByteArray.trans Array.toArray_toList)
  rw [bytes, String.fromUTF8?, dif_pos text.isValidUTF8]
  rfl

theorem toList_toUTF8_ofList (cs : List Char) :
    (String.ofList cs).toUTF8.toList = cs.flatMap String.utf8EncodeChar := by
  rw [toList_eq_toList_data, String.toUTF8_eq_toByteArray, String.toByteArray_ofList,
    List.utf8Encode, List.toList_data_toByteArray]

end ChainLab
