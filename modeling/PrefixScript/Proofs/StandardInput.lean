import PrefixScript.CommandLine
import PrefixScript.Proofs.Comments

namespace PrefixScript

namespace Text

def utf8 (s : String) : List UInt8 :=
  s.toUTF8.data.toList

theorem utf8_eq (s : String) : utf8 s = s.toList.flatMap String.utf8EncodeChar := by
  rw [utf8, String.toUTF8_eq_toByteArray, ← String.utf8Encode_toList, List.utf8Encode,
    List.data_toByteArray]

theorem utf8_append (s t : String) : utf8 (s ++ t) = utf8 s ++ utf8 t := by
  rw [utf8_eq, utf8_eq, utf8_eq, String.toList_append, List.flatMap_append]

theorem fromUTF8?_toUTF8 (s : String) : String.fromUTF8? s.toUTF8 = some s := by
  unfold String.fromUTF8?
  rw [String.toUTF8_eq_toByteArray, dif_pos s.isValidUTF8]
  rfl

theorem toNat_of_mem_utf8EncodeChar {c : Char} {b : UInt8} (h : b ∈ String.utf8EncodeChar c)
    (hb : b.toNat < 128) : c.toNat = b.toNat := by
  have hc : c.toNat = c.val.toNat := rfl
  simp only [String.utf8EncodeChar] at h
  split at h
  · rw [List.mem_singleton] at h
    rw [h, UInt8.toNat_ofNat']
    omega
  -- every byte of a longer sequence has its highest bit set
  · exfalso
    split at h
    · simp only [List.mem_cons, List.not_mem_nil, or_false] at h
      rcases h with rfl | rfl <;> simp at hb <;> omega
    · split at h <;> simp only [List.mem_cons, List.not_mem_nil, or_false] at h
      · rcases h with rfl | rfl | rfl <;> simp at hb <;> omega
      · rcases h with rfl | rfl | rfl | rfl <;> simp at hb <;> omega

theorem mem_of_mem_utf8 {s : String} {b : UInt8} (h : b ∈ utf8 s) {c : Char}
    (hc : c.toNat = b.toNat) (hb : b.toNat < 128) : c ∈ s.toList := by
  rw [utf8_eq] at h
  obtain ⟨d, hd, hmem⟩ := List.mem_flatMap.1 h
  have hsame : d = c := Char.toNat_inj.1 ((toNat_of_mem_utf8EncodeChar hmem hb).trans hc.symm)
  exact hsame ▸ hd

theorem getLast?_of_getLast?_utf8 {s : String} {b : UInt8} (h : (utf8 s).getLast? = some b)
    {c : Char} (hc : c.toNat = b.toNat) (hb : b.toNat < 128) : s.toList.getLast? = some c := by
  rw [utf8_eq] at h
  rcases List.eq_nil_or_concat s.toList with hnil | ⟨cs, d, hcs⟩
  · rw [hnil] at h
    contradiction
  · rw [hcs, List.concat_eq_append, List.flatMap_append, List.flatMap_singleton,
      List.getLast?_append, List.getLast?_eq_some_getLast String.utf8EncodeChar_ne_nil,
      Option.some_or] at h
    have hmem := Option.some.inj h ▸ List.getLast_mem String.utf8EncodeChar_ne_nil
    have hsame : d = c := Char.toNat_inj.1 ((toNat_of_mem_utf8EncodeChar hmem hb).trans hc.symm)
    rw [hcs, hsame, List.concat_eq_append, List.getLast?_concat]

end Text

namespace CommandLine

/-- Whether a text can be a line of the standard input that is handed on as it is. -/
structure IsLine (s : String) : Prop where
  newline : '\n' ∉ s.toList
  ending : s.toList.getLast? ≠ some '\r'

def typed (lines : List String) : List UInt8 :=
  lines.flatMap fun s => Text.utf8 (s ++ "\n")

theorem typed_cons (s : String) (lines : List String) :
    typed (s :: lines) = Text.utf8 s ++ 10 :: typed lines := by
  rw [typed, List.flatMap_cons, Text.utf8_append, List.append_assoc]
  rfl

theorem IsLine.newline_notMem {s : String} (h : IsLine s) : 10 ∉ Text.utf8 s :=
  fun hmem => h.newline (Text.mem_of_mem_utf8 hmem rfl (by decide))

theorem IsLine.response_eq {s : String} (h : IsLine s) :
    response (dropReturn (Text.utf8 s)) = .text s := by
  have hlast : (Text.utf8 s).getLast? ≠ some 13 :=
    fun hlast => h.ending (Text.getLast?_of_getLast?_utf8 hlast rfl (by decide))
  rw [dropReturn, if_neg hlast, response, Text.utf8, Array.toArray_toList, Text.fromUTF8?_toUTF8]

theorem cutAt_typed {lines : List String} (h : ∀ s ∈ lines, IsLine s) :
    Text.cutAt 10 (typed lines) = lines.map Text.utf8 ++ [[]] := by
  induction lines with
  | nil => rfl
  | cons s lines ih =>
    rw [List.forall_mem_cons] at h
    rw [typed_cons, Text.cutAt_append, Text.cutAt_of_notMem h.1.newline_notMem, ih h.2,
      List.map_cons]
    rfl

theorem responses_typed {lines : List String} (h : ∀ s ∈ lines, IsLine s) :
    responses (typed lines) = lines.map .text := by
  have hresponse : ∀ s ∈ lines, response (dropReturn (Text.utf8 s)) = .text s :=
    fun s hs => (h s hs).response_eq
  rw [responses, cutAt_typed h, List.getLast?_concat, List.dropLast_concat, List.map_map,
    Option.getD_some, if_pos rfl, List.append_nil]
  exact List.map_congr_left hresponse

end CommandLine

end PrefixScript
