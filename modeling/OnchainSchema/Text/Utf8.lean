/-! Text as UTF-8. -/
namespace OnchainSchema.Text

/-- The UTF-8 bytes of a text. -/
def bytes (s : String) : List UInt8 := s.toUTF8.data.toList

theorem bytes_inj {s t : String} : bytes s = bytes t ↔ s = t := by
  constructor
  · intro h
    exact String.toByteArray_inj.mp (ByteArray.ext (Array.toList_inj.mp h))
  · rintro rfl
    rfl

theorem bytes_append (s t : String) : bytes (s ++ t) = bytes s ++ bytes t := by
  rw [bytes, String.toUTF8, String.toByteArray_append, ByteArray.data_append, Array.toList_append]
  rfl

theorem toByteArray_bytes (s : String) : (bytes s).toByteArray = s.toUTF8 :=
  ByteArray.ext (List.data_toByteArray.trans (Array.toArray_toList ..))

theorem fromUTF8?_eq_some_iff {b : ByteArray} {s : String} :
    String.fromUTF8? b = some s ↔ b = s.toUTF8 := by
  rw [String.fromUTF8?]
  constructor
  · intro h
    split at h
    next hvalid => exact congrArg String.toUTF8 (Option.some.inj h)
    next => cases h
  · rintro rfl
    exact dif_pos s.isValidUTF8

end OnchainSchema.Text
