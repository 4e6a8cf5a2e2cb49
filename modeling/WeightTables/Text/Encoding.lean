import WeightTables.IoError
import WeightTables.Weight.Bytes

/-! Text as bytes in UTF-8. -/

namespace WeightTables

def bytesOfText (s : String) : Bytes := s.toUTF8.data.toList

def textOfBytes? (bytes : Bytes) : Option String := String.fromUTF8? ⟨bytes.toArray⟩

def decodeText (bytes : Bytes) : Except IoError String :=
  match textOfBytes? bytes with
  | some text => .ok text
  | none => .error .invalidText

theorem textOfBytes?_bytesOfText (s : String) : textOfBytes? (bytesOfText s) = some s := by
  simp only [textOfBytes?, bytesOfText, String.fromUTF8?, Array.toArray_toList]
  exact dif_pos s.isValidUTF8

theorem bytesOfText_of_textOfBytes? {bytes : Bytes} {s : String}
    (h : textOfBytes? bytes = some s) : bytesOfText s = bytes := by
  simp only [textOfBytes?, String.fromUTF8?, Option.dite_none_right_eq_some,
    Option.some.injEq] at h
  obtain ⟨_, rfl⟩ := h
  rfl

theorem textOfBytes?_eq_some_iff {bytes : Bytes} {s : String} :
    textOfBytes? bytes = some s ↔ bytes = bytesOfText s :=
  ⟨fun h => (bytesOfText_of_textOfBytes? h).symm, fun h => h ▸ textOfBytes?_bytesOfText s⟩

end WeightTables
