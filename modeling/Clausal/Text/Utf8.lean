/-!
# UTF-8

Files and process output are bytes; a line of them is text if it is valid UTF-8.
-/

namespace Clausal

/-- The content of a file or a pipe. -/
abbrev Bytes := List UInt8

/-- The UTF-8 form of a text. -/
def utf8Encode (cs : List Char) : Bytes := cs.flatMap String.utf8EncodeChar

/-- The length of a text in bytes. -/
def byteCount (cs : List Char) : Nat := (utf8Encode cs).length

/-- The text with the given UTF-8 form, if there is one. -/
def utf8Decode (bs : Bytes) : Option (List Char) :=
  bs.toByteArray.utf8Decode?.map Array.toList

@[simp] theorem utf8Encode_nil : utf8Encode [] = [] := rfl

@[simp] theorem utf8Encode_append (cs ds : List Char) :
    utf8Encode (cs ++ ds) = utf8Encode cs ++ utf8Encode ds := List.flatMap_append

theorem utf8Decode_utf8Encode (cs : List Char) : utf8Decode (utf8Encode cs) = some cs := by
  have h : (utf8Encode cs).toByteArray = cs.utf8Encode := rfl
  rw [utf8Decode, h, List.utf8Decode?_utf8Encode]
  rfl

/-- Bytes have one text at most. -/
theorem utf8Decode_eq_some_iff {bs : Bytes} {cs : List Char} :
    utf8Decode bs = some cs ↔ utf8Encode cs = bs := by
  constructor
  · intro h
    obtain ⟨arr, harr, rfl⟩ := Option.map_eq_some_iff.mp h
    have hsome : bs.toByteArray.utf8Decode?.isSome = true := by rw [harr]; rfl
    have hget := @ByteArray.utf8Encode_get_utf8Decode? bs.toByteArray hsome
    simp only [harr, Option.get_some] at hget
    exact List.toByteArray_inj.mp hget
  · rintro rfl
    exact utf8Decode_utf8Encode cs

end Clausal
