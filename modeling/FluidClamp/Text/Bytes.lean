/-
  FluidClamp.Text.Bytes
  ─────────────────────
  **TEXTS AS BYTES.**

  Files and streams hold bytes, and a text is kept in them as UTF-8.  Not all
  bytes are a text, but those of a text are:

      Bytes.text? (Bytes.ofText text)  =  some text
-/

namespace FluidClamp

/-- The content of a file or a stream. -/
abbrev Bytes := List UInt8

namespace Bytes

/-- The bytes of a text. -/
def ofText (text : String) : Bytes := text.toUTF8.data.toList

/-- The text of some bytes, if they are one. -/
def text? (bytes : Bytes) : Option String := String.fromUTF8? ⟨bytes.toArray⟩

/-- Reading the bytes of a text gives the text. -/
@[simp] theorem text?_ofText (text : String) : text? (ofText text) = some text := by
  have h : (⟨(ofText text).toArray⟩ : ByteArray) = text.toByteArray := by
    simp [ofText]
  rw [text?, h, String.fromUTF8?, dif_pos text.isValidUTF8]
  rfl

end Bytes

end FluidClamp
