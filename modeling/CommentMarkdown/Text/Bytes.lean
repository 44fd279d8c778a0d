import CommentMarkdown.Text.Basic

/-!
# Bytes of a text

Files hold bytes, and a text is kept in them in UTF-8. Any bytes can be read as a
text: a byte that begins no character stands for the replacement character. What
has been written as a text is read as that text (`ofBytes_toBytes`), and it takes
the bytes that `byteSize` counts (`size_toBytes`).
-/

namespace CommentMarkdown.Text

/-- The bytes of a text. -/
def toBytes (text : Text) : ByteArray :=
  (text.flatMap String.utf8EncodeChar).toByteArray

/-- The text that bytes hold from an offset on. -/
def ofBytesFrom (bytes : ByteArray) (offset : Nat) : Text :=
  if offset < bytes.size then
    match bytes.utf8DecodeChar? offset with
    | some c => c :: ofBytesFrom bytes (offset + c.utf8Size)
    | none => '\ufffd' :: ofBytesFrom bytes (offset + 1)
  else []
termination_by bytes.size - offset
decreasing_by
  · have := c.utf8Size_pos
    omega
  · omega

/-- The text that bytes hold. -/
def ofBytes (bytes : ByteArray) : Text :=
  ofBytesFrom bytes 0

/-- The bytes of consecutive texts follow each other. -/
theorem toBytes_append (first second : Text) :
    toBytes (first ++ second) = toBytes first ++ toBytes second := by
  simp [toBytes]

/-- The size in bytes is the number of bytes. -/
theorem size_toBytes (text : Text) : (toBytes text).size = byteSize text := by
  induction text with
  | nil => simp [toBytes]
  | cons c rest ih =>
    rw [← List.singleton_append, toBytes_append, ByteArray.size_append, ih]
    simp [toBytes]

/-- A text is read behind whatever bytes come before it. -/
theorem ofBytesFrom_append_toBytes (before : ByteArray) (text : Text) :
    ofBytesFrom (before ++ toBytes text) before.size = text := by
  induction text generalizing before with
  | nil =>
    unfold ofBytesFrom
    simp [toBytes]
  | cons c rest ih =>
    have shape : before ++ toBytes (c :: rest) = (before ++ toBytes [c]) ++ toBytes rest := by
      rw [ByteArray.append_assoc, ← toBytes_append]
      rfl
    have width : (before ++ toBytes [c]).size = before.size + c.utf8Size := by
      simp [ByteArray.size_append, size_toBytes]
    have here : (before ++ toBytes (c :: rest)).utf8DecodeChar? before.size = some c := by
      rw [ByteArray.utf8DecodeChar?_eq_utf8DecodeChar?_extract,
        ByteArray.extract_append_eq_right rfl (by rw [ByteArray.size_append])]
      exact List.utf8DecodeChar?_utf8Encode_cons
    have inside : before.size < (before ++ toBytes (c :: rest)).size := by
      have := c.utf8Size_pos
      rw [ByteArray.size_append, size_toBytes, byteSize_cons]
      omega
    rw [ofBytesFrom, if_pos inside, here]
    simp only
    rw [shape, ← width, ih]

/-- A text is read back from its bytes. -/
theorem ofBytes_toBytes (text : Text) : ofBytes (toBytes text) = text := by
  have read := ofBytesFrom_append_toBytes ByteArray.empty text
  rwa [ByteArray.empty_append, ByteArray.size_empty] at read

end CommentMarkdown.Text
