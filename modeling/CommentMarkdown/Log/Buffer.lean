import CommentMarkdown.Text.Bytes

/-!
# Buffers

A stream to a file is given a text in pieces and gathers their bytes in a buffer, so
that it writes seldom. What would fill the buffer makes all of it due for writing,
and so does a large piece, however little is pending before it. On the way nothing
is lost and nothing changes its place: the bytes of a buffer are those that it had
and those of the pieces (`bytes_putAll`).
-/

namespace CommentMarkdown.Log

/-- What a stream is given at once. -/
inductive Piece
  /-- A text that is gathered or written as a whole. -/
  | whole (text : Text)
  /-- A character that is gathered byte by byte. -/
  | single (c : Char)
  deriving DecidableEq, Repr

/-- The text of a piece. -/
def Piece.text : Piece → Text
  | whole text => text
  | single c => [c]

/-- What a stream has been given and has not written yet. -/
structure Buffer where
  /-- The bytes that have to be written now. -/
  due : ByteArray := .empty
  /-- The bytes behind them, which wait for more. -/
  pending : ByteArray := .empty

namespace Buffer

/-- The number of bytes that are written when single bytes fill the buffer. -/
def capacity : Nat := 8192

/-- The size of the smallest text that never waits. -/
def largeSize : Nat := 1024

/-- All bytes of a buffer. -/
def bytes (buffer : Buffer) : ByteArray :=
  buffer.due ++ buffer.pending

/-- The buffer with everything due. -/
def flush (buffer : Buffer) : Buffer :=
  ⟨buffer.bytes, .empty⟩

/-- The buffer with one byte more, which has everything written if it completes the
capacity. -/
def putByte (buffer : Buffer) (byte : UInt8) : Buffer :=
  let buffer : Buffer := ⟨buffer.due, buffer.pending.push byte⟩
  if buffer.pending.size < capacity then buffer else buffer.flush

/-- The buffer with a text more. Only a small text waits, and only if more than one byte of
the capacity is still free behind it. -/
def putText (buffer : Buffer) (text : Text) : Buffer :=
  let added := text.toBytes
  let buffer : Buffer := ⟨buffer.due, buffer.pending ++ added⟩
  if added.size < largeSize ∧ buffer.pending.size + 1 < capacity then buffer else buffer.flush

/-- The buffer with a piece more. -/
def put (buffer : Buffer) : Piece → Buffer
  | .whole text => buffer.putText text
  | .single c => (String.utf8EncodeChar c).foldl putByte buffer

/-- The buffer with several pieces more. -/
def putAll (buffer : Buffer) (pieces : List Piece) : Buffer :=
  pieces.foldl put buffer

/-- Making everything due keeps the bytes. -/
@[simp]
theorem bytes_flush (buffer : Buffer) : buffer.flush.bytes = buffer.bytes := by
  simp [flush, bytes]

/-- One byte more is the last one. -/
theorem bytes_putByte (buffer : Buffer) (byte : UInt8) :
    (buffer.putByte byte).bytes = buffer.bytes ++ [byte].toByteArray := by
  have last : (⟨buffer.due, buffer.pending.push byte⟩ : Buffer).bytes =
      buffer.bytes ++ [byte].toByteArray := by
    simp only [bytes]
    rw [← ByteArray.append_toByteArray_singleton, ByteArray.append_assoc]
  unfold putByte
  simp only
  split
  · exact last
  · rw [bytes_flush, last]

/-- Bytes that are put one by one come last, in order. -/
theorem bytes_foldl_putByte (buffer : Buffer) (added : List UInt8) :
    (added.foldl putByte buffer).bytes = buffer.bytes ++ added.toByteArray := by
  induction added generalizing buffer with
  | nil => simp
  | cons byte rest ih =>
    rw [List.foldl_cons, ih, bytes_putByte, ByteArray.append_assoc, ← List.toByteArray_append]
    rfl

/-- A text more comes last. -/
theorem bytes_putText (buffer : Buffer) (text : Text) :
    (buffer.putText text).bytes = buffer.bytes ++ text.toBytes := by
  unfold putText
  simp only
  split <;> simp [bytes, flush, ByteArray.append_assoc]

/-- A piece more comes last, whether or not it waits. -/
theorem bytes_put (buffer : Buffer) (piece : Piece) :
    (buffer.put piece).bytes = buffer.bytes ++ piece.text.toBytes := by
  cases piece with
  | whole text => exact bytes_putText buffer text
  | single c =>
    rw [put, bytes_foldl_putByte]
    simp [Piece.text, Text.toBytes]

/-- The bytes of a buffer are those that it had and those of the pieces. -/
theorem bytes_putAll (buffer : Buffer) (pieces : List Piece) :
    (buffer.putAll pieces).bytes =
      buffer.bytes ++ Text.toBytes (pieces.flatMap Piece.text) := by
  induction pieces generalizing buffer with
  | nil => simp [putAll, Text.toBytes]
  | cons piece rest ih =>
    rw [putAll, List.foldl_cons]
    change ((buffer.put piece).putAll rest).bytes = _
    rw [ih, bytes_put, List.flatMap_cons, Text.toBytes_append, ByteArray.append_assoc]

end Buffer

end CommentMarkdown.Log
