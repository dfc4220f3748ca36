/-!
# Byte streams

A program may arrive as a stream of bytes. Reading such a stream gives a chunk at a time: some
bytes, an interruption that only asks to read again, or a failure that ends the stream. The whole
stream is read before any of it is decoded, so a failure is reported even when bytes before it are
no text.
-/

namespace HostedLisp

/-- What a single read from a byte stream gives. -/
inductive Chunk where
  /-- The next bytes of the stream. -/
  | bytes (content : ByteArray)
  /-- Nothing was read; the read is to be repeated. -/
  | interrupted
  /-- The stream cannot be read any further, for the reason that `message` gives. -/
  | failed (message : String)

/-- Why the text of a byte stream could not be read. -/
inductive ReadError where
  /-- The bytes are not the UTF-8 form of a text. -/
  | notText
  /-- The stream itself failed. -/
  | failed (message : String)
  deriving DecidableEq, Inhabited

/-- The text of a reading error. -/
def ReadError.message : ReadError → String
  | .notText => "stream did not contain valid UTF-8"
  | .failed message => message

namespace ByteStream

/-- Appends the bytes of the remaining chunks to `read`, up to the first failure. -/
def readOnto (read : ByteArray) : List Chunk → Except ReadError ByteArray
  | [] => .ok read
  | .bytes content :: chunks => readOnto (read ++ content) chunks
  | .interrupted :: chunks => readOnto read chunks
  | .failed message :: _ => .error (.failed message)

/-- Reads a whole stream and decodes it. A byte order mark is a character like any other. -/
def readText (chunks : List Chunk) : Except ReadError String := do
  let bytes ← readOnto .empty chunks
  match String.fromUTF8? bytes with
  | some text => .ok text
  | none => .error .notText

end ByteStream

end HostedLisp
