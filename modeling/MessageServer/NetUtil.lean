/-
# Receiving strings (`read_line` of `util.c`)

A connection is the list of results that `read(d, &ch, 1)` gives on it: a byte, an
interruption by a signal, or an error.  When the list is exhausted the peer has
closed the connection (end of file).  `readLine` is `read_line`; it returns the
result, the buffer afterwards and what is left on the connection.
-/
import MessageServer.Util

/-- The result of reading one byte from a connection; the end of the list of
results is the end of file. -/
inductive ReadEv
  | byte (b : UInt8)
  | eintr
  | err
  deriving DecidableEq, Repr

/-- The bytes of a stream that is read without interruption. -/
def stream (bs : Bytes) : List ReadEv := bs.map ReadEv.byte

/-- A line ends at a newline or a NUL. -/
def isTerminator (b : UInt8) : Bool := b = 10 || b = 0

/-- What the loop of `read_line` leaves: the result, the bytes it stored, whether
it went on to store the terminating NUL, and the rest of the connection. -/
structure LineResult where
  result : ℤ
  line : Bytes
  terminated : Bool
  rest : List ReadEv
  deriving DecidableEq, Repr

/-- The loop of `read_line`; `line` is stored so far. -/
def readLineLoop (bufSpace : ℕ) : List ReadEv → Bytes → LineResult
  | [], line =>
      -- end of file: without a byte the buffer is left as it is
      if line = [] then ⟨0, line, false, []⟩ else ⟨line.length, line, true, []⟩
  | .eintr :: rest, line => readLineLoop bufSpace rest line
  | .err :: rest, line => ⟨genErrAny, line, false, rest⟩
  | .byte b :: rest, line =>
      if isTerminator b then ⟨line.length, line, true, rest⟩
      else if line.length < bufSpace - 1 then readLineLoop bufSpace rest (line ++ [b])
      else readLineLoop bufSpace rest line

/-- The buffer after the loop: the stored bytes over its start. -/
def LineResult.buffer (r : LineResult) (buf : Bytes) : Bytes :=
  let stored := if r.terminated then r.line ++ [0] else r.line
  stored ++ buf.drop stored.length

/-- `read_line` -/
def readLine (input : List ReadEv) (buf : Bytes) (bufSpace : ℕ) : ℤ × Bytes × List ReadEv :=
  if bufSpace = 0 then (genErrInvArgs, buf, input)
  else
    let r := readLineLoop bufSpace input []
    (r.result, r.buffer buf, r.rest)
