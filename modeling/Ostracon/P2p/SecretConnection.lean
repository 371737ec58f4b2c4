import Ostracon.Lib.ByteOrder
import Ostracon.Lib.IdealAead
/-!
# Sealed frames of a secret connection

The model of how `p2p/conn/secret_connection.go` carries bytes once the
handshake is done.  `Write` cuts its data into chunks of at most
`dataMaxSize` bytes.  Each chunk goes into a frame of `totalFrameSize` bytes,
its length first as a little-endian `uint32`, and the frame is sealed under
`sendNonce` and written.  `incrNonce` then adds one to the nonce's counter,
its last eight bytes read little-endian, and panics rather than wrap.  `Read`
returns what is left in `recvBuffer` if anything is.  Otherwise it reads one
sealed frame, opens it under `recvNonce`, and returns as much of its chunk as
fits the buffer, keeping the rest in `recvBuffer`.

The AEAD is an `IdealAead.Aead`: `Seal` and `Open` of `chacha20poly1305`
under the key each end derived.  The bytes of the pooled frame buffer after
the chunk are zeros here: they are whatever the buffer held, and nothing
reads them.  `Read` takes the frame from the text `Open` returns, which fills
the pooled buffer when it is a frame `Write` sealed.  The connection below is
the bytes written and not yet read, and its write errors are not modelled.  A
`Read` that finds no whole sealed frame takes what there is and returns the
error `io.ReadFull` returns once the connection is closed; on an open
connection it would wait, which a run here expresses by reading later.

A `Pipe` is two ends whose keys match, joined by a reliable connection that
delivers bytes in the order they are written.
-/

namespace Ostracon.P2p.Conn

open IdealAead

/-- `dataLenSize`. -/
def dataLenSize : Nat := 4

/-- `dataMaxSize`. -/
def dataMaxSize : Nat := 1024

/-- `totalFrameSize`. -/
def totalFrameSize : Nat := dataMaxSize + dataLenSize

/-- `aeadSizeOverhead`, the overhead of the poly1305 tag. -/
def aeadSizeOverhead : Nat := 16

/-- `aeadNonceSize`, `chacha20poly1305.NonceSize`. -/
def aeadNonceSize : Nat := 12

/-- `incrNonce`: the counter in the nonce's last eight bytes plus one; `none`
is its panic at `math.MaxUint64`. -/
def incrNonce (nonce : List UInt8) : Option (List UInt8) :=
  let counter := ByteOrder.getLE (nonce.drop 4)
  if counter = 2 ^ 64 - 1 then none
  else some (nonce.take 4 ++ ByteOrder.putLE 8 (counter + 1))

/-- The frame `Write` seals for a chunk: the chunk's length, the chunk, and
the rest of the pooled buffer. -/
def frameOf (chunk : List UInt8) : List UInt8 :=
  ByteOrder.putLE dataLenSize chunk.length ++ chunk ++ List.replicate (dataMaxSize - chunk.length) 0

/-- `Write`: each sealed frame it writes with the nonce it was sealed under,
the nonce after them, and `n`; `none` is the panic of `incrNonce`. -/
def write (aead : Aead) (sendNonce : List UInt8) (data : List UInt8) :
    Option (List (List UInt8 × List UInt8) × List UInt8 × Nat) :=
  if 0 < data.length then
    let chunk := if dataMaxSize < data.length then data.take dataMaxSize else data
    let rest := if dataMaxSize < data.length then data.drop dataMaxSize else []
    let sealedFrame := aead.sealText sendNonce (frameOf chunk)
    match incrNonce sendNonce with
    | none => none
    | some nonce =>
      (write aead nonce rest).map fun r => ((sendNonce, sealedFrame) :: r.1, r.2.1, chunk.length + r.2.2)
  else some ([], sendNonce, 0)
termination_by data.length
decreasing_by
  split
  · simp only [List.length_drop, dataMaxSize] at *
    omega
  · simp only [List.length_nil]
    omega

section WriteEq

variable {aead : Aead} {sendNonce data : List UInt8}

theorem write_nil : write aead sendNonce [] = some ([], sendNonce, 0) := by
  rw [write, if_neg (by simp)]

theorem write_of_lt (h : dataMaxSize < data.length) :
    write aead sendNonce data =
      (incrNonce sendNonce).bind fun nonce =>
        (write aead nonce (data.drop dataMaxSize)).map fun r =>
          ((sendNonce, aead.sealText sendNonce (frameOf (data.take dataMaxSize))) :: r.1, r.2.1,
            (data.take dataMaxSize).length + r.2.2) := by
  rw [write, if_pos (Nat.lt_trans (by decide) h)]
  simp only [if_pos h]
  cases incrNonce sendNonce <;> rfl

theorem write_of_le (hpos : 0 < data.length) (h : data.length ≤ dataMaxSize) :
    write aead sendNonce data =
      (incrNonce sendNonce).map fun nonce => ([(sendNonce, aead.sealText sendNonce (frameOf data))], nonce, data.length) := by
  rw [write, if_pos hpos]
  simp only [if_neg (Nat.not_lt.mpr h)]
  cases incrNonce sendNonce with
  | none => rfl
  | some nonce =>
    simp only [Option.map_some, write_nil, Nat.add_zero]

end WriteEq

/-- The errors of `Read`. -/
inductive ReadError
  /-- The `io.EOF` or `io.ErrUnexpectedEOF` of `io.ReadFull`. -/
  | eof
  /-- `"failed to decrypt SecretConnection"`. -/
  | decrypt
  /-- `"chunkLength is greater than dataMaxSize"`. -/
  | chunkLength
  deriving DecidableEq, Repr

/-- The reading end of a secret connection. -/
structure RecvState where
  recvNonce : List UInt8
  recvBuffer : List UInt8
  deriving DecidableEq, Repr

/-- `Read` into a buffer of `len` bytes, from the bytes on the connection:
what it returns, the state it leaves, and the bytes it leaves on the
connection; `none` is the panic of `incrNonce`. -/
def read (aead : Aead) (st : RecvState) (len : Nat) (conn : List UInt8) :
    Option (Except ReadError (List UInt8) × RecvState × List UInt8) :=
  if 0 < st.recvBuffer.length then
    let n := min len st.recvBuffer.length
    some (.ok (st.recvBuffer.take n), { st with recvBuffer := st.recvBuffer.drop n }, conn)
  else if conn.length < aeadSizeOverhead + totalFrameSize then some (.error .eof, st, [])
  else
    let sealedFrame := conn.take (aeadSizeOverhead + totalFrameSize)
    let conn := conn.drop (aeadSizeOverhead + totalFrameSize)
    match aead.openText st.recvNonce sealedFrame with
    | none => some (.error .decrypt, st, conn)
    | some frame =>
      match incrNonce st.recvNonce with
      | none => none
      | some recvNonce =>
        let chunkLength := ByteOrder.getLE (frame.take dataLenSize)
        if chunkLength > dataMaxSize then some (.error .chunkLength, { st with recvNonce := recvNonce }, conn)
        else
          let chunk := (frame.drop dataLenSize).take chunkLength
          let n := min len chunk.length
          some (.ok (chunk.take n), ⟨recvNonce, chunk.drop n⟩, conn)

/-! ## Two ends of a secret connection -/

/-- The sending end's `sendNonce`, the bytes on the connection, the receiving
end, the bytes the `Write`s wrote, what the `Read`s returned, and the nonces
`Seal` was called with. -/
structure Pipe where
  sendNonce : List UInt8
  conn : List UInt8
  recv : RecvState
  written : List UInt8
  readOut : List UInt8
  nonces : List (List UInt8)

/-- A `Write` on the sending end, or a `Read` of `len` bytes on the receiving
end. -/
inductive PipeStep
  | write (data : List UInt8)
  | read (len : Nat)
  deriving DecidableEq, Repr

namespace Pipe

/-- Both nonces start at zero, as `MakeSecretConnection` makes them. -/
def init : Pipe :=
  ⟨List.replicate aeadNonceSize 0, [], ⟨List.replicate aeadNonceSize 0, []⟩, [], [], []⟩

variable (aead : Aead)

/-- One step; `none` is a panic. -/
def step (p : Pipe) : PipeStep → Option Pipe
  | .write data =>
    match write aead p.sendNonce data with
    | none => none
    | some (frames, sendNonce, n) =>
      some
        { p with
          sendNonce := sendNonce
          conn := p.conn ++ (frames.map (·.2)).flatten
          written := p.written ++ data.take n
          nonces := p.nonces ++ frames.map (·.1) }
  | .read len =>
    match read aead p.recv len p.conn with
    | none => none
    | some (result, recv, conn) =>
      some
        { p with
          recv := recv
          conn := conn
          readOut := p.readOut ++ result.toOption.getD [] }

/-- A run of steps, up to the first panic. -/
def run (p : Pipe) : List PipeStep → Option Pipe
  | [] => some p
  | s :: ss => (p.step aead s).bind fun p => p.run ss

variable {aead} {p : Pipe}

theorem step_write {data : List UInt8} {frames : List (List UInt8 × List UInt8)} {sendNonce : List UInt8}
    {n : Nat} (hw : write aead p.sendNonce data = some (frames, sendNonce, n)) :
    p.step aead (.write data) =
      some
        { p with
          sendNonce := sendNonce
          conn := p.conn ++ (frames.map (·.2)).flatten
          written := p.written ++ data.take n
          nonces := p.nonces ++ frames.map (·.1) } := by
  simp only [step, hw]

theorem step_write_eq_none {data : List UInt8} (hw : write aead p.sendNonce data = none) :
    p.step aead (.write data) = none := by
  simp only [step, hw]

theorem step_read {len : Nat} {result : Except ReadError (List UInt8)} {recv : RecvState} {conn : List UInt8}
    (hr : read aead p.recv len p.conn = some (result, recv, conn)) :
    p.step aead (.read len) =
      some
        { p with
          recv := recv
          conn := conn
          readOut := p.readOut ++ result.toOption.getD [] } := by
  simp only [step, hr]

theorem run_cons {s : PipeStep} {ss : List PipeStep} {p' : Pipe} (h : p.step aead s = some p') :
    p.run aead (s :: ss) = p'.run aead ss := by
  simp only [run, h, Option.bind_some]

end Pipe

end Ostracon.P2p.Conn
