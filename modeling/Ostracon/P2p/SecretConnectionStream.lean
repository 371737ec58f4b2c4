import Ostracon.P2p.SecretConnection
import Mathlib.Data.List.Nodup
/-!
# The secret connection as an ordered byte stream

Along every run of a `Pipe` under an ideal AEAD, the sending end's nonce is
`nonceOf` of the number of frames sealed so far and the receiving end's is
`nonceOf` of the number of frames opened.  The bytes on the connection are the
sealed frames of the chunks not yet opened, and the bytes read, then those in
`recvBuffer`, then the pending chunks, are the bytes written (`StreamInv`).

So what the `Read`s returned is always a prefix of what the `Write`s wrote,
and all of it once the connection and `recvBuffer` are empty.  After the last
frame is opened the buffer may still hold the end of its chunk
(`stream_read_leaves_buffer`).  No nonce seals twice, every `Write` seals one
frame of `aeadSizeOverhead + totalFrameSize` bytes per chunk of at most
`dataMaxSize` bytes, and a `Read` that meets a frame sealed under another
counter, or bytes no one sealed, fails to decrypt.
-/

namespace Ostracon.P2p.Conn

open IdealAead

/-! ## Nonces as counters -/

/-- The nonce whose counter is `k`: four zero bytes, then `k` as a
little-endian `uint64`. -/
def nonceOf (k : Nat) : List UInt8 := List.replicate 4 0 ++ ByteOrder.putLE 8 k

theorem two_pow_64 : (2 : Nat) ^ 64 = 256 ^ 8 := by decide

@[simp] theorem length_nonceOf (k : Nat) : (nonceOf k).length = aeadNonceSize := by
  simp [nonceOf, aeadNonceSize]

theorem nonceOf_inj {j k : Nat} (hj : j < 2 ^ 64) (hk : k < 2 ^ 64) (h : nonceOf j = nonceOf k) : j = k := by
  apply ByteOrder.putLE_inj (two_pow_64 ▸ hj) (two_pow_64 ▸ hk)
  exact List.append_cancel_left h

theorem incrNonce_nonceOf {k : Nat} (hk : k < 2 ^ 64) :
    incrNonce (nonceOf k) = if k = 2 ^ 64 - 1 then none else some (nonceOf (k + 1)) := by
  have hdrop : (nonceOf k).drop 4 = ByteOrder.putLE 8 k := List.drop_left' (by simp)
  have htake : (nonceOf k).take 4 = List.replicate 4 0 := List.take_left' (by simp)
  have hget : ByteOrder.getLE (ByteOrder.putLE 8 k) = k := by
    rw [ByteOrder.getLE_putLE, Nat.mod_eq_of_lt (two_pow_64 ▸ hk)]
  simp only [incrNonce, hdrop, htake, hget]
  rfl

theorem nonceOf_zero : nonceOf 0 = List.replicate aeadNonceSize 0 := by decide

/-! ## Chunks and their sealed frames -/

/-- The chunks `Write` cuts its data into. -/
def chunksOf (data : List UInt8) : List (List UInt8) :=
  if 0 < data.length then
    let chunk := if dataMaxSize < data.length then data.take dataMaxSize else data
    let rest := if dataMaxSize < data.length then data.drop dataMaxSize else []
    chunk :: chunksOf rest
  else []
termination_by data.length
decreasing_by
  split
  · simp only [List.length_drop, dataMaxSize] at *
    omega
  · simp only [List.length_nil]
    omega

theorem chunksOf_of_lt {data : List UInt8} (h : dataMaxSize < data.length) :
    chunksOf data = data.take dataMaxSize :: chunksOf (data.drop dataMaxSize) := by
  rw [chunksOf, if_pos (by simp only [dataMaxSize] at h ⊢; omega)]
  simp only [if_pos h]

theorem chunksOf_of_le {data : List UInt8} (hpos : 0 < data.length) (h : data.length ≤ dataMaxSize) :
    chunksOf data = [data] := by
  rw [chunksOf, if_pos hpos]
  simp only [if_neg (Nat.not_lt.mpr h)]
  rw [chunksOf, if_neg (by simp)]

@[simp] theorem chunksOf_nil : chunksOf [] = [] := by
  rw [chunksOf, if_neg (by simp)]

theorem flatten_chunksOf (data : List UInt8) : (chunksOf data).flatten = data := by
  by_cases h : dataMaxSize < data.length
  · rw [chunksOf_of_lt h, List.flatten_cons, flatten_chunksOf (data.drop dataMaxSize), List.take_append_drop]
  · cases data with
    | nil => simp
    | cons b bs => rw [chunksOf_of_le (by simp) (Nat.not_lt.mp h), List.flatten_singleton]
termination_by data.length
decreasing_by simp only [List.length_drop, dataMaxSize] at *; omega

theorem length_chunksOf (data : List UInt8) :
    (chunksOf data).length = (data.length + dataMaxSize - 1) / dataMaxSize := by
  by_cases h : dataMaxSize < data.length
  · rw [chunksOf_of_lt h, List.length_cons, length_chunksOf (data.drop dataMaxSize), List.length_drop]
    simp only [dataMaxSize] at h ⊢
    omega
  · cases data with
    | nil => simp [dataMaxSize]
    | cons b bs =>
      rw [chunksOf_of_le (by simp) (Nat.not_lt.mp h), List.length_singleton]
      simp only [dataMaxSize, List.length_cons] at h ⊢
      omega
termination_by data.length
decreasing_by simp only [List.length_drop, dataMaxSize] at *; omega

theorem length_le_of_mem_chunksOf {data chunk : List UInt8} (hmem : chunk ∈ chunksOf data) :
    chunk.length ≤ dataMaxSize := by
  by_cases h : dataMaxSize < data.length
  · rw [chunksOf_of_lt h, List.mem_cons] at hmem
    rcases hmem with rfl | hmem
    · exact List.length_take_le _ _
    · exact length_le_of_mem_chunksOf hmem
  · cases data with
    | nil => simp at hmem
    | cons b bs =>
      rw [chunksOf_of_le (by simp) (Nat.not_lt.mp h), List.mem_singleton] at hmem
      rw [hmem]
      exact Nat.not_lt.mp h
termination_by data.length
decreasing_by simp only [List.length_drop, dataMaxSize] at *; omega

variable (aead : Aead)

/-- The frames of `chunks`, each sealed under the next counter from `k`,
with the nonce each was sealed under. -/
def framesFrom : Nat → List (List UInt8) → List (List UInt8 × List UInt8)
  | _, [] => []
  | k, chunk :: chunks => (nonceOf k, aead.sealText (nonceOf k) (frameOf chunk)) :: framesFrom (k + 1) chunks

/-- The bytes those frames take on the connection. -/
def sealedBytes (k : Nat) (chunks : List (List UInt8)) : List UInt8 :=
  ((framesFrom aead k chunks).map (·.2)).flatten

variable {aead}

@[simp] theorem framesFrom_nil (k : Nat) : framesFrom aead k [] = [] := rfl

@[simp] theorem framesFrom_cons (k : Nat) (chunk : List UInt8) (chunks : List (List UInt8)) :
    framesFrom aead k (chunk :: chunks) =
      (nonceOf k, aead.sealText (nonceOf k) (frameOf chunk)) :: framesFrom aead (k + 1) chunks := rfl

theorem framesFrom_append (k : Nat) (xs ys : List (List UInt8)) :
    framesFrom aead k (xs ++ ys) = framesFrom aead k xs ++ framesFrom aead (k + xs.length) ys := by
  induction xs generalizing k with
  | nil => rfl
  | cons x xs ih =>
    rw [List.cons_append, framesFrom_cons, framesFrom_cons, ih, List.length_cons, Nat.add_assoc,
      Nat.add_comm 1, List.cons_append]

theorem map_fst_framesFrom (k : Nat) (chunks : List (List UInt8)) :
    (framesFrom aead k chunks).map (·.1) = (List.range' k chunks.length).map nonceOf := by
  induction chunks generalizing k with
  | nil => rfl
  | cons chunk chunks ih =>
    rw [framesFrom_cons, List.map_cons, ih, List.length_cons, List.range'_succ, List.map_cons]

@[simp] theorem length_framesFrom (k : Nat) (chunks : List (List UInt8)) :
    (framesFrom aead k chunks).length = chunks.length := by
  induction chunks generalizing k with
  | nil => rfl
  | cons chunk chunks ih => rw [framesFrom_cons, List.length_cons, List.length_cons, ih]

theorem sealedBytes_nil (k : Nat) : sealedBytes aead k [] = [] := rfl

theorem sealedBytes_cons (k : Nat) (chunk : List UInt8) (chunks : List (List UInt8)) :
    sealedBytes aead k (chunk :: chunks) =
      aead.sealText (nonceOf k) (frameOf chunk) ++ sealedBytes aead (k + 1) chunks := rfl

theorem sealedBytes_append (k : Nat) (xs ys : List (List UInt8)) :
    sealedBytes aead k (xs ++ ys) = sealedBytes aead k xs ++ sealedBytes aead (k + xs.length) ys := by
  rw [sealedBytes, framesFrom_append, List.map_append, List.flatten_append]
  rfl

/-! ## `Write` -/

theorem write_nonceOf {k : Nat} (hk : k < 2 ^ 64) (data : List UInt8) :
    write aead (nonceOf k) data =
      if k + (chunksOf data).length < 2 ^ 64 then
        some (framesFrom aead k (chunksOf data), nonceOf (k + (chunksOf data).length), data.length)
      else none := by
  by_cases h : dataMaxSize < data.length
  · -- the first chunk is sealed under `k`, the rest from `k + 1`
    rw [write_of_lt h, chunksOf_of_lt h, incrNonce_nonceOf hk, List.length_cons]
    by_cases hlast : k = 2 ^ 64 - 1
    · rw [if_pos hlast, if_neg (by omega)]
      rfl
    · rw [if_neg hlast, Option.bind_some, write_nonceOf (by omega)]
      by_cases hfit : k + 1 + (chunksOf (data.drop dataMaxSize)).length < 2 ^ 64
      · have hlen : (data.take dataMaxSize).length + (data.drop dataMaxSize).length = data.length := by
          rw [List.length_take, List.length_drop]
          omega
        have hidx : k + 1 + (chunksOf (data.drop dataMaxSize)).length =
            k + ((chunksOf (data.drop dataMaxSize)).length + 1) := by omega
        rw [if_pos hfit, if_pos (by omega), Option.map_some, framesFrom_cons, hlen, hidx]
      · rw [if_neg hfit, if_neg (by omega)]
        rfl
  · cases data with
    | nil =>
      rw [write_nil, chunksOf_nil, List.length_nil, Nat.add_zero, if_pos hk]
      rfl
    | cons b bs =>
      -- one chunk, sealed under `k`
      rw [write_of_le (by simp) (Nat.not_lt.mp h), chunksOf_of_le (by simp) (Nat.not_lt.mp h),
        incrNonce_nonceOf hk, List.length_singleton]
      by_cases hlast : k = 2 ^ 64 - 1
      · rw [if_pos hlast, if_neg (by omega)]
        rfl
      · rw [if_neg hlast, if_pos (by omega)]
        rfl
termination_by data.length
decreasing_by simp only [List.length_drop, dataMaxSize] at *; omega

theorem length_frameOf {chunk : List UInt8} (h : chunk.length ≤ dataMaxSize) :
    (frameOf chunk).length = totalFrameSize := by
  simp only [frameOf, List.length_append, ByteOrder.length_putLE, List.length_replicate, totalFrameSize]
  omega

theorem length_sealText_frameOf {nonceSize : Nat} (h : Ideal aead nonceSize aeadSizeOverhead)
    (nonce : List UInt8) {chunk : List UInt8} (hch : chunk.length ≤ dataMaxSize) :
    (aead.sealText nonce (frameOf chunk)).length = aeadSizeOverhead + totalFrameSize := by
  rw [h.length_sealText, length_frameOf hch, Nat.add_comm]

theorem length_of_mem_framesFrom {nonceSize : Nat} (h : Ideal aead nonceSize aeadSizeOverhead) {k : Nat}
    {chunks : List (List UInt8)} (hch : ∀ chunk ∈ chunks, chunk.length ≤ dataMaxSize)
    {f : List UInt8 × List UInt8} (hf : f ∈ framesFrom aead k chunks) :
    f.2.length = aeadSizeOverhead + totalFrameSize := by
  induction chunks generalizing k with
  | nil => simp at hf
  | cons chunk chunks ih =>
    rw [framesFrom_cons, List.mem_cons] at hf
    rcases hf with rfl | hf
    · exact length_sealText_frameOf h _ (hch chunk List.mem_cons_self)
    · exact ih (fun c hc => hch c (List.mem_cons_of_mem _ hc)) hf

/-! ## `Read` -/

theorem read_of_buffer {st : RecvState} {len : Nat} {conn : List UInt8} (hbuf : 0 < st.recvBuffer.length) :
    read aead st len conn =
      some (.ok (st.recvBuffer.take (min len st.recvBuffer.length)),
        { st with recvBuffer := st.recvBuffer.drop (min len st.recvBuffer.length) }, conn) := by
  rw [read, if_pos hbuf]

theorem read_of_short {st : RecvState} {len : Nat} {conn : List UInt8} (hbuf : st.recvBuffer = [])
    (hshort : conn.length < aeadSizeOverhead + totalFrameSize) :
    read aead st len conn = some (.error .eof, st, []) := by
  rw [read, if_neg (by simp [hbuf]), if_pos hshort]

theorem getLE_take_frameOf {chunk : List UInt8} (h : chunk.length ≤ dataMaxSize) :
    ByteOrder.getLE ((frameOf chunk).take dataLenSize) = chunk.length := by
  have hlen : (ByteOrder.putLE dataLenSize chunk.length).length = dataLenSize := ByteOrder.length_putLE _ _
  rw [frameOf, List.append_assoc, List.take_left' hlen, ByteOrder.getLE_putLE]
  apply Nat.mod_eq_of_lt
  simp only [dataMaxSize, dataLenSize] at h ⊢
  omega

theorem chunk_of_frameOf (chunk : List UInt8) :
    ((frameOf chunk).drop dataLenSize).take chunk.length = chunk := by
  have hlen : (ByteOrder.putLE dataLenSize chunk.length).length = dataLenSize := ByteOrder.length_putLE _ _
  rw [frameOf, List.append_assoc, List.drop_left' hlen, List.take_left' rfl]

theorem read_frame (h : Ideal aead aeadNonceSize aeadSizeOverhead) {st : RecvState} {r : Nat}
    (hbuf : st.recvBuffer = []) (hnonce : st.recvNonce = nonceOf r) (hr : r + 1 < 2 ^ 64)
    {chunk : List UInt8} (hch : chunk.length ≤ dataMaxSize) (len : Nat) (rest : List UInt8) :
    read aead st len (aead.sealText (nonceOf r) (frameOf chunk) ++ rest) =
      some (.ok (chunk.take (min len chunk.length)),
        ⟨nonceOf (r + 1), chunk.drop (min len chunk.length)⟩, rest) := by
  have hsealed := length_sealText_frameOf h (nonceOf r) hch
  have hchunk : ¬ chunk.length > dataMaxSize := Nat.not_lt.mpr hch
  rw [read, if_neg (by simp [hbuf]), if_neg (by rw [List.length_append, hsealed]; omega)]
  simp only [List.take_left' hsealed, List.drop_left' hsealed, hnonce, h.openText_sealText,
    incrNonce_nonceOf (Nat.lt_of_succ_lt hr), if_neg (show r ≠ 2 ^ 64 - 1 by omega),
    getLE_take_frameOf hch, if_neg hchunk, chunk_of_frameOf, hbuf]

theorem read_of_not_sealed (h : Ideal aead aeadNonceSize aeadSizeOverhead) {st : RecvState}
    (hbuf : st.recvBuffer = []) {x : List UInt8} (hx : x.length = aeadSizeOverhead + totalFrameSize)
    (hnot : ∀ text, x ≠ aead.sealText st.recvNonce text) (len : Nat) (rest : List UInt8) :
    read aead st len (x ++ rest) = some (.error .decrypt, st, rest) := by
  have hopen : aead.openText st.recvNonce x = none := by
    cases hx' : aead.openText st.recvNonce x with
    | none => rfl
    | some text => exact absurd (h.eq_sealText_of_openText hx') (hnot text)
  rw [read, if_neg (by simp [hbuf]), if_neg (by rw [List.length_append, hx]; omega)]
  simp only [List.take_left' hx, List.drop_left' hx, hopen]

theorem sealText_nonceOf_ne (h : Ideal aead aeadNonceSize aeadSizeOverhead) {j k : Nat}
    (hj : j < 2 ^ 64) (hk : k < 2 ^ 64) (hne : j ≠ k) (text text' : List UInt8) :
    aead.sealText (nonceOf j) text ≠ aead.sealText (nonceOf k) text' := fun heq =>
  hne (nonceOf_inj hj hk (h.sealText_inj (length_nonceOf j) (length_nonceOf k) heq).1)

/-! ## The stream invariant -/

/-- The two ends after `r` frames were opened, with `chunks` written and not
yet opened. -/
structure StreamInv (aead : Aead) (p : Pipe) (r : Nat) (chunks : List (List UInt8)) : Prop where
  counter : r + chunks.length < 2 ^ 64
  sendNonce : p.sendNonce = nonceOf (r + chunks.length)
  recvNonce : p.recv.recvNonce = nonceOf r
  chunks_le : ∀ chunk ∈ chunks, chunk.length ≤ dataMaxSize
  conn : p.conn = sealedBytes aead r chunks
  bytes : p.readOut ++ p.recv.recvBuffer ++ chunks.flatten = p.written
  nonces : p.nonces = (List.range' 0 (r + chunks.length)).map nonceOf

theorem StreamInv.init : StreamInv aead Pipe.init 0 [] where
  counter := by decide
  sendNonce := nonceOf_zero.symm
  recvNonce := nonceOf_zero.symm
  chunks_le _ hc := absurd hc List.not_mem_nil
  conn := rfl
  bytes := rfl
  nonces := rfl

variable {p p' : Pipe} {r : Nat} {chunks : List (List UInt8)}

theorem StreamInv.write_step (hinv : StreamInv aead p r chunks) {data : List UInt8}
    (hstep : p.step aead (.write data) = some p') :
    StreamInv aead p' r (chunks ++ chunksOf data) := by
  have hw : write aead p.sendNonce data = _ := hinv.sendNonce ▸ write_nonceOf hinv.counter data
  by_cases hfit : r + chunks.length + (chunksOf data).length < 2 ^ 64
  · rw [if_pos hfit] at hw
    rw [Pipe.step_write hw] at hstep
    cases hstep
    refine ⟨by rw [List.length_append, ← Nat.add_assoc]; exact hfit, ?_, hinv.recvNonce, ?_, ?_, ?_, ?_⟩
    · rw [List.length_append, ← Nat.add_assoc]
    · intro chunk hc
      rcases List.mem_append.mp hc with hc | hc
      · exact hinv.chunks_le chunk hc
      · exact length_le_of_mem_chunksOf hc
    · show p.conn ++ _ = _
      rw [hinv.conn, sealedBytes_append]
      rfl
    · show p.readOut ++ p.recv.recvBuffer ++ (chunks ++ chunksOf data).flatten = p.written ++ data.take data.length
      rw [List.flatten_append, flatten_chunksOf, List.take_length, ← List.append_assoc, hinv.bytes]
    · show p.nonces ++ _ = _
      have hrange : List.range' 0 (r + chunks.length) ++ List.range' (r + chunks.length) (chunksOf data).length =
          List.range' 0 (r + chunks.length + (chunksOf data).length) := by
        simpa using List.range'_append_1 (s := 0) (m := r + chunks.length) (n := (chunksOf data).length)
      rw [hinv.nonces, map_fst_framesFrom, ← List.map_append, hrange, List.length_append, Nat.add_assoc]
  · rw [if_neg hfit] at hw
    rw [Pipe.step_write_eq_none hw] at hstep
    cases hstep

theorem StreamInv.read_step (h : Ideal aead aeadNonceSize aeadSizeOverhead) (hinv : StreamInv aead p r chunks)
    {len : Nat} (hstep : p.step aead (.read len) = some p') :
    StreamInv aead p' r chunks ∨ ∃ chunk rest, chunks = chunk :: rest ∧ StreamInv aead p' (r + 1) rest := by
  by_cases hbuf : 0 < p.recv.recvBuffer.length
  · -- the buffer is drained first, and the connection is not read
    rw [Pipe.step_read (read_of_buffer hbuf)] at hstep
    cases hstep
    refine .inl ⟨hinv.counter, hinv.sendNonce, hinv.recvNonce, hinv.chunks_le, hinv.conn, ?_, hinv.nonces⟩
    show p.readOut ++ p.recv.recvBuffer.take (min len p.recv.recvBuffer.length) ++
      p.recv.recvBuffer.drop (min len p.recv.recvBuffer.length) ++ chunks.flatten = p.written
    rw [List.append_assoc p.readOut, List.take_append_drop, hinv.bytes]
  · have hnil : p.recv.recvBuffer = [] := List.eq_nil_of_length_eq_zero (by omega)
    cases chunks with
    | nil =>
      -- nothing is on the connection
      have hshort : p.conn.length < aeadSizeOverhead + totalFrameSize := by
        rw [hinv.conn, sealedBytes_nil, List.length_nil]
        decide
      rw [Pipe.step_read (read_of_short hnil hshort)] at hstep
      cases hstep
      refine .inl ⟨hinv.counter, hinv.sendNonce, hinv.recvNonce, hinv.chunks_le, rfl, ?_, hinv.nonces⟩
      show (p.readOut ++ []) ++ _ ++ _ = _
      rw [List.append_nil, hinv.bytes]
    | cons chunk rest =>
      -- the next frame is the one of the first pending chunk
      have hr : r + 1 < 2 ^ 64 := by
        have := hinv.counter
        rw [List.length_cons] at this
        omega
      have hch := hinv.chunks_le chunk List.mem_cons_self
      have hconn : p.conn = aead.sealText (nonceOf r) (frameOf chunk) ++ sealedBytes aead (r + 1) rest := by
        rw [hinv.conn, sealedBytes_cons]
      have hread := read_frame h hnil hinv.recvNonce hr hch len (sealedBytes aead (r + 1) rest)
      rw [← hconn] at hread
      rw [Pipe.step_read hread] at hstep
      cases hstep
      refine .inr ⟨chunk, rest, rfl, ⟨?_, ?_, rfl, fun c hc => hinv.chunks_le c (List.mem_cons_of_mem _ hc),
        rfl, ?_, ?_⟩⟩
      · have := hinv.counter
        rw [List.length_cons] at this
        omega
      · rw [hinv.sendNonce, List.length_cons, Nat.add_comm rest.length 1, Nat.add_assoc]
      · show p.readOut ++ List.take _ chunk ++ List.drop _ chunk ++ rest.flatten = p.written
        rw [List.append_assoc p.readOut, List.take_append_drop, ← hinv.bytes, hnil, List.append_nil,
          List.flatten_cons, List.append_assoc]
      · rw [hinv.nonces, List.length_cons, Nat.add_comm rest.length 1, Nat.add_assoc]

theorem StreamInv.step (h : Ideal aead aeadNonceSize aeadSizeOverhead) (hinv : StreamInv aead p r chunks)
    {s : PipeStep} (hstep : p.step aead s = some p') : ∃ r' chunks', StreamInv aead p' r' chunks' := by
  cases s with
  | write data => exact ⟨r, _, hinv.write_step hstep⟩
  | read len =>
    rcases hinv.read_step h hstep with hinv' | ⟨_, rest, -, hinv'⟩
    · exact ⟨r, chunks, hinv'⟩
    · exact ⟨r + 1, rest, hinv'⟩

theorem StreamInv.run (h : Ideal aead aeadNonceSize aeadSizeOverhead) (hinv : StreamInv aead p r chunks)
    {steps : List PipeStep} (hrun : p.run aead steps = some p') : ∃ r' chunks', StreamInv aead p' r' chunks' := by
  induction steps generalizing p r chunks with
  | nil =>
    cases hrun
    exact ⟨r, chunks, hinv⟩
  | cons s steps ih =>
    cases hstep : p.step aead s with
    | none => simp [Pipe.run, hstep] at hrun
    | some p₁ =>
      obtain ⟨r₁, chunks₁, hinv₁⟩ := hinv.step h hstep
      rw [Pipe.run_cons hstep] at hrun
      exact ih hinv₁ hrun

/-! ## What the invariant gives -/

theorem StreamInv.readOut_prefix (hinv : StreamInv aead p r chunks) : p.readOut <+: p.written := by
  rw [← hinv.bytes, List.append_assoc]
  exact List.prefix_append _ _

theorem StreamInv.readOut_eq (h : Ideal aead aeadNonceSize aeadSizeOverhead) (hinv : StreamInv aead p r chunks)
    (hconn : p.conn = []) (hbuf : p.recv.recvBuffer = []) : p.readOut = p.written := by
  -- every pending chunk would leave a whole sealed frame on the connection
  cases chunks with
  | nil =>
    rw [← hinv.bytes, hbuf]
    simp
  | cons chunk rest =>
    have hlen := congrArg List.length (hinv.conn.symm.trans hconn)
    rw [sealedBytes_cons, List.length_append,
      length_sealText_frameOf h _ (hinv.chunks_le chunk List.mem_cons_self)] at hlen
    simp [aeadSizeOverhead] at hlen

theorem StreamInv.nonces_nodup (hinv : StreamInv aead p r chunks) : p.nonces.Nodup := by
  rw [hinv.nonces]
  apply List.Nodup.map_on _ List.nodup_range'
  intro j hj k hk hjk
  rw [List.mem_range'_1] at hj hk
  exact nonceOf_inj (by have := hinv.counter; omega) (by have := hinv.counter; omega) hjk

theorem StreamInv.write_frames (h : Ideal aead aeadNonceSize aeadSizeOverhead) (hinv : StreamInv aead p r chunks)
    {data : List UInt8} {frames : List (List UInt8 × List UInt8)} {nonce : List UInt8} {n : Nat}
    (hw : write aead p.sendNonce data = some (frames, nonce, n)) :
    frames.length = (data.length + dataMaxSize - 1) / dataMaxSize ∧
      (∀ f ∈ frames, f.2.length = totalFrameSize + aeadSizeOverhead) ∧ n = data.length := by
  rw [hinv.sendNonce, write_nonceOf hinv.counter] at hw
  split_ifs at hw
  cases hw
  refine ⟨?_, fun f hf => ?_, rfl⟩
  · rw [length_framesFrom, length_chunksOf]
  · rw [length_of_mem_framesFrom h (fun c hc => length_le_of_mem_chunksOf hc) hf, Nat.add_comm]

theorem StreamInv.tamper (h : Ideal aead aeadNonceSize aeadSizeOverhead) (hinv : StreamInv aead p r chunks) :
    ∃ r', r' < 2 ^ 64 ∧ p.recv.recvNonce = nonceOf r' ∧
      ∀ x, x.length = aeadSizeOverhead + totalFrameSize →
        ((∃ j text, j < 2 ^ 64 ∧ j ≠ r' ∧ x = aead.sealText (nonceOf j) text) ∨
          ∀ nonce text, x ≠ aead.sealText nonce text) →
        p.recv.recvBuffer = [] → ∀ len rest, read aead p.recv len (x ++ rest) = some (.error .decrypt, p.recv, rest) := by
  have hr : r < 2 ^ 64 := by
    have := hinv.counter
    omega
  refine ⟨r, hr, hinv.recvNonce, fun x hx hbad hbuf len rest => read_of_not_sealed h hbuf hx (fun text heq => ?_) len rest⟩
  rw [hinv.recvNonce] at heq
  rcases hbad with ⟨j, text', hj, hne, rfl⟩ | hnot
  · exact sealText_nonceOf_ne h hj hr hne text' text heq
  · exact hnot _ _ heq

/-! ## An ordered byte stream -/

/-- What the two ends of a secret connection guarantee.  The bytes read are a
prefix of the bytes written, and all of them once nothing is left on the
connection or in `recvBuffer`.  No nonce sealed twice.  A `Write` that returns
sealed one frame of `totalFrameSize + aeadSizeOverhead` bytes per
`dataMaxSize` bytes of its data, and returned its length.  The receiving end
expects the nonce of some counter `r`, and a `Read` with nothing buffered fails
on a frame sealed under any other counter (a replayed, dropped or reordered
frame) and on bytes that are no sealed text (an altered frame). -/
structure FaithfulStream (aead : Aead) (p : Pipe) : Prop where
  sound : p.readOut <+: p.written
  complete : p.conn = [] → p.recv.recvBuffer = [] → p.readOut = p.written
  nonces_nodup : p.nonces.Nodup
  write_frames : ∀ data frames nonce n, write aead p.sendNonce data = some (frames, nonce, n) →
    frames.length = (data.length + dataMaxSize - 1) / dataMaxSize ∧
      (∀ f ∈ frames, f.2.length = totalFrameSize + aeadSizeOverhead) ∧ n = data.length
  tamper : ∃ r, r < 2 ^ 64 ∧ p.recv.recvNonce = nonceOf r ∧
    ∀ x, x.length = aeadSizeOverhead + totalFrameSize →
      ((∃ j text, j < 2 ^ 64 ∧ j ≠ r ∧ x = aead.sealText (nonceOf j) text) ∨
        ∀ nonce text, x ≠ aead.sealText nonce text) →
      p.recv.recvBuffer = [] → ∀ len rest, read aead p.recv len (x ++ rest) = some (.error .decrypt, p.recv, rest)

theorem run_write_read_eq (h : Ideal aead aeadNonceSize aeadSizeOverhead) :
    Pipe.init.run aead [.write [1, 2], .read 1] =
      some ⟨nonceOf 1, [], ⟨nonceOf 1, [2]⟩, [1, 2], [1], [nonceOf 0]⟩ := by
  have hw : write aead Pipe.init.sendNonce [1, 2] =
      some ([(nonceOf 0, aead.sealText (nonceOf 0) (frameOf [1, 2]))], nonceOf 1, 2) := by
    rw [show Pipe.init.sendNonce = nonceOf 0 from nonceOf_zero.symm, write_nonceOf (by decide),
      chunksOf_of_le (by decide) (by decide), if_pos (by decide)]
    rfl
  rw [Pipe.run_cons (Pipe.step_write hw)]
  -- the one frame is opened, and the byte that does not fit is buffered
  have hread : read aead ⟨List.replicate aeadNonceSize 0, []⟩ 1 (aead.sealText (nonceOf 0) (frameOf [1, 2]) ++ []) =
      some (.ok [1], ⟨nonceOf 1, [2]⟩, []) :=
    read_frame h rfl nonceOf_zero.symm (by decide) (by decide) 1 []
  rw [Pipe.run_cons (Pipe.step_read hread)]
  rfl

theorem secretConnection_stream (h : Ideal aead aeadNonceSize aeadSizeOverhead) {steps : List PipeStep} {p : Pipe}
    (hrun : Pipe.init.run aead steps = some p) : FaithfulStream aead p := by
  obtain ⟨r, chunks, hinv⟩ := StreamInv.init.run h hrun
  exact ⟨hinv.readOut_prefix, hinv.readOut_eq h, hinv.nonces_nodup, fun _ _ _ _ hw => hinv.write_frames h hw,
    hinv.tamper h⟩

theorem secretConnection_stream_writeRead :
    Ideal (tagged aeadSizeOverhead) aeadNonceSize aeadSizeOverhead ∧
      ∃ p, Pipe.init.run (tagged aeadSizeOverhead) [.write [1, 2], .read 1] = some p ∧
        FaithfulStream (tagged aeadSizeOverhead) p :=
  ⟨tagged_ideal (by decide), _, run_write_read_eq (tagged_ideal (by decide)),
    secretConnection_stream (tagged_ideal (by decide)) (run_write_read_eq (tagged_ideal (by decide)))⟩

/-- Every frame has been read, and the bytes read are not all those written:
the end of the chunk waits in `recvBuffer`. -/
theorem stream_read_leaves_buffer :
    ∃ p, Pipe.init.run (tagged aeadSizeOverhead) [.write [1, 2], .read 1] = some p ∧
      p.conn = [] ∧ p.readOut ≠ p.written :=
  ⟨_, run_write_read_eq (tagged_ideal (by decide)), rfl, by decide⟩

end Ostracon.P2p.Conn
