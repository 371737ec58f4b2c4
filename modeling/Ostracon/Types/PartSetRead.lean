import Ostracon.Types.PartSet
/-!
# Reading a part set back

`PartSetReader.Read` delivers the bytes of the parts in order, whatever the
buffer sizes, as long as they are positive:

* `read_spec` — one call writes a prefix of what remains to be read; it fills
  the whole buffer unless it returns EOF, and EOF means nothing remains;
* `readToEOF_eq_remaining` — reading to EOF with positive buffers that are
  large enough in total yields exactly the bytes that remained.

A zero-length buffer is different: at the end of a part it makes the
`bytes.Reader` report EOF although later parts are unread.  `io.ReadAll`
never offers one.
-/

namespace Ostracon.Types

open Ostracon.Crypto.Merkle

/-- The bytes a reader still has to deliver: the rest of the current part
and every later part. -/
def PartSetReader.remaining (psr : PartSetReader) : Bytes :=
  psr.reader.s.drop psr.reader.i ++ (psr.parts.drop (psr.i + 1)).flatMap Part.bytes

theorem BytesReader.read_of_le (r : BytesReader) {m : Nat} (hm : 0 < m) (hlen : m ≤ r.len) :
    r.read m = (((r.s.drop r.i).take m, none), { r with i := r.i + m }) := by
  have hlt : r.i < r.s.length := by unfold BytesReader.len at hlen; omega
  have htake : ((r.s.drop r.i).take m).length = m := by
    rw [List.length_take, List.length_drop]
    unfold BytesReader.len at hlen
    omega
  rw [BytesReader.read, if_neg (by omega)]
  simp only [htake]

theorem BytesReader.drop_eq_take_append (r : BytesReader) (m : Nat) :
    r.s.drop r.i = (r.s.drop r.i).take m ++ r.s.drop (r.i + m) := by
  rw [← List.drop_drop, List.take_append_drop]

theorem remaining_of_len_eq_zero {psr : PartSetReader} (h : psr.reader.len = 0) :
    psr.remaining = (psr.parts.drop (psr.i + 1)).flatMap Part.bytes := by
  have hdrop : psr.reader.s.drop psr.reader.i = [] := by
    unfold BytesReader.len at h
    exact List.drop_eq_nil_of_le (by omega)
  rw [PartSetReader.remaining, hdrop, List.nil_append]

theorem remaining_next_part {psr : PartSetReader} (h : psr.reader.len = 0)
    (hi : psr.i + 1 < psr.parts.length) :
    ({ psr with i := psr.i + 1, reader := ⟨psr.parts[psr.i + 1].bytes, 0⟩ } :
      PartSetReader).remaining = psr.remaining := by
  rw [remaining_of_len_eq_zero h, List.drop_eq_getElem_cons hi]
  simp only [PartSetReader.remaining, List.drop_zero, List.flatMap_cons]

/-- One call of `Read` with a positive buffer: it writes a prefix of what
remains; without an error it fills the buffer; an error is EOF and comes
only once nothing remains. -/
theorem read_spec (psr : PartSetReader) (m : Nat) (hm : 0 < m) :
    psr.remaining = (psr.read m).n ++ (psr.read m).next.remaining ∧
      ((psr.read m).err = none → (psr.read m).n.length = m) ∧
      ((psr.read m).err ≠ none → (psr.read m).next.remaining = []) := by
  induction psr, m using PartSetReader.read.induct with
  | case1 psr m _ hle =>
      -- the current part holds the whole buffer
      rw [PartSetReader.read, if_pos hle]
      simp only [BytesReader.read_of_le psr.reader hm hle]
      refine ⟨?_, fun _ => ?_, fun h => absurd rfl h⟩
      · simp only [PartSetReader.remaining]
        rw [← List.append_assoc, ← BytesReader.drop_eq_take_append psr.reader m]
      · have hlen : m ≤ psr.reader.s.length - psr.reader.i := hle
        rw [List.length_take, List.length_drop]
        omega
  | case2 psr m rl hle hpos n1 err next1 hp1 hi1 heq ih =>
      -- the first call already failed; `Read` passes its error on
      simp only [rl] at hle hpos heq ih
      rw [PartSetReader.read, if_neg hle, if_pos hpos, heq]
      obtain ⟨hrem, -, heof⟩ := ih hpos
      rw [heq] at hrem heof
      exact ⟨hrem, fun h => absurd h (by simp), fun _ => heof (by simp)⟩
  | case3 psr m rl hle hpos n1 next1 hp1 hi1 heq ih1 ih2 _ =>
      -- both calls filled their part of the buffer
      simp only [rl] at hle hpos heq ih1 ih2
      rw [PartSetReader.read, if_neg hle, if_pos hpos, heq]
      obtain ⟨hrem1, hlen1, -⟩ := ih1 hpos
      rw [heq] at hrem1 hlen1
      obtain ⟨hrem2, hlen2, heof2⟩ := ih2 (by omega)
      refine ⟨?_, fun h => ?_, heof2⟩
      · rw [hrem1, hrem2, List.append_assoc]
      · rw [List.length_append, hlen1 rfl, hlen2 h]
        omega
  | case4 psr m _ hle hpos hlast =>
      -- the last part is exhausted: EOF
      rw [PartSetReader.read, if_neg hle, if_neg hpos, dif_pos hlast]
      have hlen : psr.reader.len = 0 := by omega
      have hdone : ∀ k, psr.i + 1 ≤ k → (psr.parts.drop k).flatMap Part.bytes = [] := by
        intro k hk
        rw [List.drop_eq_nil_of_le (by omega), List.flatMap_nil]
      have hnext : ({ psr with i := psr.i + 1 } : PartSetReader).remaining = [] := by
        rw [remaining_of_len_eq_zero
          (show ({ psr with i := psr.i + 1 } : PartSetReader).reader.len = 0 from hlen)]
        exact hdone _ (Nat.le_succ _)
      refine ⟨?_, fun h => absurd h (by simp), fun _ => hnext⟩
      rw [remaining_of_len_eq_zero hlen, hdone _ (Nat.le_refl _)]
      dsimp only
      rw [hnext]
      rfl
  | case5 psr m _ hle hpos hnext ih =>
      -- the current part is exhausted: go on with the next one
      rw [PartSetReader.read, if_neg hle, if_neg hpos, dif_neg hnext]
      have hlen : psr.reader.len = 0 := by omega
      rw [← remaining_next_part hlen (by omega)]
      exact ih hm

theorem readToEOF_eq_remaining (psr : PartSetReader) (ms : List Nat) (hms : ∀ m ∈ ms, 0 < m)
    (hsize : psr.remaining.length < ms.sum) :
    psr.readToEOF ms = some psr.remaining := by
  induction ms generalizing psr with
  | nil => simp at hsize
  | cons m ms ih =>
      have hm : 0 < m := hms m List.mem_cons_self
      obtain ⟨hrem, hfull, heof⟩ := read_spec psr m hm
      rw [PartSetReader.readToEOF]
      cases herr : (psr.read m).err with
      | some e =>
          simp only
          rw [hrem, heof (by simp [herr]), List.append_nil]
      | none =>
          -- a full buffer was read, so the rest fits in the remaining buffers
          have hlen := congrArg List.length hrem
          rw [List.length_append, hfull herr] at hlen
          simp only
          rw [ih (psr.read m).next (fun m' hm' => hms m' (List.mem_cons_of_mem _ hm'))
            (by simp only [List.sum_cons] at hsize; omega), Option.map_some, ← hrem]

theorem newPartSetReader_remaining (parts : List Part) (h : parts ≠ []) :
    (newPartSetReader parts h).remaining = parts.flatMap Part.bytes := by
  match parts, h with
  | p :: ps, _ => simp [newPartSetReader, PartSetReader.remaining]

end Ostracon.Types
