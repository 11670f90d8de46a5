import BlobUpload.BlockId
import BlobUpload.Cutter
import BlobUpload.Proofs.Cipher.PieceIndependence
import BlobUpload.Proofs.Cutter.SpanCover
import BlobUpload.Proofs.Source.HeldBytes

/-! # What a cutter makes of a reader

`Cutter.toList` is followed one reading at a time: `toList_of_chunk` and those beside it say how the
list begins, and `reading_induction` is the induction that goes with it. What a reading brings is
the next chunk's worth of the bytes that the cutter may read (`reading_of_holds`), and whatever the
reader does, the chunks follow one another (`consecutive_toList`). -/

namespace BlobUpload

namespace Cutter

section Readings

variable {ρ : Type} [Reader ρ]

/-- The cutter after one more reading. -/
def afterReading (k : Cutter) (r : ρ) : Cutter := (k.absorb (readUpTo k.limit r).1.result).2

theorem toList_of_next_none {k k' : Cutter} {r r' : ρ} (h : k.next r = (none, k', r')) :
    k.toList r = ([], k', r') := by
  rw [toList]
  split
  · rw [h]
  · rename_i hfound
    rw [h] at hfound
    cases hfound

theorem toList_of_next_some {k k' : Cutter} {r r' : ρ} {answer : Except UploadError Chunk}
    (h : k.next r = (some answer, k', r')) :
    k.toList r = (answer :: (k'.toList r').1, (k'.toList r').2) := by
  rw [toList]
  split
  · rename_i hfound
    rw [h] at hfound
    cases hfound
  · rename_i hfound
    rw [h] at hfound
    cases hfound
    simp only [h]

theorem toList_of_finished {k : Cutter} (h : k.finished = true) (r : ρ) :
    k.toList r = ([], k, r) :=
  toList_of_next_none (by rw [next, if_pos h])

theorem next_of_absorb {k : Cutter} (h : k.finished = false) {r : ρ} {cut : Cut} {k' : Cutter}
    (hstep : k.absorb (readUpTo k.limit r).1.result = (cut, k')) :
    k.next r =
      match cut with
      | .chunk c => (some (.ok c), k', (readUpTo k.limit r).2)
      | .failed e => (some (.error e), k', (readUpTo k.limit r).2)
      | .done => (none, k', (readUpTo k.limit r).2)
      | .more => k'.next (readUpTo k.limit r).2 := by
  rw [next, if_neg (by simp [h])]
  split <;> (rename_i heq; rw [hstep] at heq; cases heq; rfl)

/-- A reading that fills a chunk puts it in front of the answers that follow. -/
theorem toList_of_chunk {k k' : Cutter} (h : k.finished = false) {r : ρ} {c : Chunk}
    (hstep : k.absorb (readUpTo k.limit r).1.result = (.chunk c, k')) :
    k.toList r = (.ok c :: (k'.toList (readUpTo k.limit r).2).1,
      (k'.toList (readUpTo k.limit r).2).2) :=
  toList_of_next_some (next_of_absorb h hstep)

theorem toList_of_failed {k k' : Cutter} (h : k.finished = false) {r : ρ} {e : UploadError}
    (hstep : k.absorb (readUpTo k.limit r).1.result = (.failed e, k')) :
    k.toList r = (.error e :: (k'.toList (readUpTo k.limit r).2).1,
      (k'.toList (readUpTo k.limit r).2).2) :=
  toList_of_next_some (next_of_absorb h hstep)

theorem toList_of_done {k k' : Cutter} (h : k.finished = false) {r : ρ}
    (hstep : k.absorb (readUpTo k.limit r).1.result = (.done, k')) :
    k.toList r = ([], k', (readUpTo k.limit r).2) :=
  toList_of_next_none (next_of_absorb h hstep)

/-- A reading too short for a cipher block leaves no trace in the answers. -/
theorem toList_of_more {k k' : Cutter} (h : k.finished = false) {r : ρ}
    (hstep : k.absorb (readUpTo k.limit r).1.result = (.more, k')) :
    k.toList r = k'.toList (readUpTo k.limit r).2 := by
  have hnext := next_of_absorb h hstep
  match heq : k'.next (readUpTo k.limit r).2 with
  | (none, _, _) => rw [toList_of_next_none heq, toList_of_next_none (hnext.trans heq)]
  | (some _, _, _) => rw [toList_of_next_some heq, toList_of_next_some (hnext.trans heq)]

/-- Induction along the readings of a cutter, up to the one that ends it. -/
@[elab_as_elim]
theorem reading_induction {P : Cutter → ρ → Prop}
    (finished : ∀ k r, k.finished = true → P k r)
    (reading : ∀ k r, k.finished = false → P (k.afterReading r) (readUpTo k.limit r).2 → P k r)
    (k : Cutter) (r : ρ) : P k r := by
  induction hsize : k.budget r using Nat.strongRecOn generalizing k r with
  | ind n ih =>
      subst hsize
      cases h : k.finished with
      | true => exact finished k r h
      | false => exact reading k r h (ih _ (budget_absorb_lt (by simp [h])) _ _ rfl)

end Readings

/-! ## Bytes in scope -/

/-- The part of the bytes ahead that a cutter may still read. -/
def scope (k : Cutter) (bytes : Bytes) : Bytes :=
  match k.remaining with
  | some left => bytes.take left
  | none => bytes

/-- The chunks that a cutter without a cipher makes of the bytes in its scope. The last of them is
known to be one if it is short, or if it ends where the cutter has to end. -/
def pieces (k : Cutter) (data : Bytes) : List Chunk :=
  (Span.cover data.length k.chunkSize).map fun s =>
    { offset := k.offset + s.start
      payload := data.slice s
      isLast := s.stop = data.length &&
        (data.length % k.chunkSize ≠ 0 || k.remaining = some data.length) }

theorem take_limit (k : Cutter) (bytes : Bytes) :
    bytes.take k.limit = (k.scope bytes).take k.chunkSize := by
  rw [limit, scope]
  cases k.remaining with
  | some left =>
      change _ = (bytes.take left).take k.chunkSize
      rw [List.take_take, Nat.min_comm]
  | none => rfl

theorem max_chunkSize (k : Cutter) : max k.chunkSize 1 = k.chunkSize :=
  Nat.max_eq_left k.chunkSize_pos

theorem pieces_nil (k : Cutter) : k.pieces [] = [] := by
  rw [pieces, List.length_nil, Span.cover_zero, List.map_nil]

/-- Less than a chunk's worth of bytes is one piece, and known to be the last. -/
theorem pieces_of_short {k : Cutter} {data : Bytes} (hne : data ≠ [])
    (hshort : data.length < k.chunkSize) : k.pieces data = [⟨k.offset, data, true⟩] := by
  have hpos := List.length_pos_iff.2 hne
  rw [pieces, Span.cover_of_pos _ hpos, max_chunkSize, Nat.sub_eq_zero_of_le (Nat.le_of_lt hshort),
    Span.cover_zero, Nat.min_eq_right (Nat.le_of_lt hshort), List.map_nil, List.map_singleton,
    Bytes.slice_zero, List.take_length]
  simp [Nat.mod_eq_of_lt hshort, Nat.pos_iff_ne_zero.1 hpos]

/-- A chunk's worth of bytes or more begins with a full piece. -/
theorem pieces_of_full {k k' : Cutter} {data : Bytes} (hfull : k.chunkSize ≤ data.length)
    (hsize : k'.chunkSize = k.chunkSize) (hoffset : k'.offset = k.offset + k.chunkSize)
    (hremaining : k'.remaining = k.remaining.map (· - k.chunkSize)) :
    k.pieces data =
      ⟨k.offset, data.take k.chunkSize,
        data.length = k.chunkSize && k.remaining = some k.chunkSize⟩ ::
        k'.pieces (data.drop k.chunkSize) := by
  have hpos := k.chunkSize_pos
  rw [pieces, Span.cover_of_pos _ (by omega), max_chunkSize, Nat.min_eq_left hfull,
    List.map_cons, Bytes.slice_zero, List.map_map, pieces, List.length_drop, hsize]
  congr 1
  · rcases Nat.eq_or_lt_of_le hfull with hsame | hlong
    · simp [← hsame]
    · simp [Nat.ne_of_lt hlong, Nat.ne_of_gt hlong]
  · apply List.map_congr_left
    intro s hs
    have hlong : k.chunkSize < data.length := by
      apply Nat.lt_of_le_of_ne hfull
      intro hsame
      rw [hsame, Nat.sub_self, Span.cover_zero] at hs
      cases hs
    have hpast : data.length % k.chunkSize = (data.length - k.chunkSize) % k.chunkSize :=
      Nat.mod_eq_sub_mod hfull
    have hstop : s.stop + k.chunkSize = data.length ↔ s.stop = data.length - k.chunkSize := by
      omega
    have hknown : k.remaining = some data.length ↔
        k.remaining.map (· - k.chunkSize) = some (data.length - k.chunkSize) := by
      cases k.remaining with
      | none => simp
      | some left =>
          simp only [Option.map_some, Option.some.injEq]
          omega
    simp only [Function.comp_apply, Bytes.slice_shift]
    simp only [Span.shift, hoffset, hremaining, hpast, hstop, hknown, Nat.add_assoc,
      Nat.add_comm s.start]

theorem length_scope_le {k : Cutter} {left : Nat} (h : k.remaining = some left) (bytes : Bytes) :
    (k.scope bytes).length ≤ left := by
  rw [scope, h]
  exact List.length_take_le _ _

/-- A full reading asks for a chunk's worth of bytes. -/
theorem limit_of_full {k : Cutter} {bytes : Bytes} (hfull : k.chunkSize ≤ (k.scope bytes).length) :
    k.limit = k.chunkSize := by
  cases hknown : k.remaining with
  | none => simp only [limit, hknown]
  | some left =>
      have hle := length_scope_le hknown bytes
      simp only [limit, hknown]
      omega

/-- A reading brings the next chunk's worth of the bytes in scope, and the reader holds the rest
behind a full one. -/
theorem reading_of_holds {ρ : Type} [Reader ρ] {r : ρ} {held : Bytes} (h : Reader.Holds r held)
    (k : Cutter) :
    (readUpTo k.limit r).1 = ⟨(k.scope held).take k.chunkSize, none⟩ ∧
      (k.chunkSize ≤ (k.scope held).length →
        Reader.Holds (readUpTo k.limit r).2 (held.drop k.chunkSize)) := by
  obtain ⟨hfill, hbehind⟩ := readUpTo_of_holds h k.limit
  rw [take_limit] at hfill
  refine ⟨hfill, fun hfull => ?_⟩
  have hlimit := limit_of_full hfull
  have hinside := congrArg List.length (k.take_limit held)
  rw [hlimit, List.length_take, List.length_take] at hinside
  rw [← hlimit]
  apply hbehind
  omega

/-- After a full reading the rest of the scope lies ahead. -/
theorem scope_of_full {k k' : Cutter} {bytes : Bytes} (hfull : k.chunkSize ≤ (k.scope bytes).length)
    (hremaining : k'.remaining = k.remaining.map (· - k.chunkSize)) :
    k'.scope (bytes.drop k.chunkSize) = (k.scope bytes).drop k.chunkSize := by
  rw [scope, hremaining]
  cases hknown : k.remaining with
  | none => simp only [Option.map_none, scope, hknown]
  | some left =>
      have hle := Nat.le_trans hfull (length_scope_le hknown bytes)
      simp only [Option.map_some, scope, hknown, List.drop_take]

/-! ## Without a cipher -/

/-- What a cutter without a cipher makes of a reading. -/
theorem absorb_plain {k : Cutter} (hplain : k.cipher = none) {data : Bytes} (hne : data ≠ []) :
    k.absorb (.ok data) =
      emit data (data.length < k.chunkSize || k.remaining.map (· - data.length) = some 0)
        { k with remaining := k.remaining.map (· - data.length) } := by
  simp only [absorb, hplain, if_neg hne]

theorem absorb_plain_nil {k : Cutter} (hplain : k.cipher = none) :
    ∃ k', k.absorb (.ok []) = (.done, k') := by
  simp only [absorb, hplain, if_true]
  exact ⟨_, rfl⟩

/-- A full reading becomes a chunk, and the cutter goes on behind it unless that was all. -/
theorem absorb_plain_full {k : Cutter} (hplain : k.cipher = none) {data : Bytes}
    (hfull : data.length = k.chunkSize) :
    ∃ k', k.absorb (.ok data) =
        (.chunk ⟨k.offset, data, k.remaining.map (· - k.chunkSize) = some 0⟩, k') ∧
      k'.chunkSize = k.chunkSize ∧ k'.offset = k.offset + k.chunkSize ∧
      k'.remaining = k.remaining.map (· - k.chunkSize) ∧ k'.cipher = none ∧
      (k'.finished = true ↔ k.remaining.map (· - k.chunkSize) = some 0) := by
  have hpos := k.chunkSize_pos
  have hne : data ≠ [] := List.length_pos_iff.1 (hfull ▸ hpos)
  rw [absorb_plain hplain hne, hfull, decide_eq_false (Nat.lt_irrefl _), Bool.false_or]
  exact ⟨_, rfl, rfl, congrArg (k.offset + ·) hfull, rfl, hplain, by simp⟩

/-! ## With a cipher -/

theorem encrypt_of_finalized {k : Cutter} {stream : CipherStream} (hused : stream.finalized = true)
    (data : Bytes) :
    k.encrypt stream data =
      (.failed (.encoding .finalized), finish { k with cipher := some stream }) := by
  obtain ⟨hupdate, hfinalize⟩ := CipherStream.refuses_of_finalized hused data
  simp only [encrypt, hupdate, hfinalize, ite_self]

/-- A short reading finalizes the cipher, and the cutter ends. -/
theorem encrypt_of_short {k : Cutter} {stream : CipherStream} (hfresh : stream.finalized = false)
    {data : Bytes} (hshort : data.length < k.chunkSize) :
    ∃ final used, stream.finalize data = (.ok final, used) ∧
      k.encrypt stream data = emit final true { k with cipher := some used } := by
  obtain ⟨used, hfinalize, -⟩ := CipherStream.finalize_eq hfresh data
  refine ⟨_, used, hfinalize, ?_⟩
  simp only [encrypt, hshort, decide_true, if_true, hfinalize, Bool.not_true, Bool.and_false,
    Bool.false_eq_true, if_false]

/-- A full reading updates the cipher. If that fills no block, more has to be read. -/
theorem encrypt_of_full {k : Cutter} {stream : CipherStream} (hfresh : stream.finalized = false)
    {data : Bytes} (hfull : k.chunkSize ≤ data.length) :
    ∃ out stream', stream.update data = (.ok out, stream') ∧
      k.encrypt stream data =
        if out = [] then (.more, { k with cipher := some stream' })
        else emit out false { k with cipher := some stream' } := by
  obtain ⟨out, stream', hupdate, -⟩ := CipherStream.update_eq hfresh data
  refine ⟨out, stream', hupdate, ?_⟩
  simp only [encrypt, Nat.not_lt.2 hfull, decide_false, hupdate, Bool.false_eq_true, if_false,
    Bool.not_false, Bool.and_true, decide_eq_true_eq]

/-! ## Offsets -/

theorem encrypt_chunk {k k' : Cutter} {stream : CipherStream} {data : Bytes} {c : Chunk}
    (hstep : k.encrypt stream data = (.chunk c, k')) :
    c.offset = k.offset ∧ c.payload ≠ [] ∧ k'.offset = c.stop := by
  cases hfresh : stream.finalized with
  | true =>
      rw [encrypt_of_finalized hfresh] at hstep
      cases hstep
  | false =>
      rcases Nat.lt_or_ge data.length k.chunkSize with hshort | hfull
      · obtain ⟨final, used, hfinalize, hencrypted⟩ := encrypt_of_short hfresh hshort
        rw [hencrypted] at hstep
        cases hstep
        refine ⟨rfl, ?_, rfl⟩
        rw [(CipherStream.of_finalize hfinalize).1]
        exact stream.ciphertext_ne_nil data
      · obtain ⟨out, stream', -, hencrypted⟩ := encrypt_of_full hfresh hfull
        rw [hencrypted] at hstep
        split at hstep
        · cases hstep
        · rename_i hne
          cases hstep
          exact ⟨rfl, hne, rfl⟩

/-- A chunk begins where the cutter stands, is not empty, and the cutter moves behind it. -/
theorem absorb_chunk {k k' : Cutter} {answer : Except SourceError Bytes} {c : Chunk}
    (hstep : k.absorb answer = (.chunk c, k')) :
    c.offset = k.offset ∧ c.payload ≠ [] ∧ k'.offset = c.stop := by
  match answer with
  | .error e => cases hstep
  | .ok data =>
      simp only [absorb] at hstep
      split at hstep
      · have hbuilt := encrypt_chunk hstep
        exact hbuilt
      · split at hstep
        · cases hstep
        · rename_i hne
          cases hstep
          exact ⟨rfl, hne, rfl⟩

theorem offset_of_more {k k' : Cutter} {answer : Except SourceError Bytes}
    (hstep : k.absorb answer = (.more, k')) : k'.offset = k.offset := by
  match answer with
  | .error e => cases hstep
  | .ok data =>
      simp only [absorb] at hstep
      split at hstep
      · simp only [encrypt] at hstep
        split at hstep
        · cases hstep
        · split at hstep
          · cases hstep
            rfl
          · cases hstep
      · split at hstep <;> cases hstep

theorem finished_of_failed {k k' : Cutter} {answer : Except SourceError Bytes} {e : UploadError}
    (hstep : k.absorb answer = (.failed e, k')) : k'.finished = true := by
  match answer with
  | .error e => cases hstep; rfl
  | .ok data =>
      simp only [absorb] at hstep
      split at hstep
      · simp only [encrypt] at hstep
        split at hstep
        · cases hstep
          rfl
        · split at hstep <;> cases hstep
      · split at hstep <;> cases hstep

/-! ## Failures -/

/-- The cipher of a cutter that goes on has not been finalized. -/
def Fresh (k : Cutter) : Prop :=
  k.finished = false → ∀ stream, k.cipher = some stream → stream.finalized = false

theorem fresh_of_finished {k : Cutter} (hfinished : k.finished = true) : k.Fresh :=
  fun hunfinished => by cases hfinished.symm.trans hunfinished

theorem fresh_of_plain {k : Cutter} (hplain : k.cipher = none) : k.Fresh :=
  fun _ _ hcipher => by cases hplain.symm.trans hcipher

/-- A cipher that is not finalized never fails, and only the last piece finalizes it. -/
theorem fresh_encrypt {k : Cutter} {stream : CipherStream} (hfresh : stream.finalized = false)
    (data : Bytes) :
    (k.encrypt stream data).2.Fresh ∧ ∀ e, (k.encrypt stream data).1 ≠ .failed e := by
  rcases Nat.lt_or_ge data.length k.chunkSize with hshort | hfull
  · obtain ⟨final, used, -, hencrypted⟩ := encrypt_of_short hfresh hshort
    rw [hencrypted]
    exact ⟨fresh_of_finished rfl, fun _ hfailed => by cases hfailed⟩
  · obtain ⟨out, stream', hupdate, hencrypted⟩ := encrypt_of_full hfresh hfull
    obtain ⟨-, hfresh', -⟩ := CipherStream.of_update hupdate
    have hgoesOn : ∀ k' : Cutter, k'.cipher = some stream' → k'.Fresh := by
      intro k' hcipher _ stream'' hsame
      cases hcipher.symm.trans hsame
      exact hfresh'
    rw [hencrypted]
    split
    · exact ⟨hgoesOn _ rfl, fun _ hfailed => by cases hfailed⟩
    · exact ⟨hgoesOn _ rfl, fun _ hfailed => by cases hfailed⟩

/-- A cutter fails only because its source does. -/
theorem fresh_absorb {k : Cutter} (hfresh : k.Fresh) (hunfinished : k.finished = false)
    (answer : Except SourceError Bytes) :
    (k.absorb answer).2.Fresh ∧
      ∀ e, (k.absorb answer).1 = .failed e → ∃ cause, e = .source k.offset cause := by
  cases answer with
  | error cause =>
      refine ⟨fresh_of_finished rfl, fun e hsame => ⟨cause, ?_⟩⟩
      cases hsame
      rfl
  | ok data =>
      cases hcipher : k.cipher with
      | some stream =>
          simp only [absorb, hcipher]
          obtain ⟨hfresh', hsucceeds⟩ := fresh_encrypt
            (k := { k with remaining := k.remaining.map (· - data.length) })
            (hfresh hunfinished stream hcipher) data
          exact ⟨hfresh', fun e hfailed => absurd hfailed (hsucceeds e)⟩
      | none =>
          simp only [absorb, hcipher]
          split
          · exact ⟨fresh_of_finished rfl, fun _ hfailed => by cases hfailed⟩
          · exact ⟨fresh_of_plain rfl, fun _ hfailed => by cases hfailed⟩

/-- Whatever a cutter answers but chunks are failures of the source. -/
theorem source_of_mem_toList {ρ : Type} [Reader ρ] {k : Cutter} {r : ρ} (hfresh : k.Fresh)
    {e : UploadError} (hmem : .error e ∈ (k.toList r).1) :
    ∃ offset cause, e = .source offset cause := by
  induction k, r using reading_induction with
  | finished k r hfinished =>
      rw [toList_of_finished hfinished] at hmem
      cases hmem
  | reading k r hunfinished ih =>
      obtain ⟨hfresh', hfails⟩ := fresh_absorb hfresh hunfinished (readUpTo k.limit r).1.result
      rw [afterReading] at ih
      rcases hstep : k.absorb (readUpTo k.limit r).1.result with ⟨cut, k'⟩
      rw [hstep] at ih hfresh' hfails
      cases cut with
      | chunk c =>
          rw [toList_of_chunk hunfinished hstep] at hmem
          exact ih hfresh' ((List.mem_cons.1 hmem).resolve_left fun hsame => by cases hsame)
      | failed e' =>
          rw [toList_of_failed hunfinished hstep] at hmem
          rcases List.mem_cons.1 hmem with hsame | hmem
          · cases hsame
            obtain ⟨cause, rfl⟩ := hfails e rfl
            exact ⟨k.offset, cause, rfl⟩
          · exact ih hfresh' hmem
      | more =>
          rw [toList_of_more hunfinished hstep] at hmem
          exact ih hfresh' hmem
      | done =>
          rw [toList_of_done hunfinished hstep] at hmem
          cases hmem

end Cutter

/-- The chunks begin at `offset`, none of them is empty, and each follows the one before it. -/
def Chunk.Consecutive : (offset : Nat) → List Chunk → Prop
  | _, [] => True
  | offset, c :: cs => c.offset = offset ∧ c.payload ≠ [] ∧ Consecutive c.stop cs

/-- The chunks among the answers of a cutter. -/
def Chunk.ofAnswers (answers : List (Except UploadError Chunk)) : List Chunk :=
  answers.filterMap Except.toOption

theorem Chunk.ofAnswers_map_ok (cs : List Chunk) : ofAnswers (cs.map .ok) = cs := by
  induction cs with
  | nil => rfl
  | cons c cs ih => exact congrArg (c :: ·) ih

namespace Cutter

theorem mem_pieces {k : Cutter} {data : Bytes} {c : Chunk} (h : c ∈ k.pieces data) :
    ∃ i < Span.count data.length k.chunkSize, c.offset = k.offset + i * max k.chunkSize 1 ∧
      c.payload = data.slice (Span.nth data.length k.chunkSize i) := by
  obtain ⟨s, hs, rfl⟩ := List.mem_map.1 h
  obtain ⟨i, hi, rfl⟩ := Span.mem_cover.1 hs
  exact ⟨i, hi, rfl, rfl⟩

/-- Put together the pieces are the whole. -/
theorem flatMap_payload_pieces (k : Cutter) (data : Bytes) :
    (k.pieces data).flatMap Chunk.payload = data := by
  rw [pieces, List.flatMap_map]
  exact (data.flatMap_slice_cover data.length k.chunkSize).trans List.take_length

theorem length_pieces (k : Cutter) (data : Bytes) :
    (k.pieces data).length = Span.count data.length k.chunkSize := by
  rw [pieces, List.length_map, Span.length_cover]

theorem consecutive_pieces (k : Cutter) (data : Bytes) :
    Chunk.Consecutive k.offset (k.pieces data) := by
  induction hlen : data.length using Nat.strongRecOn generalizing k data with
  | ind n ih =>
      subst hlen
      have hpos := k.chunkSize_pos
      by_cases hnone : data = []
      · rw [hnone, pieces_nil]
        trivial
      rcases Nat.lt_or_ge data.length k.chunkSize with hshort | hfull
      · rw [pieces_of_short hnone hshort]
        exact ⟨rfl, hnone, trivial⟩
      · let next : Cutter :=
          { k with
            offset := k.offset + k.chunkSize, remaining := k.remaining.map (· - k.chunkSize) }
        have hsize := List.length_take_of_le hfull
        rw [show k.pieces data = _ :: next.pieces (data.drop k.chunkSize) from
          pieces_of_full hfull rfl rfl rfl]
        refine ⟨rfl, List.length_pos_iff.1 (by rw [hsize]; exact hpos), ?_⟩
        have hrest := ih _ (by rw [List.length_drop]; omega) next (data.drop k.chunkSize) rfl
        rwa [Chunk.stop, Chunk.length, hsize]

end Cutter

/-- Whatever its reader does, a cutter answers consecutive chunks. -/
theorem Cutter.consecutive_toList {ρ : Type} [Reader ρ] (k : Cutter) (r : ρ) :
    Chunk.Consecutive k.offset (Chunk.ofAnswers (k.toList r).1) := by
  induction k, r using reading_induction with
  | finished k r hfinished =>
      rw [toList_of_finished hfinished]
      trivial
  | reading k r hunfinished ih =>
      match hstep : k.absorb (readUpTo k.limit r).1.result with
      | (.chunk c, k') =>
          obtain ⟨hstart, hne, hnext⟩ := absorb_chunk hstep
          rw [afterReading, hstep, hnext] at ih
          rw [toList_of_chunk hunfinished hstep]
          exact ⟨hstart, hne, ih⟩
      | (.failed e, k') =>
          rw [toList_of_failed hunfinished hstep, toList_of_finished (finished_of_failed hstep)]
          trivial
      | (.done, k') =>
          rw [toList_of_done hunfinished hstep]
          trivial
      | (.more, k') =>
          rw [afterReading, hstep, offset_of_more hstep] at ih
          rwa [toList_of_more hunfinished hstep]

/-- Whatever the source does, the chunks that a cutter without a cipher makes of it are the front of
what is left. -/
theorem Cutter.toList_front {k : Cutter} (hplain : k.cipher = none) (s : Source) :
    (Chunk.ofAnswers (k.toList s).1).flatMap Chunk.payload <+: s.rest := by
  induction k, s using reading_induction with
  | finished k s hfinished =>
      rw [toList_of_finished hfinished]
      exact List.nil_prefix
  | reading k s hunfinished ih =>
      obtain ⟨hfront, hadv⟩ := Source.readUpTo_advances k.limit s
      rw [afterReading] at ih
      cases hfailure : (readUpTo k.limit s).1.failure with
      | some e =>
          have hresult : (readUpTo k.limit s).1.result = .error e := by rw [Fill.result, hfailure]
          rw [toList_of_failed hunfinished (by rw [hresult]; rfl), toList_of_finished rfl]
          exact List.nil_prefix
      | none =>
          have hresult : (readUpTo k.limit s).1.result = .ok (readUpTo k.limit s).1.bytes := by
            rw [Fill.result, hfailure]
          by_cases hnone : (readUpTo k.limit s).1.bytes = []
          · obtain ⟨k', hdone⟩ := absorb_plain_nil hplain
            rw [toList_of_done hunfinished (by rw [hresult, hnone, hdone])]
            exact List.nil_prefix
          · have hstep := absorb_plain hplain hnone
            rw [hresult, hstep, hadv.rest] at ih
            rw [toList_of_chunk hunfinished (by rw [hresult, hstep]; rfl)]
            have hown := List.prefix_iff_eq_take.1 (hfront.trans (List.take_prefix _ s.rest))
            have hwhole := List.take_append_drop (readUpTo k.limit s).1.bytes.length s.rest
            rw [← hown] at hwhole
            obtain ⟨tail, hjoined⟩ := ih hplain
            refine ⟨tail, Eq.trans ?_ hwhole⟩
            change ((readUpTo k.limit s).1.bytes ++ List.flatMap Chunk.payload _) ++ tail = _
            rw [List.append_assoc]
            exact congrArg _ hjoined

end BlobUpload
