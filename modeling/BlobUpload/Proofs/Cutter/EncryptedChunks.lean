import BlobUpload.Proofs.Cipher.PieceIndependence
import BlobUpload.Proofs.Cutter.CallSequence
import BlobUpload.Proofs.Source.HeldBytes

/-! # Chunks of an encrypted reader

A cutter with a cipher updates it with every full chunk that it reads, and finalizes it with the
shorter rest (`exists_feeds`). An update that fills no cipher block answers nothing, and the cutter
reads on; for one answer it never takes more chunks than fill a block (`delivered_after_le`). -/

namespace BlobUpload

/-! ## Feeding a stream -/

/-- The stream is updated with pieces of `size` bytes and finalized with the shorter rest of the
data. The updates answer `outs`, and finalizing `final`. -/
inductive CipherStream.Feeds (size : Nat) :
    CipherStream → Bytes → List Bytes → Bytes → CipherStream → Prop
  | finalize {s used : CipherStream} {rest final : Bytes} (hshort : rest.length < size)
      (hstep : s.finalize rest = (.ok final, used)) : Feeds size s rest [] final used
  | update {s s' used : CipherStream} {piece rest out final : Bytes} {outs : List Bytes}
      (hfull : piece.length = size) (hstep : s.update piece = (.ok out, s'))
      (hbehind : Feeds size s' rest outs final used) :
      Feeds size s (piece ++ rest) (out :: outs) final used

namespace CipherStream

namespace Feeds

variable {size : Nat} {s used : CipherStream} {data final : Bytes} {outs : List Bytes}

/-- Put together, the answers are the encryption of the data at once. -/
theorem flatten_append (h : Feeds size s data outs final used) :
    outs.flatten ++ final = s.ciphertext data := by
  induction h with
  | finalize hshort hstep => exact (of_finalize hstep).1
  | update hfull hstep hbehind ih =>
      obtain ⟨-, -, -, -, hlaw⟩ := of_update hstep
      rw [List.flatten_cons, List.append_assoc, ih, hlaw]

theorem finalized (h : Feeds size s data outs final used) : used.finalized = true := by
  induction h with
  | finalize hshort hstep => exact (of_finalize hstep).2
  | update hfull hstep hbehind ih => exact ih

theorem final_ne_nil (h : Feeds size s data outs final used) : final ≠ [] := by
  induction h with
  | @finalize s used rest final hshort hstep =>
      rw [(of_finalize hstep).1]
      exact s.ciphertext_ne_nil rest
  | update hfull hstep hbehind ih => exact ih

/-- Every answer is a whole number of blocks. -/
theorem whole_blocks (h : Feeds size s data outs final used) :
    ∀ out ∈ outs ++ [final], out.length % cipherBlockSize = 0 := by
  induction h with
  | finalize hshort hstep =>
      intro out hmem
      rw [List.mem_singleton.1 hmem, (of_finalize hstep).1, length_ciphertext,
        Padding.paddedLength, Nat.mul_mod_left]
  | update hfull hstep hbehind ih =>
      intro out hmem
      rcases List.mem_cons.1 hmem with rfl | hmem
      · exact (of_update hstep).1
      · exact ih out hmem

/-- The size of the pieces and the data say everything. -/
theorem unique {used' : CipherStream} {outs' : List Bytes} {final' : Bytes}
    (h : Feeds size s data outs final used) (h' : Feeds size s data outs' final' used') :
    outs = outs' ∧ final = final' ∧ used = used' := by
  induction h generalizing outs' with
  | finalize hshort hstep =>
      cases h' with
      | finalize _ hstep' =>
          cases hstep.symm.trans hstep'
          exact ⟨rfl, rfl, rfl⟩
      | update hfull =>
          rw [List.length_append] at hshort
          omega
  | @update s s' used piece rest out final outs hfull hstep hbehind ih =>
      generalize hwhole : piece ++ rest = data at h'
      cases h' with
      | finalize hshort =>
          rw [← hwhole, List.length_append] at hshort
          omega
      | @update _ s₁ _ piece₁ rest₁ out₁ _ outs₁ hfull₁ hstep₁ hbehind₁ =>
          obtain ⟨rfl, rfl⟩ := List.append_inj hwhole (hfull.trans hfull₁.symm)
          cases hstep.symm.trans hstep₁
          obtain ⟨rfl, hlast⟩ := ih hbehind₁
          exact ⟨rfl, hlast⟩

end Feeds

end CipherStream

/-! ## Laying out the answers -/

namespace Chunk

/-- The chunks that hold the answers of a stream from `offset` on. Empty answers make none, and the
one to finalizing makes the last. -/
def layOut (final : Bytes) : (offset : Nat) → List Bytes → List Chunk
  | offset, [] => [⟨offset, final, true⟩]
  | offset, out :: outs =>
      if out = [] then layOut final offset outs
      else ⟨offset, out, false⟩ :: layOut final (offset + out.length) outs

theorem map_payload_layOut (final : Bytes) (offset : Nat) (outs : List Bytes) :
    (layOut final offset outs).map payload = outs.filter (· ≠ []) ++ [final] := by
  induction outs generalizing offset with
  | nil => rfl
  | cons out outs ih =>
      by_cases hnone : out = []
      · simp [layOut, hnone, ih]
      · simp [layOut, hnone, ih]

theorem map_isLast_layOut (final : Bytes) (offset : Nat) (outs : List Bytes) :
    (layOut final offset outs).map isLast =
      List.replicate (outs.filter (· ≠ [])).length false ++ [true] := by
  induction outs generalizing offset with
  | nil => rfl
  | cons out outs ih =>
      by_cases hnone : out = []
      · simp [layOut, hnone, ih]
      · simp [layOut, hnone, ih, List.replicate_succ]

theorem consecutive_layOut {final : Bytes} (hne : final ≠ []) (offset : Nat) (outs : List Bytes) :
    Consecutive offset (layOut final offset outs) := by
  induction outs generalizing offset with
  | nil => exact ⟨rfl, hne, trivial⟩
  | cons out outs ih =>
      rw [layOut]
      split
      · exact ih offset
      · exact ⟨rfl, by assumption, ih (offset + out.length)⟩

theorem flatMap_payload_layOut (final : Bytes) (offset : Nat) (outs : List Bytes) :
    (layOut final offset outs).flatMap payload = outs.flatten ++ final := by
  rw [List.flatMap_def, map_payload_layOut, List.flatten_append, List.flatten_filter_ne_nil]
  simp

/-- The chunks hold what the stream makes of the data at once, from `offset` on and one behind the
other, in whole cipher blocks. The last of them is known to be the last, and no other. -/
structure Encrypted (stream : CipherStream) (offset : Nat) (data : Bytes) (cs : List Chunk) :
    Prop where
  consecutive : Consecutive offset cs
  payload_ne_nil : ∀ c ∈ cs, c.payload ≠ []
  whole_blocks : ∀ c ∈ cs, c.length % cipherBlockSize = 0
  atOnce : (stream.finalize data).1 = .ok (cs.flatMap payload)
  isLast : ∃ n, cs.map isLast = List.replicate n false ++ [true]

/-- Laid out, the answers of a stream are encrypted chunks. -/
theorem encrypted_layOut {size : Nat} {stream used : CipherStream} {data final : Bytes}
    {outs : List Bytes} (hfeeds : stream.Feeds size data outs final used)
    (hfresh : stream.finalized = false) (offset : Nat) :
    Encrypted stream offset data (layOut final offset outs) := by
  have hanswered : ∀ c ∈ layOut final offset outs,
      c.payload ∈ outs.filter (· ≠ []) ++ [final] := by
    intro c hmem
    rw [← map_payload_layOut final offset outs]
    exact List.mem_map_of_mem hmem
  refine ⟨consecutive_layOut hfeeds.final_ne_nil offset outs, ?nonempty, ?whole, ?atOnce,
    ⟨_, map_isLast_layOut final offset outs⟩⟩
  case nonempty =>
    intro c hmem
    rcases List.mem_append.1 (hanswered c hmem) with hupdate | hfinal
    · simpa using (List.mem_filter.1 hupdate).2
    · rw [List.mem_singleton.1 hfinal]
      exact hfeeds.final_ne_nil
  case whole =>
    intro c hmem
    apply hfeeds.whole_blocks
    exact (List.filter_sublist.append_right [final]).subset (hanswered c hmem)
  case atOnce =>
    obtain ⟨used, hfinalize, -⟩ := CipherStream.finalize_eq hfresh data
    rw [hfinalize, flatMap_payload_layOut, hfeeds.flatten_append]

end Chunk

namespace Cutter

/-! ## One reading -/

theorem absorb_encrypting {k : Cutter} {stream : CipherStream} (hcipher : k.cipher = some stream)
    (data : Bytes) :
    k.absorb (.ok data) =
      encrypt stream data { k with remaining := k.remaining.map (· - data.length) } := by
  simp only [absorb, hcipher]

/-- A short reading finalizes the cipher and ends the cutter. -/
theorem absorb_finalized {k : Cutter} {stream : CipherStream} (hcipher : k.cipher = some stream)
    (hfresh : stream.finalized = false) {data : Bytes} (hshort : data.length < k.chunkSize) :
    ∃ final used k', stream.finalize data = (.ok final, used) ∧
      k.absorb (.ok data) = (.chunk ⟨k.offset, final, true⟩, k') ∧
      k'.finished = true ∧ k'.cipher = some used ∧ k'.chunkSize = k.chunkSize := by
  let read : Cutter := { k with remaining := k.remaining.map (· - data.length) }
  obtain ⟨final, used, hfinalize, hencrypted⟩ := encrypt_of_short (k := read) hfresh hshort
  have hstep := absorb_encrypting hcipher data
  rw [hencrypted] at hstep
  exact ⟨final, used, _, hfinalize, hstep, rfl, rfl, rfl⟩

/-- A full reading updates the cipher, and the cutter goes on behind what it answers. -/
theorem absorb_updated {k : Cutter} {stream : CipherStream} (hcipher : k.cipher = some stream)
    (hfresh : stream.finalized = false) (hunfinished : k.finished = false) {data : Bytes}
    (hfull : data.length = k.chunkSize) :
    ∃ out stream' k', stream.update data = (.ok out, stream') ∧
      k.absorb (.ok data) = (if out = [] then .more else .chunk ⟨k.offset, out, false⟩, k') ∧
      k'.cipher = some stream' ∧ k'.finished = false ∧ k'.chunkSize = k.chunkSize ∧
      k'.offset = k.offset + out.length ∧
      k'.remaining = k.remaining.map (· - k.chunkSize) := by
  let read : Cutter := { k with remaining := k.remaining.map (· - data.length) }
  obtain ⟨out, stream', hupdate, hencrypted⟩ :=
    encrypt_of_full (k := read) hfresh (Nat.le_of_eq hfull.symm)
  have hstep := absorb_encrypting hcipher data
  have hremaining : read.remaining = k.remaining.map (· - k.chunkSize) := by rw [← hfull]
  rw [hencrypted] at hstep
  by_cases hnone : out = []
  · rw [if_pos hnone] at hstep
    refine ⟨out, stream', { read with cipher := some stream' }, hupdate, ?_, rfl, hunfinished, rfl,
      ?_, hremaining⟩
    · rw [hstep, if_pos hnone]
    · rw [hnone]
      rfl
  · rw [if_neg hnone] at hstep
    refine ⟨out, stream', (emit out false { read with cipher := some stream' }).2, hupdate, ?_, rfl,
      rfl, rfl, rfl, hremaining⟩
    rw [hstep, if_neg hnone]
    rfl

/-! ## The whole run -/

section

variable {ρ : Type} [Reader ρ]

/-- A cutter feeds its cipher with the bytes in its scope, and lays out what it answers. -/
theorem exists_feeds {k : Cutter} {r : ρ} {held : Bytes} (hholds : Reader.Holds r held)
    {stream : CipherStream} (hcipher : k.cipher = some stream) (hfresh : stream.finalized = false)
    (hunfinished : k.finished = false) :
    ∃ outs final used, stream.Feeds k.chunkSize (k.scope held) outs final used ∧
      (k.toList r).1 = (Chunk.layOut final k.offset outs).map .ok ∧
      (k.toList r).2.1.cipher = some used := by
  induction k, r using reading_induction generalizing stream held with
  | finished k r hfinished => rw [hunfinished] at hfinished; cases hfinished
  | reading k r _ ih =>
      obtain ⟨hfill, hbehind⟩ := reading_of_holds hholds k
      have hresult : (readUpTo k.limit r).1.result = .ok ((k.scope held).take k.chunkSize) := by
        rw [hfill, Fill.result]
      rcases Nat.lt_or_ge (k.scope held).length k.chunkSize with hshort | hfull
      · rw [List.take_of_length_le (Nat.le_of_lt hshort)] at hresult
        obtain ⟨final, used, k', hfinalize, hstep, hfinished, hcipher', -⟩ :=
          absorb_finalized hcipher hfresh hshort
        refine ⟨[], final, used, .finalize hshort hfinalize, ?_⟩
        rw [toList_of_chunk hunfinished (by rw [hresult, hstep]), toList_of_finished hfinished]
        exact ⟨rfl, hcipher'⟩
      · have hsize : ((k.scope held).take k.chunkSize).length = k.chunkSize :=
          List.length_take_of_le hfull
        obtain ⟨out, stream', k', hupdate, hstep, hcipher', hunfinished', hchunkSize, hoffset,
          hremaining⟩ := absorb_updated hcipher hfresh hunfinished hsize
        obtain ⟨-, hfresh', -⟩ := CipherStream.of_update hupdate
        rw [afterReading, hresult, hstep] at ih
        obtain ⟨outs, final, used, hfeeds, hanswers, hlast⟩ :=
          ih (hbehind hfull) hcipher' hfresh' hunfinished'
        rw [scope_of_full hfull hremaining, hchunkSize] at hfeeds
        have hfed := CipherStream.Feeds.update hsize hupdate hfeeds
        rw [List.take_append_drop] at hfed
        refine ⟨out :: outs, final, used, hfed, ?_⟩
        rw [Chunk.layOut, ← hoffset]
        by_cases hnone : out = []
        · rw [if_pos hnone] at hstep ⊢
          rw [toList_of_more hunfinished (by rw [hresult, hstep])]
          rw [hnone, List.length_nil, Nat.add_zero] at hoffset
          rw [← hoffset]
          exact ⟨hanswers, hlast⟩
        · rw [if_neg hnone] at hstep ⊢
          rw [toList_of_chunk hunfinished (by rw [hresult, hstep]), hanswers]
          exact ⟨rfl, hlast⟩

/-- Over a delivering source an encrypting cutter answers chunks only, and put together they are
the encryption of the bytes in its scope. -/
theorem toList_encrypted {k : Cutter} {s : Source} (hs : s.script.Delivers)
    {stream : CipherStream} (hcipher : k.cipher = some stream) (hfresh : stream.finalized = false)
    (hunfinished : k.finished = false) :
    ∃ cs : List Chunk, (k.toList s).1 = cs.map .ok ∧
      cs.flatMap Chunk.payload = stream.ciphertext (k.scope s.rest) := by
  obtain ⟨outs, final, used, hfeeds, hanswers, -⟩ :=
    exists_feeds (Source.holds_of_delivers hs) hcipher hfresh hunfinished
  refine ⟨_, hanswers, ?_⟩
  rw [Chunk.flatMap_payload_layOut, hfeeds.flatten_append]

/-! ## One call -/

/-- How many full chunks it takes at most until a stream that holds back `pending` bytes answers. -/
def chunksAhead (size pending : Nat) : Nat :=
  max 1 ((cipherBlockSize - pending + (size - 1)) / size)

theorem chunksAhead_of_more {size pending : Nat} (hpos : 0 < size)
    (hmore : pending + size < cipherBlockSize) :
    chunksAhead size pending = chunksAhead size (pending + size) + 1 := by
  have hshift : cipherBlockSize - pending + (size - 1) =
      cipherBlockSize - (pending + size) + (size - 1) + size := by omega
  have hone : 1 ≤ (cipherBlockSize - (pending + size) + (size - 1)) / size := by
    rw [Nat.one_le_div_iff hpos]
    omega
  rw [chunksAhead, chunksAhead, hshift, Nat.add_div_right _ hpos]
  omega

theorem chunksAhead_le (size pending : Nat) : chunksAhead size pending ≤ chunksAhead size 0 := by
  have hle : (cipherBlockSize - pending + (size - 1)) / size ≤
      (cipherBlockSize - 0 + (size - 1)) / size := Nat.div_le_div_right (by omega)
  rw [chunksAhead, chunksAhead]
  omega

/-- The cutter has ended, or has a cipher that takes more. -/
def Encrypting (k : Cutter) : Prop :=
  k.finished = false → ∃ stream, k.cipher = some stream ∧ stream.finalized = false

/-- One call reads so much at most, and leaves a cutter that is used up or can go on. -/
theorem next_of_encrypting {k : Cutter} {r : Recorded ρ} {stream : CipherStream}
    (hcipher : k.cipher = some stream) (hfresh : stream.finalized = false)
    (hunfinished : k.finished = false) :
    (k.next r).2.1.Encrypting ∧ (k.next r).2.1.chunkSize = k.chunkSize ∧
      (k.next r).2.2.delivered.length ≤
        r.delivered.length + chunksAhead k.chunkSize stream.pending.length * k.chunkSize := by
  induction k, r using reading_induction generalizing stream with
  | finished k r hfinished => rw [hunfinished] at hfinished; cases hfinished
  | reading k r _ ih =>
      obtain ⟨hsame, -, hdelivered, -⟩ := readUpTo_recorded k.limit r
      have hle := Nat.le_trans (length_readUpTo_le k.limit r.reader) k.limit_le
      have hone : k.chunkSize ≤ chunksAhead k.chunkSize stream.pending.length * k.chunkSize :=
        Nat.le_mul_of_pos_left _ (Nat.le_max_left 1 _)
      rcases hfill : (readUpTo k.limit r.reader).1 with ⟨data, failure⟩
      rw [hfill] at hle hsame hdelivered
      have hread : (readUpTo k.limit r).2.delivered.length = r.delivered.length + data.length := by
        rw [hdelivered, List.length_append]
      cases failure with
      | some e =>
          have hresult : (readUpTo k.limit r).1.result = .error e := by rw [hsame, Fill.result]
          have hstep : k.absorb (readUpTo k.limit r).1.result =
              (.failed (.source k.offset e), k.finish) := by rw [hresult, absorb]
          rw [next_of_absorb hunfinished hstep]
          refine ⟨fun hgoesOn => ?_, rfl, by simp only at hle ⊢; omega⟩
          cases hgoesOn
      | none =>
          have hresult : (readUpTo k.limit r).1.result = .ok data := by rw [hsame, Fill.result]
          rcases Nat.lt_or_eq_of_le hle with hshort | hfull
          · obtain ⟨final, used, k', -, hstep, hfinished, -, hsize⟩ :=
              absorb_finalized hcipher hfresh hshort
            rw [next_of_absorb hunfinished (by rw [hresult, hstep])]
            refine ⟨fun hgoesOn => ?_, hsize, by simp only at hle ⊢; omega⟩
            cases hfinished.symm.trans hgoesOn
          · obtain ⟨out, stream', k', hupdate, hstep, hcipher', hunfinished', hsize, -, -⟩ :=
              absorb_updated hcipher hfresh hunfinished hfull
            obtain ⟨-, hfresh', hpending, hcount, -⟩ := CipherStream.of_update hupdate
            by_cases hnone : out = []
            · rw [if_pos hnone] at hstep
              rw [next_of_absorb hunfinished (by rw [hresult, hstep])]
              rw [afterReading, hresult, hstep] at ih
              obtain ⟨hgoesOn, hsize', hbound⟩ := ih hcipher' hfresh' hunfinished'
              -- All that was read is held back, so one chunk less is needed from here on.
              rw [hnone, List.length_nil, Nat.zero_add, hfull] at hcount
              rw [hsize] at hsize' hbound
              have hfewer := chunksAhead_of_more k.chunkSize_pos (hcount ▸ hpending)
              rw [hcount] at hbound
              refine ⟨hgoesOn, hsize', ?_⟩
              rw [hfewer, Nat.succ_mul]
              simp only at hfull hbound ⊢
              omega
            · rw [if_neg hnone] at hstep
              rw [next_of_absorb hunfinished (by rw [hresult, hstep])]
              exact ⟨fun _ => ⟨stream', hcipher', hfresh'⟩, hsize, by simp only at hfull ⊢; omega⟩

/-- The calls before keep a cutter as it has to be. -/
theorem after_of_encrypting {k : Cutter} (h : k.Encrypting) (r : Recorded ρ) (n : Nat) :
    (k.after r n).1.Encrypting ∧ (k.after r n).1.chunkSize = k.chunkSize := by
  induction n with
  | zero => exact ⟨h, rfl⟩
  | succ n ih =>
      obtain ⟨hgoesOn, hsize⟩ := ih
      rw [after_succ, ← hsize]
      cases hfinished : (k.after r n).1.finished with
      | true =>
          rw [next, if_pos hfinished]
          exact ⟨hgoesOn, rfl⟩
      | false =>
          obtain ⟨stream, hcipher, hfresh⟩ := hgoesOn hfinished
          obtain ⟨hgoesOn', hsize', -⟩ :=
            next_of_encrypting (r := (k.after r n).2) hcipher hfresh hfinished
          exact ⟨hgoesOn', hsize'⟩

/-- No call takes more than the chunks that fill a cipher block. -/
theorem delivered_after_le {k : Cutter} (h : k.Encrypting) (r : Recorded ρ) (n : Nat) :
    (k.after r (n + 1)).2.delivered.length ≤
      (k.after r n).2.delivered.length +
        max 1 ((cipherBlockSize + (k.chunkSize - 1)) / k.chunkSize) * k.chunkSize := by
  obtain ⟨hgoesOn, hsize⟩ := after_of_encrypting h r n
  rw [after_succ]
  cases hfinished : (k.after r n).1.finished with
  | true =>
      rw [next, if_pos hfinished]
      exact Nat.le_add_right _ _
  | false =>
      obtain ⟨stream, hcipher, hfresh⟩ := hgoesOn hfinished
      obtain ⟨-, -, hbound⟩ := next_of_encrypting (r := (k.after r n).2) hcipher hfresh hfinished
      rw [hsize] at hbound
      apply Nat.le_trans hbound
      apply Nat.add_le_add_left
      exact Nat.mul_le_mul_right _ (chunksAhead_le k.chunkSize _)

/-- Over a reader that holds bytes an encrypting cutter answers the chunks of their encryption, as
far as the declared length allows, and nothing from then on.

The cipher is updated with the full chunks that are read and finalized once, at the end, with what
is left; what it answers goes into the chunks. No call reads more full chunks than fill a cipher
block, or one. All this holds as long as the offsets fit into 64 bits. -/
theorem encrypts_reader (size offset : Nat) (declared : Option Nat) (cipher : BlockCipher)
    (iv : Block) {r : ρ} {held : Bytes} (hholds : Reader.Holds r held) :
    let k : Cutter :=
      { ofSize size with offset, remaining := declared, cipher := some (cipher.stream iv) }
    let start : Recorded ρ := { reader := r }
    offset + Padding.paddedLength (k.scope held).length < UInt64.size →
    ∃ (cs : List Chunk) (outs : List Bytes) (final : Bytes) (used : CipherStream),
      (∀ n, k.answer r n = (cs.map .ok)[n]?) ∧
      Chunk.Encrypted (cipher.stream iv) offset (k.scope held) cs ∧
      (cs.flatMap Chunk.payload).length = encryptedLength (k.scope held).length ∧
      (cipher.stream iv).Feeds (max size 1) (k.scope held) outs final used ∧
      cs.map Chunk.payload = outs.filter (· ≠ []) ++ [final] ∧
      (k.toList r).2.1.cipher = some used ∧ used.finalized = true ∧
      ∀ n, (k.after start (n + 1)).2.delivered.length ≤ (k.after start n).2.delivered.length +
        max 1 ((cipherBlockSize + (max size 1 - 1)) / max size 1) * max size 1 := by
  intro k start hfits
  have hattached : k.cipher = some (cipher.stream iv) := rfl
  obtain ⟨outs, final, used, hfeeds, hanswers, hlast⟩ := exists_feeds hholds hattached rfl rfl
  refine ⟨Chunk.layOut final offset outs, outs, final, used, ?_,
    Chunk.encrypted_layOut hfeeds rfl offset, ?_, hfeeds,
    Chunk.map_payload_layOut final offset outs, hlast, hfeeds.finalized, ?_⟩
  · intro n
    rw [answer_eq_getElem?, hanswers]
  · have hlength : encryptedLength (k.scope held).length =
        Padding.paddedLength (k.scope held).length :=
      Offset.wrap_of_lt (Nat.lt_of_le_of_lt (Nat.le_add_left _ offset) hfits)
    rw [Chunk.flatMap_payload_layOut, hfeeds.flatten_append, CipherStream.length_ciphertext,
      hlength]
    simp [BlockCipher.stream]
  · exact delivered_after_le (k := k) (fun _ => ⟨cipher.stream iv, hattached, rfl⟩) start

/-- A source that is interrupted is encrypted to its end. -/
theorem encrypts_reader_hesitant :
    let key : ContentKey := ⟨⟨⟨⟨0, 1, 2, 3⟩, ⟨4, 5, 6, 7⟩, ⟨8, 9, 10, 11⟩, ⟨12, 13, 14, 15⟩⟩,
      ⟨⟨0, 1, 2, 3⟩, ⟨4, 5, 6, 7⟩, ⟨8, 9, 10, 11⟩, ⟨12, 13, 14, 15⟩⟩⟩,
      ⟨⟨1, 0, 0, 0⟩, ⟨2, 0, 0, 0⟩, ⟨3, 0, 0, 0⟩, ⟨4, 0, 0, 0⟩⟩⟩
    let k : Cutter :=
      { ofSize 2 with offset := 7, remaining := some 4, cipher := some key.stream }
    ∃ cs : List Chunk,
      (∀ n, k.answer (Source.hesitant [1, 2, 3, 4, 5]) n = (cs.map .ok)[n]?) ∧
      Chunk.Encrypted key.stream 7 [1, 2, 3, 4] cs ∧ (cs.flatMap Chunk.payload).length = 16 := by
  intro key k
  obtain ⟨cs, outs, final, used, hanswers, hencrypted, htotal, -⟩ :=
    encrypts_reader 2 7 (some 4) (AES.cipher key.key) key.iv
      (Source.holds_of_delivers (Source.wellBehaved_hesitant [1, 2, 3, 4, 5]).delivers)
      (by decide +kernel)
  exact ⟨cs, hanswers, hencrypted, htotal.trans (by decide +kernel)⟩

end

end Cutter

end BlobUpload
