import BlobUpload.Proofs.Source.WellBehaved

/-! # Reading into a buffer

`readUpTo` says what comes of a reading. The reading itself goes into a buffer that is extended by
zero bytes first. The reads replace these from the front on, and what is left of them is cut off at
the end. It may go on for ever only if the interruptions do. Main statement: `fills_exactly`. -/

namespace BlobUpload

/-- Something that can be read, at most so many bytes at a time. It may go on for ever. -/
class Readable (ρ : Type) where
  read : Nat → ρ → Except SourceError Bytes × ρ
  length_le : ∀ {n r bytes}, (read n r).1 = .ok bytes → bytes.length ≤ n

instance {ρ : Type} [Reader ρ] : Readable ρ := ⟨Reader.read, Reader.length_le⟩

/-- A read: the room that was offered, and the answer. -/
abbrev ReadCall := Nat × Except SourceError Bytes

namespace ReadCall

/-- The bytes that were handed out, one read after the other. -/
def delivered (calls : List ReadCall) : Bytes :=
  calls.flatMap fun call => call.2.toOption.getD []

def isInterrupted (call : ReadCall) : Bool :=
  match call.2 with
  | .ok _ => false
  | .error e => e.isInterrupted

@[simp] theorem delivered_concat_ok (calls : List ReadCall) (room : Nat) (bytes : Bytes) :
    delivered (calls ++ [(room, .ok bytes)]) = delivered calls ++ bytes := by
  simp [delivered, Except.toOption]

@[simp] theorem delivered_concat_error (calls : List ReadCall) (room : Nat) (e : SourceError) :
    delivered (calls ++ [(room, .error e)]) = delivered calls := by
  simp [delivered, Except.toOption]

/-- Every read was offered room for exactly the bytes that were still missing, and there were
some. -/
inductive Offered (n : Nat) : List ReadCall → Prop
  | nil : Offered n []
  | concat {calls : List ReadCall} (hbefore : Offered n calls)
      (hmissing : (delivered calls).length < n) (answer : Except SourceError Bytes) :
      Offered n (calls ++ [(n - (delivered calls).length, answer)])

theorem Offered.eq_nil {calls : List ReadCall} (h : Offered 0 calls) : calls = [] := by
  cases h with
  | nil => rfl
  | concat _ hmissing _ => exact absurd hmissing (Nat.not_lt_zero _)

end ReadCall

/-! ## The loop -/

/-- A reading into a buffer that is under way or has ended with a result. -/
structure Filling (ρ : Type) where
  reader : ρ
  buffer : Bytes
  /-- Number of bytes that were in the buffer at first. -/
  start : Nat
  limit : Nat
  filled : Nat := 0
  calls : List ReadCall := []
  /-- Number of bytes that came, or the failure. -/
  result : Option (Except SourceError Nat) := none

namespace Filling

variable {ρ : Type}

/-- Extends the buffer by as many zero bytes as may come. -/
def ofBuffer (base : Bytes) (n : Nat) (r : ρ) : Filling ρ where
  reader := r
  buffer := base ++ List.replicate n 0
  start := base.length
  limit := n

/-- Cuts off what was not filled. -/
def finish (result : Except SourceError Nat) (f : Filling ρ) : Filling ρ :=
  { f with buffer := f.buffer.take (f.start + f.filled), result := some result }

/-- Writes bytes behind those that came before. -/
def write (bytes : Bytes) (f : Filling ρ) : Filling ρ :=
  { f with
    buffer := f.buffer.overlay (f.start + f.filled) bytes, filled := f.filled + bytes.length }

def delivered (f : Filling ρ) : Bytes := ReadCall.delivered f.calls

/-- Number of interruptions so far. -/
def interruptions (f : Filling ρ) : Nat := f.calls.countP ReadCall.isInterrupted

/-- The part of the buffer that is not filled yet. -/
def room (f : Filling ρ) : Nat := f.buffer.length - (f.start + f.filled)

/-! ## What holds on the way and at the end -/

/-- After so many turns the reading is under way: the buffer holds what was in it before and what
the reads have brought, and then zero bytes. -/
structure Underway (base : Bytes) (n turns : Nat) (f : Filling ρ) : Prop where
  running : f.result = none
  start_eq : f.start = base.length
  limit_eq : f.limit = n
  filled_eq : f.filled = f.delivered.length
  filled_le : f.filled ≤ n
  buffer_eq : f.buffer = base ++ (f.delivered ++ List.replicate (n - f.filled) 0)
  offered : ReadCall.Offered n f.calls
  /-- Every turn was worth a byte, or was an interruption. -/
  turns_le : turns ≤ f.filled + f.interruptions

/-- The reading has ended: the buffer holds what was in it before and what the reads have brought.
That is less than it might only if the last read brought nothing or has failed. -/
structure Filled (base : Bytes) (n : Nat) (f : Filling ρ) : Prop where
  buffer_eq : f.buffer = base ++ f.delivered
  length_le : f.delivered.length ≤ n
  offered : ReadCall.Offered n f.calls
  result : (f.result = some (.ok f.delivered.length) ∧
      (f.delivered.length < n → ∃ room, (room, .ok []) ∈ f.calls.getLast?)) ∨
    ∃ e room, f.result = some (.error e) ∧ e.isInterrupted = false ∧
      (room, .error e) ∈ f.calls.getLast?

variable {base : Bytes} {n turns : Nat} {f : Filling ρ}

theorem underway_ofBuffer (base : Bytes) (n : Nat) (r : ρ) :
    Underway base n 0 (ofBuffer base n r) where
  running := rfl
  start_eq := rfl
  limit_eq := rfl
  filled_eq := rfl
  filled_le := Nat.zero_le n
  buffer_eq := rfl
  offered := .nil
  turns_le := Nat.zero_le _

theorem Underway.room_eq (h : Underway base n turns f) : f.room = n - f.filled := by
  have hlength := congrArg List.length h.buffer_eq
  simp only [List.length_append, List.length_replicate, ← h.filled_eq] at hlength
  rw [room, h.start_eq, hlength]
  omega

/-- What is cut off are the zero bytes. -/
theorem Underway.take_buffer (h : Underway base n turns f) :
    f.buffer.take (f.start + f.filled) = base ++ f.delivered := by
  rw [h.buffer_eq, h.start_eq, h.filled_eq, ← List.length_append, ← List.append_assoc,
    List.take_left]

/-- Bytes that come take the place of as many zero bytes. -/
theorem Underway.overlay_buffer (h : Underway base n turns f) (bytes : Bytes) :
    f.buffer.overlay (f.start + f.filled) bytes =
      base ++ (f.delivered ++ bytes ++ List.replicate (n - (f.filled + bytes.length)) 0) := by
  have hplace : f.start + f.filled = (base ++ f.delivered).length := by
    rw [h.start_eq, h.filled_eq, List.length_append]
  rw [h.buffer_eq, hplace, ← List.append_assoc, Bytes.overlay_behind, List.drop_replicate,
    Nat.sub_sub]
  simp only [List.append_assoc]

/-! ## Once around the loop -/

variable [Readable ρ]

/-- What the next read answers. -/
def answer (f : Filling ρ) : Except SourceError Bytes := (Readable.read f.room f.reader).1

/-- The next read is made. -/
def read (f : Filling ρ) : Filling ρ :=
  { f with
    reader := (Readable.read f.room f.reader).2
    calls := f.calls ++ [(f.room, f.answer)] }

/-- Once around the loop. -/
def turn (f : Filling ρ) : Filling ρ :=
  if f.result.isSome then f
  else if f.filled < f.limit then
    match f.answer with
    | .ok [] => f.read.finish (.ok f.filled)
    | .ok bytes => f.read.write bytes
    | .error e => if e.isInterrupted then f.read else f.read.finish (.error e)
  else f.finish (.ok f.filled)

def run : Nat → Filling ρ → Filling ρ
  | 0, f => f
  | turns + 1, f => f.turn.run turns

/-- All that can happen on one turn. -/
inductive Turns (f : Filling ρ) : Filling ρ → Prop where
  | ended (h : f.result.isSome) : Turns f f
  | full (hrunning : f.result = none) (h : f.limit ≤ f.filled) : Turns f (f.finish (.ok f.filled))
  | dry (hrunning : f.result = none) (hshort : f.filled < f.limit) (hanswer : f.answer = .ok []) :
      Turns f (f.read.finish (.ok f.filled))
  | more {bytes : Bytes} (hrunning : f.result = none) (hshort : f.filled < f.limit)
      (hanswer : f.answer = .ok bytes) (hsome : bytes ≠ []) : Turns f (f.read.write bytes)
  | again {e : SourceError} (hrunning : f.result = none) (hshort : f.filled < f.limit)
      (hanswer : f.answer = .error e) (hinterrupted : e.isInterrupted = true) : Turns f f.read
  | failed {e : SourceError} (hrunning : f.result = none) (hshort : f.filled < f.limit)
      (hanswer : f.answer = .error e) (hfinal : e.isInterrupted = false) :
      Turns f (f.read.finish (.error e))

theorem turns_turn (f : Filling ρ) : Turns f f.turn := by
  unfold turn
  split
  · exact .ended ‹_›
  · rename_i hrunning
    replace hrunning : f.result = none := by simpa using hrunning
    split
    · rename_i hshort
      split
      · exact .dry hrunning hshort ‹_›
      · rename_i bytes hnonempty hanswer
        exact .more hrunning hshort hanswer (by simpa using hnonempty)
      · rename_i e hanswer
        split
        · exact .again hrunning hshort hanswer ‹_›
        · exact .failed hrunning hshort hanswer (by simpa using ‹¬e.isInterrupted = true›)
    · exact .full hrunning (by omega)

theorem run_of_ended {f : Filling ρ} (h : f.result.isSome) (turns : Nat) : f.run turns = f := by
  induction turns with
  | zero => rfl
  | succ turns ih =>
      have hstays : f.turn = f := by rw [turn, if_pos h]
      rw [run, hstays, ih]

theorem Underway.offered_read (h : Underway base n turns f) (hshort : f.filled < f.limit) :
    ReadCall.Offered n f.read.calls := by
  have hmissing : f.delivered.length < n := h.filled_eq ▸ h.limit_eq ▸ hshort
  have hsame : f.room = n - f.delivered.length := h.filled_eq ▸ h.room_eq
  change ReadCall.Offered n (f.calls ++ [(f.room, f.answer)])
  rw [hsame]
  exact h.offered.concat hmissing f.answer

theorem delivered_read_of_ok {bytes : Bytes} (h : f.answer = .ok bytes) :
    f.read.delivered = f.delivered ++ bytes := by
  rw [delivered, read, h]
  exact ReadCall.delivered_concat_ok _ _ _

theorem delivered_read_of_error {e : SourceError} (h : f.answer = .error e) :
    f.read.delivered = f.delivered := by
  rw [delivered, read, h]
  exact ReadCall.delivered_concat_error _ _ _

theorem interruptions_read (f : Filling ρ) :
    f.read.interruptions =
      f.interruptions + if ReadCall.isInterrupted (f.room, f.answer) then 1 else 0 := by
  rw [interruptions, read, List.countP_append, List.countP_singleton]
  rfl

theorem Underway.write (h : Underway base n turns f) {bytes : Bytes}
    (hshort : f.filled < f.limit) (hanswer : f.answer = .ok bytes) (hsome : bytes ≠ []) :
    Underway base n (turns + 1) (f.read.write bytes) where
  running := h.running
  start_eq := h.start_eq
  limit_eq := h.limit_eq
  filled_eq := by
    change f.filled + bytes.length = f.read.delivered.length
    rw [delivered_read_of_ok hanswer, List.length_append, h.filled_eq]
  filled_le := by
    have hfits : bytes.length ≤ f.room := Readable.length_le hanswer
    have hroom := h.room_eq
    have hlimit := h.limit_eq
    change f.filled + bytes.length ≤ n
    omega
  buffer_eq := by
    change f.buffer.overlay (f.start + f.filled) bytes = base ++ (f.read.delivered ++ _)
    rw [h.overlay_buffer, delivered_read_of_ok hanswer]
    rfl
  offered := h.offered_read hshort
  turns_le := by
    have hbefore := h.turns_le
    have hgrown := List.length_pos_iff.2 hsome
    have hcalm : f.read.interruptions = f.interruptions := by
      simp [interruptions_read, hanswer, ReadCall.isInterrupted]
    change turns + 1 ≤ f.filled + bytes.length + f.read.interruptions
    omega

theorem Underway.again (h : Underway base n turns f) {e : SourceError}
    (hshort : f.filled < f.limit) (hanswer : f.answer = .error e)
    (hinterrupted : e.isInterrupted = true) : Underway base n (turns + 1) f.read where
  running := h.running
  start_eq := h.start_eq
  limit_eq := h.limit_eq
  filled_eq := (delivered_read_of_error hanswer).symm ▸ h.filled_eq
  filled_le := h.filled_le
  buffer_eq := (delivered_read_of_error hanswer).symm ▸ h.buffer_eq
  offered := h.offered_read hshort
  turns_le := by
    have hbefore := h.turns_le
    have hone : f.read.interruptions = f.interruptions + 1 := by
      simp [interruptions_read, hanswer, ReadCall.isInterrupted, hinterrupted]
    change turns + 1 ≤ f.filled + f.read.interruptions
    omega

omit [Readable ρ] in
theorem Underway.full (h : Underway base n turns f) (henough : f.limit ≤ f.filled) :
    Filled base n (f.finish (.ok f.filled)) where
  buffer_eq := h.take_buffer
  length_le := h.filled_eq ▸ h.filled_le
  offered := h.offered
  result := by
    refine .inl ⟨congrArg (fun k => some (Except.ok k)) h.filled_eq, fun hshort => ?_⟩
    rw [h.limit_eq, h.filled_eq] at henough
    exact absurd hshort (Nat.not_lt.2 henough)

theorem Underway.dry (h : Underway base n turns f) (hshort : f.filled < f.limit)
    (hanswer : f.answer = .ok []) : Filled base n (f.read.finish (.ok f.filled)) := by
  have hsame : (f.read.finish (.ok f.filled)).delivered = f.delivered :=
    (delivered_read_of_ok hanswer).trans (List.append_nil _)
  refine ⟨?_, ?_, h.offered_read hshort, .inl ⟨?_, fun _ => ⟨f.room, ?_⟩⟩⟩
  · rw [hsame]
    exact h.take_buffer
  · rw [hsame, ← h.filled_eq]
    exact h.filled_le
  · rw [hsame, ← h.filled_eq]
    rfl
  · change _ ∈ (f.calls ++ [(f.room, f.answer)]).getLast?
    simp [hanswer]

theorem Underway.failed (h : Underway base n turns f) {e : SourceError}
    (hshort : f.filled < f.limit) (hanswer : f.answer = .error e)
    (hfinal : e.isInterrupted = false) : Filled base n (f.read.finish (.error e)) := by
  have hsame : (f.read.finish (.error e)).delivered = f.delivered := delivered_read_of_error hanswer
  refine ⟨?_, ?_, h.offered_read hshort, .inr ⟨e, f.room, rfl, hfinal, ?_⟩⟩
  · rw [hsame]
    exact h.take_buffer
  · rw [hsame, ← h.filled_eq]
    exact h.filled_le
  · change _ ∈ (f.calls ++ [(f.room, f.answer)]).getLast?
    simp [hanswer]

theorem Underway.turn (h : Underway base n turns f) :
    Underway base n (turns + 1) f.turn ∨ Filled base n f.turn := by
  have hstep := turns_turn f
  generalize f.turn = g at hstep ⊢
  cases hstep with
  | ended hended => simp [h.running] at hended
  | full _ henough => exact .inr (h.full henough)
  | dry _ hshort hanswer => exact .inr (h.dry hshort hanswer)
  | more _ hshort hanswer hsome => exact .inl (h.write hshort hanswer hsome)
  | again _ hshort hanswer hinterrupted => exact .inl (h.again hshort hanswer hinterrupted)
  | failed _ hshort hanswer hfinal => exact .inr (h.failed hshort hanswer hfinal)

/-! ## Until it ends -/

omit [Readable ρ] in
theorem Filled.ended (h : Filled base n f) : f.result.isSome := by
  rcases h.result with ⟨hok, -⟩ | ⟨e, room, hfailed, -⟩
  · rw [hok]
    rfl
  · rw [hfailed]
    rfl

theorem Underway.run (h : Underway base n turns f) (more : Nat) :
    Underway base n (turns + more) (f.run more) ∨ Filled base n (f.run more) := by
  induction more generalizing f turns with
  | zero => exact .inl h
  | succ more ih =>
      rcases h.turn with hunderway | hfilled
      · have hlater := ih hunderway
        rwa [Nat.add_right_comm, Nat.add_assoc] at hlater
      · refine .inr ?_
        rw [Filling.run, run_of_ended hfilled.ended]
        exact hfilled

/-- No turn is wasted but on an interruption, so the reading ends unless these go on for ever. -/
theorem ends_of_interruptions_le {r : ρ} {most : Nat}
    (hbounded : ∀ turns, ((ofBuffer base n r).run turns).interruptions ≤ most) :
    ∃ turns, Filled base n ((ofBuffer base n r).run turns) := by
  rcases (underway_ofBuffer base n r).run (n + most + 1) with hunderway | hfilled
  · have hworth := hunderway.turns_le
    have hcame := hunderway.filled_le
    have hinterrupted := hbounded (n + most + 1)
    omega
  · exact ⟨_, hfilled⟩

end Filling

/-! ## Readers that tire -/

/-- Bytes in front of all that came count together with it. -/
theorem Fill.map_result_append (bytes : Bytes) (fill : Fill) (before : Nat) :
    (⟨bytes ++ fill.bytes, fill.failure⟩ : Fill).result.map (fun all => before + all.length) =
      fill.result.map fun rest => before + bytes.length + rest.length := by
  obtain ⟨rest, _ | e⟩ := fill
  · simp [Fill.result, Except.map, Nat.add_assoc]
  · rfl

namespace Filling

variable {ρ : Type} [Reader ρ] {base : Bytes} {n turns : Nat} {f : Filling ρ}

/-- A reader has the stamina for so many interruptions only. -/
theorem interruptions_run_le (hrunning : f.result = none) (turns : Nat) :
    (f.run turns).interruptions ≤ f.interruptions + Reader.stamina f.reader := by
  induction turns generalizing f with
  | zero => exact Nat.le_add_right _ _
  | succ turns ih =>
      have hcounted := interruptions_read f
      have hstep := turns_turn f
      rw [run]
      generalize f.turn = g at hstep ⊢
      cases hstep with
      | ended hended => simp [hrunning] at hended
      | full _ henough =>
          rw [run_of_ended rfl]
          exact Nat.le_add_right _ _
      | dry _ hshort hanswer =>
          rw [run_of_ended rfl]
          simp only [hanswer, ReadCall.isInterrupted] at hcounted
          exact Nat.le_add_right_of_le (Nat.le_of_eq hcounted)
      | @more bytes _ hshort hanswer hsome =>
          have htired : Reader.stamina f.read.reader < Reader.stamina f.reader :=
            Reader.stamina_lt_of_bytes hanswer hsome
          have hrest := ih (f := f.read.write bytes) hrunning
          simp only [hanswer, ReadCall.isInterrupted, Bool.false_eq_true, if_false] at hcounted
          change _ ≤ f.read.interruptions + Reader.stamina f.read.reader at hrest
          omega
      | again _ hshort hanswer hinterrupted =>
          have htired : Reader.stamina f.read.reader < Reader.stamina f.reader :=
            Reader.stamina_lt_of_interrupted hanswer hinterrupted
          have hrest := ih (f := f.read) hrunning
          simp only [hanswer, ReadCall.isInterrupted, hinterrupted, if_true] at hcounted
          omega
      | failed _ hshort hanswer hfinal =>
          rw [run_of_ended rfl]
          simp only [hanswer, ReadCall.isInterrupted, hfinal] at hcounted
          exact Nat.le_add_right_of_le (Nat.le_of_eq hcounted)

/-- A reading that ends does so as `readUpTo` says, from wherever it is. -/
theorem Underway.eq_readUpTo (h : Underway base n turns f) {more : Nat}
    (hended : (f.run more).result.isSome) :
    (f.run more).reader = (readUpTo (n - f.filled) f.reader).2 ∧
    (f.run more).delivered = f.delivered ++ (readUpTo (n - f.filled) f.reader).1.bytes ∧
    (f.run more).result = some ((readUpTo (n - f.filled) f.reader).1.result.map
      fun bytes => f.filled + bytes.length) := by
  induction more generalizing f turns with
  | zero =>
      rw [Filling.run, h.running] at hended
      cases hended
  | succ more ih =>
      have hasked : f.answer = (Reader.read (n - f.filled) f.reader).1 := by
        rw [Filling.answer, h.room_eq]
        rfl
      have hmoved : f.read.reader = (Reader.read (n - f.filled) f.reader).2 := by
        rw [Filling.read, h.room_eq]
        rfl
      have hlimit := h.limit_eq
      have hstep := turns_turn f
      rw [Filling.run] at hended ⊢
      generalize f.turn = g at hstep hended ⊢
      cases hstep with
      | ended halready => simp [h.running] at halready
      | full _ henough =>
          have hnone : n - f.filled = 0 := by omega
          rw [run_of_ended rfl, hnone, readUpTo_zero]
          exact ⟨rfl, (List.append_nil _).symm, rfl⟩
      | dry _ hshort hanswer =>
          have hwanting : n - f.filled ≠ 0 := by omega
          rw [run_of_ended rfl, readUpTo_of_stop hwanting (by rw [← hasked, hanswer]; rfl)]
          exact ⟨hmoved, delivered_read_of_ok hanswer, rfl⟩
      | @more bytes _ hshort hanswer hsome =>
          have hwanting : n - f.filled ≠ 0 := by omega
          have hverdict : Verdict.of (Reader.read (n - f.filled) f.reader).1 = .more bytes := by
            rw [← hasked, hanswer]
            cases bytes with
            | nil => exact absurd rfl hsome
            | cons b rest => rfl
          obtain ⟨hreader, hdelivered, hresult⟩ := ih (h.write hshort hanswer hsome) hended
          rw [readUpTo_of_more hwanting hverdict, Nat.sub_sub, ← hmoved]
          refine ⟨hreader, ?_, ?_⟩
          · rw [hdelivered, ← List.append_assoc, ← delivered_read_of_ok hanswer]
            rfl
          · rw [hresult, Fill.map_result_append]
            rfl
      | again _ hshort hanswer hinterrupted =>
          have hwanting : n - f.filled ≠ 0 := by omega
          have hverdict : Verdict.of (Reader.read (n - f.filled) f.reader).1 = .more [] := by
            rw [← hasked, hanswer, Verdict.of, if_pos hinterrupted]
          obtain ⟨hreader, hdelivered, hresult⟩ := ih (h.again hshort hanswer hinterrupted) hended
          rw [readUpTo_of_more hwanting hverdict, List.length_nil, Nat.sub_zero, ← hmoved]
          refine ⟨hreader, ?_, hresult⟩
          rw [hdelivered, delivered_read_of_error hanswer]
          rfl
      | @failed e _ hshort hanswer hfinal =>
          have hwanting : n - f.filled ≠ 0 := by omega
          have hverdict : Verdict.of (Reader.read (n - f.filled) f.reader).1 = .stop (some e) := by
            rw [← hasked, hanswer, Verdict.of, hfinal]
            rfl
          rw [run_of_ended rfl, readUpTo_of_stop hwanting hverdict]
          exact ⟨hmoved, (delivered_read_of_error hanswer).trans (List.append_nil _).symm, rfl⟩

theorem filled_of_reader (base : Bytes) (n : Nat) (r : ρ) :
    ∃ turns, Filled base n ((ofBuffer base n r).run turns) :=
  ends_of_interruptions_le fun turns => interruptions_run_le (f := ofBuffer base n r) rfl turns

/-- A reading whose interruptions come to an end, ends, with neither a byte too few nor one too many
in the buffer and without a read that has room for more bytes than are missing. Of a reader that
tires it gets what `readUpTo` says. -/
theorem fills_exactly (base : Bytes) (n : Nat) :
    (∀ {ρ : Type} [Readable ρ] (r : ρ),
      (∃ most, ∀ turns, ((ofBuffer base n r).run turns).interruptions ≤ most) →
      ∃ turns, Filled base n ((ofBuffer base n r).run turns) ∧
        (n = 0 → ((ofBuffer base n r).run turns).calls = [])) ∧
    ∀ {ρ : Type} [Reader ρ] (r : ρ), ∃ turns,
      Filled base n ((ofBuffer base n r).run turns) ∧
      ((ofBuffer base n r).run turns).reader = (readUpTo n r).2 ∧
      ((ofBuffer base n r).run turns).buffer = base ++ (readUpTo n r).1.bytes ∧
      ((ofBuffer base n r).run turns).result = some ((readUpTo n r).1.result.map List.length) := by
  refine ⟨fun r hsettles => ?_, fun r => ?_⟩
  · obtain ⟨most, hbounded⟩ := hsettles
    obtain ⟨turns, hfilled⟩ := ends_of_interruptions_le hbounded
    refine ⟨turns, hfilled, fun hnone => ?_⟩
    subst hnone
    exact hfilled.offered.eq_nil
  · obtain ⟨turns, hfilled⟩ := filled_of_reader base n r
    obtain ⟨hreader, hdelivered, hresult⟩ := (underway_ofBuffer base n r).eq_readUpTo hfilled.ended
    refine ⟨turns, hfilled, hreader, ?_, ?_⟩
    · rw [hfilled.buffer_eq, hdelivered]
      rfl
    · rw [hresult]
      simp only [ofBuffer, Nat.sub_zero, Nat.zero_add]

/-- A source that hands out a byte, is interrupted, and breaks. -/
def faltering : Source where
  data := [1, 2, 3]
  script := .ofList [.upTo 1, .fail ⟨.interrupted, "again"⟩, .fail ⟨.other "Other", "broken"⟩]

theorem faltering_fills :
    (∃ most, ∀ turns, ((ofBuffer [9] 4 faltering).run turns).interruptions ≤ most) ∧
    ∃ turns, Filled [9] 4 ((ofBuffer [9] 4 faltering).run turns) ∧
      ((ofBuffer [9] 4 faltering).run turns).buffer = [9, 1] ∧
      ((ofBuffer [9] 4 faltering).run turns).result =
        some (.error ⟨.other "Other", "broken"⟩) := by
  have hsettles : ∃ most, ∀ turns, ((ofBuffer [9] 4 faltering).run turns).interruptions ≤ most :=
    ⟨_, interruptions_run_le (f := ofBuffer [9] 4 faltering) rfl⟩
  obtain ⟨turns, hfilled, -⟩ := (fills_exactly [9] 4).1 faltering hsettles
  obtain ⟨-, hdelivered, hresult⟩ :=
    (underway_ofBuffer [9] 4 faltering).eq_readUpTo hfilled.ended
  have hfill : (readUpTo 4 faltering).1 = ⟨[1], some ⟨.other "Other", "broken"⟩⟩ := by
    decide +kernel
  change _ = [] ++ (readUpTo 4 faltering).1.bytes at hdelivered
  change _ = some ((readUpTo 4 faltering).1.result.map _) at hresult
  rw [hfill] at hdelivered hresult
  refine ⟨hsettles, turns, hfilled, ?_, hresult⟩
  rw [hfilled.buffer_eq, hdelivered]
  rfl

end Filling

end BlobUpload
