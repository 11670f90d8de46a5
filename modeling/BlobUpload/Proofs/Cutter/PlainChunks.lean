import BlobUpload.Proofs.Cutter.CallSequence
import BlobUpload.Proofs.Source.HeldBytes

/-! # Chunks that tile what is read

A cutter without a cipher answers tiles of the bytes that its reader hands out, whatever the reader
does (`tiles_reader`): full chunks and one that holds the rest. If the reader fails, the chunks
that were full by then come first and the failure behind them, at the offset where the next chunk
would have begun. -/

namespace BlobUpload

/-- The chunks hold `data` from `offset` on, in steps of `size`. Only the last one can be known to
be the last, and it is if it is short or ends where the declared length does. -/
structure Chunk.Tiles (size offset : Nat) (declared : Option Nat) (data : Bytes)
    (cs : List Chunk) : Prop where
  count : cs.length = (data.length + (size - 1)) / size
  payloads : cs.flatMap Chunk.payload = data
  offset_eq : ∀ i (h : i < cs.length), cs[i].offset = offset + i * size
  payload_ne_nil : ∀ i (h : i < cs.length), cs[i].payload ≠ []
  full : ∀ i (h : i < cs.length), i + 1 < cs.length → cs[i].length = size
  isLast_iff : ∀ i (h : i < cs.length), cs[i].isLast = true ↔
    i + 1 = cs.length ∧ (data.length % size ≠ 0 ∨ declared = some data.length)

namespace Cutter

/-! ## Pieces are tiles -/

theorem getElem_pieces (k : Cutter) (data : Bytes) (i : Nat) (h : i < (k.pieces data).length) :
    (k.pieces data)[i] =
      { offset := k.offset + i * k.chunkSize
        payload := data.slice (Span.nth data.length k.chunkSize i)
        isLast := (Span.nth data.length k.chunkSize i).stop = data.length &&
          (data.length % k.chunkSize ≠ 0 || k.remaining = some data.length) } := by
  simp [pieces, Span.cover, Span.nth, max_chunkSize]

/-- A piece begins before the end, and has as many bytes as there are up to its size. -/
theorem length_getElem_pieces (k : Cutter) (data : Bytes) (i : Nat)
    (h : i < (k.pieces data).length) :
    i * k.chunkSize < data.length ∧
      (k.pieces data)[i].length = min k.chunkSize (data.length - i * k.chunkSize) := by
  rw [length_pieces] at h
  have hinside := (Span.lt_count_iff _ _ _).1 h
  rw [max_chunkSize] at hinside
  refine ⟨hinside, ?_⟩
  rw [getElem_pieces, Chunk.length, Bytes.slice_nth, max_chunkSize, List.take_length,
    List.length_take, List.length_drop]

theorem tiles_pieces (k : Cutter) (data : Bytes) :
    Chunk.Tiles k.chunkSize k.offset k.remaining data (k.pieces data) := by
  have hpos := k.chunkSize_pos
  have hcount := k.length_pieces data
  have hbefore : ∀ i, i < (k.pieces data).length ↔ i * k.chunkSize < data.length := by
    intro i
    rw [hcount, Span.lt_count_iff, max_chunkSize]
  have hbehind : ∀ i, (i + 1) * k.chunkSize = i * k.chunkSize + k.chunkSize := fun i =>
    Nat.succ_mul i k.chunkSize
  refine ⟨?count, k.flatMap_payload_pieces data, ?offset, ?nonempty, ?full, ?last⟩
  case count => rw [hcount, Span.count, max_chunkSize]
  case offset =>
    intro i h
    rw [getElem_pieces]
  case nonempty =>
    intro i h
    obtain ⟨hinside, hlength⟩ := k.length_getElem_pieces data i h
    apply List.length_pos_iff.1
    rw [Chunk.length] at hlength
    omega
  case full =>
    intro i h hnext
    obtain ⟨-, hlength⟩ := k.length_getElem_pieces data i h
    have hinside := (hbefore (i + 1)).1 hnext
    have := hbehind i
    omega
  case last =>
    intro i h
    have hinside := (hbefore i).1 h
    have hnext := hbefore (i + 1)
    have := hbehind i
    have hstop : min (i * k.chunkSize + k.chunkSize) data.length = data.length ↔
        i + 1 = (k.pieces data).length := by omega
    rw [getElem_pieces]
    simp [Span.nth, max_chunkSize, hstop]

/-- A whole number of chunks makes full pieces only, and without a limit none is known to be the
last. -/
theorem full_of_mem_pieces {k : Cutter} {data : Bytes} {count : Nat}
    (hwhole : data.length = count * k.chunkSize) (hunlimited : k.remaining = none) :
    (k.pieces data).length = count ∧
      ∀ c ∈ k.pieces data, c.length = k.chunkSize ∧ c.isLast = false := by
  have hpos := k.chunkSize_pos
  constructor
  · rw [length_pieces, Span.count, max_chunkSize, hwhole, Nat.mul_comm, Nat.mul_add_div hpos,
      Nat.div_eq_of_lt (Nat.sub_lt hpos Nat.one_pos), Nat.add_zero]
  · intro c hmem
    obtain ⟨i, hinside, rfl⟩ := List.getElem_of_mem hmem
    obtain ⟨hbefore, hlength⟩ := k.length_getElem_pieces data i hinside
    constructor
    · have hroom : (i + 1) * k.chunkSize ≤ count * k.chunkSize := by
        rw [hwhole] at hbefore
        exact Nat.mul_le_mul_right _ (Nat.lt_of_mul_lt_mul_right hbefore)
      rw [Nat.succ_mul] at hroom
      omega
    · rw [getElem_pieces]
      simp [hwhole, hunlimited]

/-! ## What a reader brings -/

/-- What a cutter without a cipher answers if this is all that comes from its reader. -/
def answersTo (k : Cutter) (f : Fill) : List (Except UploadError Chunk) :=
  match f.failure with
  | none => (k.pieces f.bytes).map .ok
  | some e =>
      let whole := f.bytes.length / k.chunkSize * k.chunkSize
      ({ k with remaining := none }.pieces (f.bytes.take whole)).map .ok ++
        [.error (.source (k.offset + whole) e)]

/-- A chunk's worth of bytes in front is answered first. -/
theorem answersTo_of_full {k k' : Cutter} {data : Bytes} {f : Fill}
    (hfull : data.length = k.chunkSize) (hsize : k'.chunkSize = k.chunkSize)
    (hoffset : k'.offset = k.offset + k.chunkSize)
    (hremaining : k'.remaining = k.remaining.map (· - k.chunkSize))
    (hgoesOn : k.remaining ≠ some k.chunkSize) :
    k.answersTo ⟨data ++ f.bytes, f.failure⟩ = .ok ⟨k.offset, data, false⟩ :: k'.answersTo f := by
  have hle : k.chunkSize ≤ (data ++ f.bytes).length := by
    rw [List.length_append]
    omega
  cases hfailure : f.failure with
  | none =>
      simp only [answersTo, hfailure]
      rw [pieces_of_full hle hsize hoffset hremaining, List.take_left' hfull, List.drop_left' hfull]
      simp [hgoesOn]
  | some e =>
      have hpos := k.chunkSize_pos
      have hwhole : (data ++ f.bytes).length / k.chunkSize * k.chunkSize =
          k.chunkSize + f.bytes.length / k'.chunkSize * k'.chunkSize := by
        rw [hsize, List.length_append, hfull, Nat.add_div_left _ hpos, Nat.succ_mul, Nat.add_comm]
      have hfront : (data ++ f.bytes).take
          (k.chunkSize + f.bytes.length / k'.chunkSize * k'.chunkSize) =
            data ++ f.bytes.take (f.bytes.length / k'.chunkSize * k'.chunkSize) := by
        rw [List.take_append, hfull, Nat.add_sub_cancel_left, List.take_of_length_le (by omega)]
      let unlimited : Cutter := { k' with remaining := none }
      simp only [answersTo, hfailure, hwhole, hfront]
      rw [show Cutter.pieces { k with remaining := none } _ = _ :: unlimited.pieces _ from
        pieces_of_full (by simp [hfull]) hsize hoffset rfl, List.take_left' hfull, List.drop_left'
          hfull]
      simp [unlimited, hoffset, Nat.add_assoc]

/-! ## The whole run -/

variable {ρ : Type} [Reader ρ]

theorem limit_le_remaining {k : Cutter} {left : Nat} (h : k.remaining = some left) :
    k.limit ≤ left := by
  rw [limit, h]
  exact Nat.min_le_left _ _

/-- The reader hands out `f` in all, as recorded, and the answers follow from it. No more comes than
the cutter may read, and all of that comes from a reader that holds it. -/
structure Takes (k : Cutter) (r : Recorded ρ) (f : Fill) : Prop where
  answers : (k.toList r).1 = k.answersTo f
  delivered : (k.toList r).2.2.delivered = r.delivered ++ f.bytes
  failures : (k.toList r).2.2.failures = r.failures ++ f.failure.toList
  bounded : ∀ left, k.remaining = some left → f.bytes.length ≤ left
  held : ∀ held, Reader.Holds r.reader held → f = ⟨k.scope held, none⟩

/-- Nothing is missing from a reading that is short, or as long as the cutter may read. -/
theorem scope_of_take {k : Cutter} {held : Bytes}
    (h : ((k.scope held).take k.chunkSize).length < k.chunkSize ∨ k.remaining = some k.chunkSize) :
    (k.scope held).take k.chunkSize = k.scope held := by
  apply List.take_of_length_le
  rcases h with hshort | hknown
  · rw [List.length_take] at hshort
    omega
  · exact length_scope_le hknown held

/-- A reading that ends the cutter is all that is taken. -/
theorem takes_of_ending {k : Cutter} {r : Recorded ρ} {f : Fill}
    (hfill : (readUpTo k.limit r.reader).1 = f)
    (hlast : f.bytes.length < k.chunkSize ∨ k.remaining = some k.chunkSize)
    (hrun : ∃ k', k.toList r = (k.answersTo f, k', (readUpTo k.limit r).2)) : Takes k r f := by
  subst hfill
  obtain ⟨-, -, hdelivered, hfailures⟩ := readUpTo_recorded k.limit r
  obtain ⟨k', hrun⟩ := hrun
  refine ⟨by rw [hrun], by rw [hrun, hdelivered], by rw [hrun, hfailures], fun left hknown => ?_,
    fun held hholds => ?_⟩
  · exact Nat.le_trans (length_readUpTo_le k.limit r.reader) (limit_le_remaining hknown)
  · rw [(reading_of_holds hholds k).1] at hlast ⊢
    rw [scope_of_take hlast]

theorem takes_of_failed {k : Cutter} {r : Recorded ρ} {data : Bytes} {e : SourceError}
    (hunfinished : k.finished = false) (hfill : (readUpTo k.limit r.reader).1 = ⟨data, some e⟩) :
    Takes k r ⟨data, some e⟩ := by
  obtain ⟨hsame, -, -, -⟩ := readUpTo_recorded k.limit r
  have hresult : (readUpTo k.limit r).1.result = .error e := by rw [hsame, hfill, Fill.result]
  have hshort := length_readUpTo_lt (congrArg Fill.failure hfill)
  rw [hfill] at hshort
  have hshort : data.length < k.chunkSize := Nat.lt_of_lt_of_le hshort k.limit_le
  refine takes_of_ending hfill (.inl hshort) ⟨k.finish, ?_⟩
  have hstep : k.absorb (readUpTo k.limit r).1.result =
      (.failed (.source k.offset e), k.finish) := by rw [hresult, absorb]
  rw [toList_of_failed hunfinished hstep, toList_of_finished (k := k.finish) rfl]
  simp [answersTo, Nat.div_eq_of_lt hshort, pieces_nil]

theorem takes_of_short {k : Cutter} {r : Recorded ρ} {data : Bytes} (hplain : k.cipher = none)
    (hunfinished : k.finished = false) (hfill : (readUpTo k.limit r.reader).1 = ⟨data, none⟩)
    (hshort : data.length < k.chunkSize) : Takes k r ⟨data, none⟩ := by
  obtain ⟨hsame, -, -, -⟩ := readUpTo_recorded k.limit r
  have hresult : (readUpTo k.limit r).1.result = .ok data := by rw [hsame, hfill, Fill.result]
  apply takes_of_ending hfill (.inl hshort)
  by_cases hnone : data = []
  · obtain ⟨k', hdone⟩ := absorb_plain_nil hplain
    refine ⟨k', ?_⟩
    rw [toList_of_done hunfinished (by rw [hresult, hnone, hdone])]
    simp [answersTo, hnone, pieces_nil]
  · have hstep := absorb_plain hplain hnone
    refine ⟨(k.absorb (.ok data)).2, ?_⟩
    rw [toList_of_chunk hunfinished (by rw [hresult, hstep]; rfl),
      toList_of_finished (by simp [hshort]), hstep]
    simp [answersTo, pieces_of_short hnone hshort, hshort, emit]

/-- A full reading ends a cutter exactly if that was all it had to read. -/
theorem full_reading_ends_iff {k : Cutter} {r : ρ} {data : Bytes}
    (hfill : (readUpTo k.limit r).1 = ⟨data, none⟩) (hfull : data.length = k.chunkSize) :
    k.remaining.map (· - k.chunkSize) = some 0 ↔ k.remaining = some k.chunkSize := by
  have hgot := length_readUpTo_le k.limit r
  rw [hfill] at hgot
  cases hknown : k.remaining with
  | none => simp
  | some left =>
      have hle := limit_le_remaining hknown
      simp only [Option.map_some, Option.some.injEq]
      simp only at hgot
      omega

/-- A full reading comes in front of what is taken from there on. -/
theorem takes_of_full {k k' : Cutter} {r : Recorded ρ} {data : Bytes} {f : Fill}
    (hfill : (readUpTo k.limit r.reader).1 = ⟨data, none⟩) (hfull : data.length = k.chunkSize)
    (hsize : k'.chunkSize = k.chunkSize) (hoffset : k'.offset = k.offset + k.chunkSize)
    (hremaining : k'.remaining = k.remaining.map (· - k.chunkSize))
    (hgoesOn : k.remaining ≠ some k.chunkSize)
    (hrun : k.toList r = (.ok ⟨k.offset, data, false⟩ ::
      (k'.toList (readUpTo k.limit r).2).1, (k'.toList (readUpTo k.limit r).2).2))
    (hrest : Takes k' (readUpTo k.limit r).2 f) : Takes k r ⟨data ++ f.bytes, f.failure⟩ := by
  obtain ⟨-, hreader, hdelivered, hfailures⟩ := readUpTo_recorded k.limit r
  have hgot := length_readUpTo_le k.limit r.reader
  rw [hfill] at hdelivered hfailures hgot
  simp only at hgot
  refine ⟨?_, ?_, ?_, fun left hknown => ?_, fun held hholds => ?_⟩
  · rw [hrun, hrest.answers, answersTo_of_full hfull hsize hoffset hremaining hgoesOn]
  · rw [hrun, hrest.delivered, hdelivered, List.append_assoc]
  · rw [hrun, hrest.failures, hfailures]
    simp
  · have hle := limit_le_remaining hknown
    have hbounded := hrest.bounded (left - k.chunkSize) (by rw [hremaining, hknown]; rfl)
    rw [List.length_append]
    omega
  · obtain ⟨hfront, hbehind⟩ := reading_of_holds hholds k
    rw [hfill, Fill.mk.injEq] at hfront
    have henough : k.chunkSize ≤ (k.scope held).length := by
      rw [← hfull, hfront.1, List.length_take]
      exact Nat.min_le_right _ _
    have htail := hrest.held _ (hreader ▸ hbehind henough)
    rw [scope_of_full henough hremaining] at htail
    rw [htail, hfront.1, List.take_append_drop]

/-- Whatever its reader does, a cutter without a cipher answers to what it takes from it. -/
theorem exists_takes {k : Cutter} (r : Recorded ρ) (hplain : k.cipher = none)
    (hunfinished : k.finished = false) : ∃ f, Takes k r f := by
  induction k, r using reading_induction with
  | finished k r hfinished => rw [hunfinished] at hfinished; cases hfinished
  | reading k r _ ih =>
      obtain ⟨hsame, -, -, -⟩ := readUpTo_recorded k.limit r
      have hle := Nat.le_trans (length_readUpTo_le k.limit r.reader) k.limit_le
      rcases hfill : (readUpTo k.limit r.reader).1 with ⟨data, failure⟩
      cases failure with
      | some e => exact ⟨_, takes_of_failed hunfinished hfill⟩
      | none =>
          rw [hfill] at hle hsame
          rcases Nat.lt_or_eq_of_le hle with hshort | hfull
          · exact ⟨_, takes_of_short hplain hunfinished hfill hshort⟩
          have hresult : (readUpTo k.limit r).1.result = .ok data := by rw [hsame, Fill.result]
          obtain ⟨k', hstep, hsize, hoffset, hremaining, hplain', hends⟩ := absorb_plain_full hplain
            hfull
          have hrun := toList_of_chunk hunfinished (r := r) (by rw [hresult, hstep])
          rw [full_reading_ends_iff hfill hfull] at hends
          cases hfinished : k'.finished with
          | true =>
              -- The cutter may read no more, so nothing is left of this reading.
              have hall := hends.1 hfinished
              refine ⟨_, takes_of_ending hfill (.inr hall) ⟨k', ?_⟩⟩
              have hnothing : data.drop k.chunkSize = [] := List.drop_eq_nil_of_le hle
              rw [hrun, toList_of_finished hfinished, answersTo]
              simp only
              rw [pieces_of_full (Nat.le_of_eq hfull.symm) hsize hoffset hremaining, hnothing,
                pieces_nil, List.take_of_length_le hle]
              simp [hall, hfull]
          | false =>
              have hgoesOn : k.remaining ≠ some k.chunkSize := fun hall => by
                rw [hends.2 hall] at hfinished
                cases hfinished
              rw [afterReading, hresult, hstep] at ih
              obtain ⟨f, hrest⟩ := ih hplain' hfinished
              refine ⟨_, takes_of_full hfill hfull hsize hoffset hremaining hgoesOn ?_ hrest⟩
              have hmore : ¬k.remaining.map (· - k.chunkSize) = some 0 := fun hnone =>
                hgoesOn ((full_reading_ends_iff hfill hfull).1 hnone)
              rw [hrun, decide_eq_false hmore]

/-- Over a reader that holds bytes a cutter without a cipher answers the pieces of those in its
scope. -/
theorem toList_of_holds {k : Cutter} {r : ρ} {held : Bytes} (hholds : Reader.Holds r held)
    (hplain : k.cipher = none) (hunfinished : k.finished = false) :
    (k.toList r).1 = (k.pieces (k.scope held)).map .ok := by
  obtain ⟨f, htakes⟩ := exists_takes ({ reader := r } : Recorded ρ) hplain hunfinished
  rw [← (k.toList_recorded { reader := r }).1, htakes.answers, htakes.held held hholds, answersTo]

/-- Over a delivering source a cutter without a cipher answers the pieces of the bytes in its
scope. -/
theorem toList_plain {k : Cutter} {s : Source} (hs : s.script.Delivers) (hplain : k.cipher = none)
    (hunfinished : k.finished = false) :
    (k.toList s).1 = (k.pieces (k.scope s.rest)).map .ok :=
  toList_of_holds (Source.holds_of_delivers hs) hplain hunfinished

/-- Whatever the reader does, a cutter without a cipher answers the tiles of what it reads.

A reader that holds bytes is read as far as the declared length allows, and the tiles are those of
what was read. If the reader fails, the chunks that were full by then are answered, and the failure
where the next chunk would have begun. In any case nothing is answered and nothing is read from then
on, as long as the offsets fit into 64 bits, and no byte beyond the declared length is ever read. -/
theorem tiles_reader (size offset : Nat) (declared : Option Nat) (r : ρ) :
    let k : Cutter := { ofSize size with offset, remaining := declared }
    let start : Recorded ρ := { reader := r }
    let last := (k.toList start).2.2
    let whole := last.delivered.length / max size 1
    (∀ held, Reader.Holds r held → last.failures = [] ∧ last.delivered = k.scope held) ∧
    (last.failures = [] → offset + last.delivered.length < UInt64.size → ∃ cs,
      Chunk.Tiles (max size 1) offset declared last.delivered cs ∧
      (∀ n, k.answer r n = (cs.map .ok)[n]?) ∧
      ∀ n, cs.length < n → (k.after start n).2 = last) ∧
    (∀ e ∈ last.failures, offset + last.delivered.length < UInt64.size → ∃ cs,
      Chunk.Tiles (max size 1) offset none (last.delivered.take (whole * max size 1)) cs ∧
      cs.length = whole ∧ (∀ c ∈ cs, c.length = max size 1 ∧ c.isLast = false) ∧
      (∀ n, k.answer r n =
        (cs.map .ok ++ [.error (.source (offset + whole * max size 1) e)])[n]?) ∧
      ∀ n, cs.length + 1 < n → (k.after start n).2 = last) ∧
    ∀ limit, declared = some limit → last.delivered.length ≤ limit := by
  intro k start last whole
  obtain ⟨f, htakes⟩ := exists_takes start (k := k) rfl rfl
  have hdelivered : last.delivered = f.bytes := htakes.delivered
  have hfailures : last.failures = f.failure.toList := htakes.failures
  have hanswer : ∀ n, k.answer r n = (k.answersTo f)[n]? := by
    intro n
    rw [answer_eq_getElem?, ← htakes.answers, (k.toList_recorded start).1]
  have hafter : ∀ n, (k.answersTo f).length < n → (k.after start n).2 = last := by
    intro n hused
    rw [after_of_used_up (htakes.answers ▸ hused)]
  refine ⟨?held, ?tiles, ?failed, ?bounded⟩
  case held =>
    intro held hholds
    rw [hdelivered, hfailures, htakes.held held hholds]
    exact ⟨rfl, rfl⟩
  case tiles =>
    intro hcalm _
    have hnone : f.failure = none := by simpa [hfailures] using hcalm
    simp only [answersTo, hnone, List.length_map] at hanswer hafter
    rw [hdelivered]
    exact ⟨k.pieces f.bytes, k.tiles_pieces f.bytes, hanswer, hafter⟩
  case failed =>
    intro e hmem _
    have hsome : f.failure = some e := by simpa [hfailures] using hmem
    simp only [answersTo, hsome, List.length_append, List.length_map, List.length_singleton]
      at hanswer hafter
    simp only [whole, hdelivered]
    let front := f.bytes.take (f.bytes.length / k.chunkSize * k.chunkSize)
    have hlong : front.length = f.bytes.length / k.chunkSize * k.chunkSize :=
      List.length_take_of_le (Nat.div_mul_le_self _ _)
    obtain ⟨hcount, hfull⟩ := full_of_mem_pieces (k := { k with remaining := none }) hlong rfl
    exact ⟨_, tiles_pieces { k with remaining := none } front, hcount, hfull, hanswer, hafter⟩
  case bounded =>
    intro limit hknown
    rw [hdelivered]
    exact htakes.bounded limit hknown

/-- A source that is interrupted is tiled to its end, one that breaks up to the last full chunk. -/
theorem tiles_reader_hesitant :
    let k : Cutter := { ofSize 2 with offset := 7 }
    let broken : Source :=
      { data := [1, 2, 3, 4, 5]
        script := .ofList [.upTo 1, .freely, .upTo 1, .fail ⟨.other "", "disk"⟩] }
    (∃ cs, Chunk.Tiles 2 7 none [1, 2, 3, 4, 5] cs ∧
      ∀ n, k.answer (Source.hesitant [1, 2, 3, 4, 5]) n = (cs.map .ok)[n]?) ∧
    ∃ cs, Chunk.Tiles 2 7 none [1, 2] cs ∧
      ∀ n, k.answer broken n = (cs.map .ok ++ [.error (.source 9 ⟨.other "", "disk"⟩)])[n]? := by
  intro k broken
  constructor
  · obtain ⟨hheld, htiles, -, -⟩ := tiles_reader 2 7 none (Source.hesitant [1, 2, 3, 4, 5])
    obtain ⟨hcalm, hdelivered⟩ := hheld _
      (Source.holds_of_delivers (Source.wellBehaved_hesitant [1, 2, 3, 4, 5]).delivers)
    obtain ⟨cs, hwhole, hanswers, -⟩ := htiles hcalm (hdelivered ▸ by decide)
    rw [hdelivered] at hwhole
    exact ⟨cs, hwhole, hanswers⟩
  · let last := (k.toList ({ reader := broken } : Recorded Source)).2.2
    have hdelivered : last.delivered = [1, 2, 3] := by decide +kernel
    have hfailures : last.failures = [⟨.other "", "disk"⟩] := by decide +kernel
    obtain ⟨-, -, hfailed, -⟩ := tiles_reader 2 7 none broken
    obtain ⟨cs, hfront, -, -, hanswers, -⟩ := hfailed _ (hfailures.symm ▸ List.mem_singleton_self _)
      (hdelivered.symm ▸ by decide)
    change Chunk.Tiles 2 7 none (last.delivered.take (last.delivered.length / 2 * 2)) cs at hfront
    change ∀ n, k.answer broken n = (cs.map .ok ++
      [.error (.source (7 + last.delivered.length / 2 * 2) ⟨.other "", "disk"⟩)])[n]? at hanswers
    rw [hdelivered] at hfront hanswers
    exact ⟨cs, hfront, hanswers⟩

end Cutter

end BlobUpload
