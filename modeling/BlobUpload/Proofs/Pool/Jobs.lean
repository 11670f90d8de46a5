import BlobUpload.Proofs.Cutter.Equations
import BlobUpload.Proofs.Service.StagedBlocks
import BlobUpload.Upload.Pool.Work
import Mathlib.Data.List.Nodup
import Mathlib.Data.List.Sort

/-! # What a pool has to do

A job is a part of the data of a source, cut along spans. Each span with any bytes makes a chunk of
its own. As long as the part ends within 64 bits these are the chunks that a single worker would
make of it (`map_patch_chunks`). -/

namespace BlobUpload

/-- What a pool has to do: to stage `length` bytes of `data` from `origin` on. -/
structure Job where
  settings : Settings
  data : Bytes
  origin : Nat
  length : Nat
  /-- The blob before the pool begins. -/
  start : Blob

namespace Job

def spans (job : Job) : List Span := Span.cover job.length job.settings.chunkSize

/-- The bytes of a span, as far as there are any, from where its window begins. -/
def share (job : Job) (s : Span) : Bytes :=
  (job.data.drop (Offset.add job.origin s.start)).take s.length

/-- The bytes to be staged. -/
def content (job : Job) : Bytes := job.spans.flatMap job.share

/-- The chunks that the bytes are to be staged in, one after another: one for each span that has
any. -/
def chunks (job : Job) : List Chunk :=
  (job.spans.filter (job.share · ≠ [])).map fun s => ⟨s.start, job.share s, true⟩

/-- A chunk with the offset and the payload of one that is to be staged. -/
def Cuts (job : Job) (c : Chunk) : Prop :=
  ∃ d ∈ job.chunks, c.offset = d.offset ∧ c.payload = d.payload

/-- No window over a span leaves 64 bits. -/
def Addressable (job : Job) : Prop :=
  ∀ s ∈ job.spans, Offset.add job.origin s.start + (job.share s).length < UInt64.size

variable {job : Job}

theorem mem_chunks {c : Chunk} :
    c ∈ job.chunks ↔ ∃ s ∈ job.spans, job.share s ≠ [] ∧ ⟨s.start, job.share s, true⟩ = c := by
  simp [chunks, and_assoc]

theorem eq_of_start_eq {s t : Span} (hs : s ∈ job.spans) (ht : t ∈ job.spans)
    (hsame : s.start = t.start) : s = t :=
  List.inj_on_of_nodup_map (Span.nodup_starts job.length job.settings.chunkSize) hs ht hsame

theorem sorted_chunks (job : Job) : job.chunks.Pairwise (·.offset < ·.offset) :=
  List.pairwise_map.2 ((Span.sorted_cover job.length job.settings.chunkSize).filter _)

theorem eq_of_offset_eq {c : Chunk} (hc : c ∈ job.chunks) {d : Chunk} (hd : d ∈ job.chunks)
    (hsame : c.offset = d.offset) : c = d := by
  obtain ⟨s, hs, -, rfl⟩ := mem_chunks.1 hc
  obtain ⟨t, ht, -, rfl⟩ := mem_chunks.1 hd
  rw [eq_of_start_eq hs ht hsame]

theorem flatMap_payload_chunks (job : Job) : job.chunks.flatMap Chunk.payload = job.content := by
  rw [chunks, content, List.flatMap_map]
  induction job.spans with
  | nil => rfl
  | cons s spans ih =>
      by_cases hempty : job.share s = []
      · rw [List.filter_cons_of_neg (by simp [hempty]), ih, List.flatMap_cons, hempty,
          List.nil_append]
      · rw [List.filter_cons_of_pos (by simp [hempty]), List.flatMap_cons, List.flatMap_cons, ih]

theorem content_eq_nil_iff : job.chunks.flatMap Chunk.payload = [] ↔ job.chunks = [] := by
  rw [List.flatMap_eq_nil_iff, List.eq_nil_iff_forall_not_mem]
  refine forall_congr' fun c => imp_congr_right fun hc => ?_
  obtain ⟨s, -, hne, rfl⟩ := mem_chunks.1 hc
  exact iff_of_false hne id

/-- A span with any bytes holds the bytes of a chunk. -/
theorem cuts_of_share {s : Span} (hs : s ∈ job.spans) (hne : job.share s ≠ []) {c : Chunk}
    (hoffset : c.offset = s.start) (hpayload : c.payload = job.share s) : job.Cuts c :=
  ⟨_, mem_chunks.2 ⟨s, hs, hne, rfl⟩, hoffset, hpayload⟩

/-- Every chunk is what a span holds. -/
theorem span_of_mem_chunks {c : Chunk} (hc : c ∈ job.chunks) :
    ∃ s ∈ job.spans, s.start = c.offset := by
  obtain ⟨s, hs, -, rfl⟩ := mem_chunks.1 hc
  exact ⟨s, hs, rfl⟩

/-- Where a chunk begins there are bytes. -/
theorem share_ne_nil {s : Span} (hs : s ∈ job.spans) {c : Chunk} (hc : c ∈ job.chunks)
    (hsame : s.start = c.offset) : job.share s ≠ [] := by
  obtain ⟨t, ht, hne, rfl⟩ := mem_chunks.1 hc
  rwa [eq_of_start_eq hs ht hsame]

theorem sum_length_share (job : Job) :
    sumOver (fun s => (job.share s).length) job.spans = job.content.length :=
  (length_flatMap job.share job.spans).symm

theorem length_share_le (job : Job) (s : Span) : (job.share s).length ≤ s.length :=
  List.length_take_le _ _

/-! ## Jobs within 64 bits -/

theorem addressable_of_data (hdata : job.data.length < UInt64.size) : job.Addressable := by
  intro s _
  have hstart := Offset.add_lt job.origin s.start
  rw [share, List.length_take, List.length_drop]
  omega

section

variable (hfits : job.origin + job.length < UInt64.size)

include hfits

theorem share_eq {s : Span} (hs : s ∈ job.spans) :
    job.share s = Bytes.slice (job.data.drop job.origin) s := by
  obtain ⟨hpos, hstop, -⟩ := Span.bounds_of_mem hs
  rw [share, Offset.add_of_lt (by omega), ← List.drop_drop]
  rfl

theorem addressable_of_length : job.Addressable := by
  intro s hs
  obtain ⟨hpos, hstop, -⟩ := Span.bounds_of_mem hs
  have hshare := job.length_share_le s
  rw [Offset.add_of_lt (by omega)]
  rw [Span.length] at hshare
  omega

/-- The bytes to be staged lie one after another in the data. -/
theorem content_eq : job.content = (job.data.drop job.origin).take job.length := by
  rw [content, List.flatMap_congr fun s hs => share_eq hfits hs]
  exact Bytes.flatMap_slice_cover _ job.length job.settings.chunkSize

end

end Job

end BlobUpload
