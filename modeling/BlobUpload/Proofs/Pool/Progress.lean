import BlobUpload.Proofs.Pool.Jobs
import BlobUpload.Proofs.Pool.Runs
import BlobUpload.Proofs.Window.View

/-! # Pools in which nothing goes wrong

The workers of a pool send a part of the data of a source to a block blob. If the source is
well-behaved, the blob takes every block and nobody aborts, a worker goes through a claimed span in
one go: `Job.Progress` lists what its steps can be. -/

namespace BlobUpload

namespace Job

variable {job : Job}

/-! ## Where a worker stands -/

/-- A worker has read `got` out of the bytes of a span. -/
structure Reads (job : Job) (s : Span) (k : Cutter) (w : Window) (got : Bytes) : Prop where
  mem : s ∈ job.spans
  cutter : k = Pool.cutterFor job.settings s
  reflects : w.Reflects job.data
  addressable : w.Addressable job.data
  view : w.view job.data = job.share s
  position : w.position = got.length
  got : got <+: job.share s

/-- What one reading in a span makes of a worker. -/
inductive Gains (job : Job) (writer : Writer) (s : Span) (k : Cutter) : Worker → Prop
  | more {w : Window} {got : Bytes} : job.Reads s k w got → Gains job writer s k (.reading k w got)
  | blank : job.share s = [] → Gains job writer s k .starting
  | whole {k' : Cutter} {w : Window} : job.share s ≠ [] → k'.finished = true →
    Gains job writer s k (match writer.check ⟨s.start, job.share s, true⟩ with
      | .ok () => .sending k' w ⟨s.start, job.share s, true⟩ 0
      | .error e => .stopping e)

/-- What a worker may be about to do once `blocks` have been staged. -/
def Allows (job : Job) (blocks : List (String × Bytes)) : Worker → Prop
  | .starting | .claiming | .ended => True
  | .checking s => s ∈ job.spans
  | .reading k w got => k.finished = true ∨ ∃ s, job.Reads s k w got
  | .sending k _ c _ => k.finished = true ∧ job.Cuts c
  | .counting k _ c token | .filing k _ c token =>
    k.finished = true ∧ job.Cuts c ∧ c.block ∈ blocks ∧ token = .block (blockId c.offset)
  | .stopping _ | .reporting _ => False

/-- Apart from its workers and what they have filed, a pool is as it should be. -/
structure Sound (job : Job) (blocks : List (String × Bytes)) (p : Pool Blob) : Prop where
  addressable : job.Addressable
  settings : p.session.settings = job.settings
  writer : p.session.writer = .block job.settings.envelope
  calm : p.session.Undisturbed
  service : p.session.service = job.start.stageAll blocks
  staged : ∀ block ∈ blocks, block ∈ job.chunks.map Chunk.block
  serves : p.common.Serves job.data
  origin : p.common.origin = job.origin
  running : p.stop = false
  unfailed : p.failure = none
  queue : ∀ s ∈ p.queue, s ∈ job.spans
  tokens : ∀ entry ∈ p.tokens, ∃ c ∈ job.chunks,
    c.block ∈ blocks ∧ entry = (c.offset, .block (blockId c.offset))

/-- What a worker of a sound pool can do in one step, and what becomes of the pool. A chunk is only
`dropped` or `lost`, and sent once more, if the requests are passed on by somebody. -/
inductive Progress (job : Job) (p : Pool Blob) : Worker → Worker → Pool Blob → Prop
  | proceed : Progress job p .starting .claiming p
  | drained : p.queue = [] → Progress job p .claiming .ended p
  | claim {s : Span} {queue : List Span} : p.queue = s :: queue →
    Progress job p .claiming (.checking s) { p with queue }
  | enter {s : Span} {k : Cutter} {w : Window} : job.Reads s k w [] →
    Progress job p (.checking s) (.reading k w []) p
  | read {s : Span} {k : Cutter} {w w' : Window} {got got' : Bytes} {source : Source} :
    job.Reads s k w got → job.Reads s k w' got' →
    ({ p.common with source } : CommonSource).Serves job.data →
    Progress job p (.reading k w got) (.reading k w' got')
      { p with common := { p.common with source } }
  | blank {s : Span} {k : Cutter} {w : Window} {got : Bytes} {source : Source} :
    job.Reads s k w got → job.share s = [] →
    ({ p.common with source } : CommonSource).Serves job.data →
    Progress job p (.reading k w got) .starting { p with common := { p.common with source } }
  | cut {s : Span} {k k' : Cutter} {w w' : Window} {got : Bytes} {c : Chunk} {source : Source} :
    job.Reads s k w got → c.offset = s.start → c.payload = job.share s → job.share s ≠ [] →
    k'.finished = true → ({ p.common with source } : CommonSource).Serves job.data →
    Progress job p (.reading k w got) (.sending k' w' c 0)
      { p with common := { p.common with source } }
  | close {k : Cutter} {w : Window} {got : Bytes} : k.finished = true →
    Progress job p (.reading k w got) .starting p
  | write {k : Cutter} {w : Window} {c : Chunk} {sent : Nat} :
    Progress job p (.sending k w c sent) (.counting k w c (.block (blockId c.offset)))
      { p with session := { p.session with service := p.session.service.stage c.block } }
  | dropped {k : Cutter} {w : Window} {c : Chunk} {sent : Nat} :
    Progress job p (.sending k w c sent) (.sending k w c (sent + 1)) p
  | lost {k : Cutter} {w : Window} {c : Chunk} {sent : Nat} :
    Progress job p (.sending k w c sent) (.sending k w c (sent + 1))
      { p with session := { p.session with service := p.session.service.stage c.block } }
  | count {k : Cutter} {w : Window} {c : Chunk} {token : Token} :
    Progress job p (.counting k w c token) (.filing k w c token)
      { p with session := p.session.advance c.length }
  | file {k : Cutter} {w : Window} {c : Chunk} {token : Token} : k.finished = true →
    Progress job p (.filing k w c token) (.reading k w [])
      { p with tokens := fileToken c.offset token p.tokens }
  | rest : Progress job p .ended .ended p

end Job

namespace Pool

variable {job : Job} {blocks : List (String × Bytes)} {p : Pool Blob}

theorem reads_openSpan {σ : Type} {p : Pool σ} (haddr : job.Addressable)
    (hsettings : p.session.settings = job.settings) (horigin : p.common.origin = job.origin)
    {s : Span} (hs : s ∈ job.spans) :
    ∃ k w, p.openSpan s = .reading k w [] ∧ job.Reads s k w [] := by
  have hview : (p.common.window s.start s.length p.session.settings.windowCapacity).view job.data =
      job.share s := by
    rw [Window.view_window, horigin]
    rfl
  refine ⟨_, _, rfl, hs, by rw [hsettings], Window.reflects_window _ _ _ _ _, ?_, hview, rfl,
    List.nil_prefix⟩
  rw [Window.Addressable, hview]
  change Offset.add p.common.origin s.start + max 0 _ < _
  rw [horigin, Nat.zero_max]
  exact haddr s hs

/-- Over a source that serves, a worker that reads in a span reads on, or it has got the whole share
of the span. -/
theorem gains_stepReading {σ : Type} {p : Pool σ} (hserves : p.common.Serves job.data) {s : Span}
    {k : Cutter} {w : Window} {got : Bytes} (hreads : job.Reads s k w got) :
    ∃ source, ({ p.common with source } : CommonSource).Serves job.data ∧
      (stepReading k w got p).2 = { p with common := { p.common with source } } ∧
      job.Gains p.session.writer s k (stepReading k w got p).1 := by
  have hunfinished : k.finished = false := by rw [hreads.cutter]; rfl
  have hshort : Short job.settings s := short_of_mem_cover hreads.mem
  have hlimit : k.limit = s.length := by rw [hreads.cutter, limit_cutterFor hshort]
  have hwhole : (job.share s).length ≤ s.length := List.length_take_le _ _
  have hfinish : got = job.share s → ∀ w',
      job.Gains p.session.writer s k (afterReading p.session.writer w' (.ok got) k) := by
    intro hall w'
    rw [hall]
    rcases afterReading_cutterFor hshort hwhole p.session.writer w' with
      ⟨hnone, hafter⟩ | ⟨hne, k', hfinished, hafter⟩
    · rw [hreads.cutter, hafter]
      exact .blank hnone
    · rw [hreads.cutter, hafter]
      exact .whole hne hfinished
  rw [stepReading, if_neg (by simp [hunfinished]), hlimit]
  split
  · rename_i henough
    exact ⟨p.common.source, hserves, rfl, hfinish (hreads.got.eq_of_length_le (by omega)) w⟩
  · rename_i hshort
    obtain ⟨w', source, hanswer, hserves', hreflects, haddressable, hview, hposition⟩ :=
      Window.read_of_serves hserves hreads.reflects hreads.addressable (s.length - got.length)
    rw [hreads.view, hreads.position] at hanswer hposition
    rw [hanswer]
    obtain ⟨tail, hjoined⟩ := hreads.got
    have hahead : (job.share s).drop got.length = tail := by
      rw [← hjoined, List.drop_left]
    rw [hahead] at hanswer hposition
    simp only [hahead]
    refine ⟨source, hserves', ?_⟩
    cases hmore : tail.take (s.length - got.length) with
    | nil =>
        have hnone : tail = [] := by
          rcases List.take_eq_nil_iff.1 hmore with hzero | hnone
          · omega
          · exact hnone
        exact ⟨rfl, hfinish (by rw [← hjoined, hnone, List.append_nil]) w'⟩
    | cons b bytes =>
        refine ⟨rfl, .more ⟨hreads.mem, hreads.cutter, hreflects, haddressable,
          hview.trans hreads.view, ?_, ?_⟩⟩
        · rw [hposition, hmore, List.length_append]
        · rw [← hjoined, ← hmore]
          exact (List.prefix_append_right_inj got).2 (List.take_prefix _ _)

/-- A reading step of a worker reads on, or it has got the whole share of its span. -/
theorem progress_stepReading (hsound : job.Sound blocks p) {s : Span} {k : Cutter} {w : Window}
    {got : Bytes} (hreads : job.Reads s k w got) :
    job.Progress p (.reading k w got) (stepReading k w got p).1 (stepReading k w got p).2 := by
  obtain ⟨source, hserves, hafter, hgains⟩ := gains_stepReading hsound.serves hreads
  rw [hafter]
  generalize (stepReading k w got p).1 = w' at hgains
  cases hgains with
  | more hreads' => exact .read hreads hreads' hserves
  | blank hnone => exact .blank hreads hnone hserves
  | whole hne hfinished =>
      rw [hsound.writer]
      exact .cut hreads rfl rfl hne hfinished hserves

/-- A block blob that admits the lease stages the chunk at once. -/
theorem stepSending_of_sound (hsound : job.Sound blocks p)
    (hadmits : job.start.Admits job.settings.leaseId) (k : Cutter) (w : Window) (c : Chunk)
    (sent : Nat) :
    stepSending k w c sent p = (.counting k w c (.block (blockId c.offset)),
      { p with session := { p.session with service := p.session.service.stage c.block } }) := by
  have hlease : p.session.service.Admits job.settings.envelope.lease := by
    rw [hsound.service]
    exact Blob.admits_stageAll hadmits blocks
  have hwritten : Writer.write (.block job.settings.envelope) c p.session.service =
      (.ok (.block (blockId c.offset)), .block job.settings.envelope,
        p.session.service.stage c.block) := by
    have hanswer := Blob.answer_putBlock hlease (blockId c.offset) c.payload
    rw [Writer.write]
    simp only [Writer.request, hanswer]
    rfl
  rw [stepSending, hsound.writer, hwritten, ← hsound.writer]

/-- Every step of a sound pool is progress. -/
theorem progress_stepWorker (hsound : job.Sound blocks p)
    (hadmits : job.start.Admits job.settings.leaseId) {w : Worker}
    (hallowed : job.Allows blocks w) :
    job.Progress p w (stepWorker w p).1 (stepWorker w p).2 := by
  cases w with
  | starting =>
      rw [stepWorker, hsound.running]
      exact .proceed
  | claiming =>
      rw [stepWorker]
      split
      · rename_i hnone
        exact .drained hnone
      · rename_i s queue hnext
        exact .claim hnext
  | checking s =>
      obtain ⟨k, w, hopened, hreads⟩ := reads_openSpan hsound.addressable hsound.settings
        hsound.origin hallowed
      rw [stepWorker, Session.checkAbort_of_undisturbed hsound.calm]
      simp only
      rw [hopened]
      exact .enter hreads
  | reading k w got =>
      rcases hallowed with hfinished | ⟨s, hreads⟩
      · rw [stepWorker, stepReading, if_pos hfinished]
        exact .close hfinished
      · exact progress_stepReading hsound hreads
  | sending k w c sent =>
      rw [stepWorker, stepSending_of_sound hsound hadmits]
      exact .write
  | counting k w c token => exact .count
  | filing k w c token => exact .file hallowed.1
  | stopping e => exact hallowed.elim
  | reporting e => exact hallowed.elim
  | ended => exact .rest

end Pool

end BlobUpload
