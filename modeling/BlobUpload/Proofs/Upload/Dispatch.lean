import BlobUpload.Proofs.Cutter.EncryptedChunks
import BlobUpload.Proofs.Cutter.PlainChunks
import BlobUpload.Proofs.Session.SendEquations
import BlobUpload.Upload.Basic

/-! # How an upload starts

An upload whose settings break no rule measures its source, if it has to, and goes one of a few
ways: it gives up, or it sends the whole by one request, one chunk after another, or by several
workers. `Way` lists them. -/

namespace BlobUpload

/-- The bytes of a source that the settings ask for. -/
def Settings.excerpt (s : Settings) (source : Source) : Bytes :=
  match s.sourceLength with
  | some length => source.rest.take length
  | none => source.rest

/-- If several workers share the source, 64 bits address all that is to be sent of it. A single
worker reads on from where the source stands and addresses nothing. -/
def Settings.Addresses (s : Settings) (source : Source) : Prop :=
  s.isParallel = true → source.position + s.sourceLength.getD source.rest.length < UInt64.size

/-- What is sent for these bytes. -/
def Settings.encoded (s : Settings) (data : Bytes) : Bytes :=
  match s.encryption with
  | some key => key.stream.ciphertext data
  | none => data

namespace Settings

variable {s : Settings}

theorem writer_of_block (hkind : s.blobType = .block) : s.writer = .block s.envelope := by
  rw [writer, hkind]

theorem writer_of_append (hkind : s.blobType = .append) :
    s.writer = .append s.envelope s.maxSize none := by rw [writer, hkind]

theorem writer_of_page (hkind : s.blobType = .page) :
    s.writer = .page s.envelope (!s.isParallel) (if s.isParallel then none else s.ifMatch) := by
  rw [writer, hkind]

/-- Whole pages are a fit for any kind of blob. -/
theorem lengthViolation?_of_pages {length : Nat} (hwhole : length % pageSize = 0) :
    s.lengthViolation? length = none := by
  rw [lengthViolation?, if_neg (by simp [hwhole])]

/-- Whole pages may be sent as they are by any number of workers. -/
theorem validate_of_page (hkind : s.blobType = .page) (hchunkSize : 0 < s.chunkSize)
    (hsize : s.chunkSize % pageSize = 0) (hparallelism : 0 < s.parallelism)
    (hwindow : 0 < s.windowCapacity) (hplain : s.encryption = none)
    (hwhole : ∀ length, s.sourceLength = some length → length % pageSize = 0) :
    s.validate = .ok () := by
  have hfits : s.sourceLength.bind s.lengthViolation? = none := by
    cases hknown : s.sourceLength with
    | none => rfl
    | some length => exact lengthViolation?_of_pages (hwhole length hknown)
  have hunencrypted : s.isEncrypted = false := by rw [isEncrypted, hplain]; rfl
  have hnone : s.violation? = none := by
    rw [violation?, if_neg (Nat.ne_of_gt hchunkSize), if_neg (Nat.ne_of_gt hparallelism),
      if_neg (Nat.ne_of_gt hwindow), hunencrypted, if_neg (by simp), hkind]
    simp only [hfits, hsize, ne_eq, not_true_eq_false, if_false, Bool.false_eq_true]
  rw [validate, hnone]

theorem isParallel_of_alone (halone : s.parallelism = 1) : s.isParallel = false := by
  simp [isParallel, halone]

theorem alone_of_isParallel (hparallelism : 0 < s.parallelism) (hsingle : s.isParallel = false) :
    s.parallelism = 1 := by
  simp only [isParallel, decide_eq_false_iff_not] at hsingle
  omega

/-- A single worker may send anything but encrypted pages. -/
theorem validate_of_alone (hkind : s.blobType ≠ .page) (hchunkSize : 0 < s.chunkSize)
    (halone : s.parallelism = 1) (hwindow : 0 < s.windowCapacity) : s.validate = .ok () := by
  have hnone : s.violation? = none := by
    rw [violation?, if_neg (Nat.ne_of_gt hchunkSize), if_neg (by omega),
      if_neg (Nat.ne_of_gt hwindow), isParallel_of_alone halone, if_neg (by simp)]
    cases htype : s.blobType with
    | block => rfl
    | page => exact absurd htype hkind
    | append => rfl
  rw [validate, hnone]

theorem violation?_of_validate (h : s.validate = .ok ()) : s.violation? = none := by
  cases hbroken : s.violation? with
  | none => rfl
  | some rule => rw [validate, hbroken] at h; cases h

theorem violation_of_validate {e : UploadError} (h : s.validate = .error e) :
    ∃ rule, e = .violation rule := by
  rw [validate] at h
  split at h
  · exact ⟨_, (Except.error.inj h).symm⟩
  · cases h

/-- What settings that are accepted have in common. -/
theorem of_validate (h : s.validate = .ok ()) :
    0 < s.chunkSize ∧ 0 < s.parallelism ∧ 0 < s.windowCapacity ∧
      (s.blobType = .append → s.parallelism = 1) := by
  have hnone := violation?_of_validate h
  rw [violation?] at hnone
  split at hnone
  · cases hnone
  split at hnone
  · cases hnone
  split at hnone
  · cases hnone
  split at hnone
  · cases hnone
  refine ⟨by omega, by omega, by omega, fun hkind => ?_⟩
  cases hseveral : s.isParallel with
  | true => simp [hkind, hseveral] at hnone
  | false => exact alone_of_isParallel (by omega) hseveral

/-- What settings for pages that are accepted have in common. -/
theorem of_validate_page (hvalid : s.validate = .ok ()) (hkind : s.blobType = .page) :
    s.chunkSize % pageSize = 0 ∧ s.encryption = none ∧
      ∀ length, s.sourceLength = some length → length % pageSize = 0 := by
  have hnone := violation?_of_validate hvalid
  rw [violation?, hkind] at hnone
  split at hnone
  · cases hnone
  split at hnone
  · cases hnone
  split at hnone
  · cases hnone
  split at hnone
  · cases hnone
  simp only at hnone
  split at hnone
  · cases hnone
  rename_i hsize
  split at hnone
  · cases hnone
  rename_i hfits
  split at hnone
  · cases hnone
  rename_i hplain
  refine ⟨Decidable.not_not.1 hsize, ?_, fun length hknown => ?_⟩
  · cases hkey : s.encryption with
    | none => rfl
    | some key' => exact absurd (by rw [isEncrypted, hkey]; rfl) hplain
  · rw [hknown, Option.bind_some, lengthViolation?, hkind] at hfits
    refine Decidable.byContradiction fun hodd => ?_
    rw [if_pos (by simp [hodd])] at hfits
    cases hfits

theorem lengthViolation?_of_ne_page (hkind : s.blobType ≠ .page) (length : Nat) :
    s.lengthViolation? length = none := by
  rw [lengthViolation?, if_neg (by simp [hkind])]

theorem singlePutLength?_of_none (hwhole : s.singlePutThreshold = none) (length : Option Nat) :
    s.singlePutLength? length = none := by
  unfold singlePutLength?
  split
  · rename_i hfound
    rw [hwhole] at hfound
    cases hfound
  · rfl

/-- Only block blobs are written by one request, and only if their length is known. -/
theorem of_singlePutLength? {length : Option Nat} {n : Nat}
    (h : s.singlePutLength? length = some n) : s.blobType = .block ∧ length = some n := by
  unfold singlePutLength? at h
  split at h
  · rename_i hkind _
    split at h
    · exact ⟨hkind, h⟩
    · cases h
  · cases h

/-- Over a delivering source the cutter makes chunks only, and together they are what is sent. -/
theorem toList_cutter {source : Source} (hs : source.script.Delivers) (length : Option Nat) :
    ∃ cs : List Chunk, ((s.cutter length).toList source).1 = cs.map .ok ∧
      cs.flatMap Chunk.payload = s.encoded ((s.cutter length).scope source.rest) := by
  cases hencryption : s.encryption with
  | none =>
      have hcipher : (s.cutter length).cipher = none := by rw [cutter, hencryption]; rfl
      refine ⟨_, Cutter.toList_plain hs hcipher rfl, ?_⟩
      rw [Cutter.flatMap_payload_pieces, encoded, hencryption]
  | some key =>
      have hcipher : (s.cutter length).cipher = some key.stream := by rw [cutter, hencryption]; rfl
      obtain ⟨cs, hanswers, hjoined⟩ := Cutter.toList_encrypted hs hcipher rfl rfl
      exact ⟨cs, hanswers, by rw [hjoined, encoded, hencryption]⟩

end Settings

namespace Upload

variable {σ : Type} {u : Upload σ}

/-- How an upload is called: with a seekable source and the order in which its workers take turns,
or with a source that can only be read. -/
inductive Call where
  | seekable (schedule : List Pool.Action)
  | stream

/-- Runs an upload as it is called. -/
def call [Service σ] (source : Source) (u : Upload σ) : Call → Ending σ
  | .seekable schedule => u.upload source schedule
  | .stream => u.uploadStream source

/-- Nobody aborts the upload, before it or while it runs. -/
structure Undisturbed (u : Upload σ) : Prop where
  abort : u.abort = {}
  watch : ∀ watch, u.watch = some watch → ∀ reports, watch.abortsOn reports = false

theorem Undisturbed.enter (hcalm : u.Undisturbed) (next : Phase) : (u.enter next).Undisturbed :=
  ⟨hcalm.abort, hcalm.watch⟩

theorem session_eq (total : Option Nat) (u : Upload σ) : ∃ reports abort,
    u.session total =
      { settings := u.settings, service := u.service, writer := u.settings.writer,
        watch := u.watch, reports, abort, total } := Session.report_eq _

@[simp] theorem settings_session (total : Option Nat) (u : Upload σ) :
    (u.session total).settings = u.settings := by
  obtain ⟨_, _, heq⟩ := session_eq total u
  rw [heq]

@[simp] theorem service_session (total : Option Nat) (u : Upload σ) :
    (u.session total).service = u.service := by
  obtain ⟨_, _, heq⟩ := session_eq total u
  rw [heq]

@[simp] theorem writer_session (total : Option Nat) (u : Upload σ) :
    (u.session total).writer = u.settings.writer := by
  obtain ⟨_, _, heq⟩ := session_eq total u
  rw [heq]

@[simp] theorem completed_session (total : Option Nat) (u : Upload σ) :
    (u.session total).completed = 0 := by
  obtain ⟨_, _, heq⟩ := session_eq total u
  rw [heq]

@[simp] theorem watch_session (total : Option Nat) (u : Upload σ) :
    (u.session total).watch = u.watch := by
  obtain ⟨_, _, heq⟩ := session_eq total u
  rw [heq]

theorem Undisturbed.session (hcalm : u.Undisturbed) (total : Option Nat) :
    (u.session total).Undisturbed :=
  Session.Undisturbed.report ⟨hcalm.abort, hcalm.watch⟩

theorem start_of_valid {source : Source} {run : Source → Upload σ → Ending σ}
    (hidle : u.life.current = .idle) (hvalid : u.settings.validate = .ok ()) :
    u.start run source = settle (run source (u.enter .splitting)) := by
  have hsame : (u.enter .splitting).settings.validate = .ok () := hvalid
  rw [start, if_neg (by simp [hidle])]
  simp only [hsame]

theorem start_of_invalid {source : Source} {run : Source → Upload σ → Ending σ} {e : UploadError}
    (hidle : u.life.current = .idle) (hinvalid : u.settings.validate = .error e) :
    u.start run source = (.error e, source, (u.enter .splitting).enter .failed) := by
  have hsame : (u.enter .splitting).settings.validate = .error e := hinvalid
  rw [start, if_neg (by simp [hidle])]
  simp only [hsame]

/-- Only a valid upload that has not run yet can end well. -/
theorem of_start_ok {source source' : Source} {run : Source → Upload σ → Ending σ}
    {summary : Summary} {u' : Upload σ} (hdone : u.start run source = (.ok summary, source', u')) :
    u.life.current = .idle ∧ u.settings.validate = .ok () := by
  rw [start] at hdone
  split at hdone
  · cases hdone
  rename_i hidle
  simp only at hdone
  split at hdone
  · cases hdone
  · rename_i hvalid
    exact ⟨Decidable.of_not_not hidle, hvalid⟩

/-- Settling an ending changes nothing but the phase. -/
theorem settle_eq (ending : Ending σ) : (settle ending).1 = ending.1 ∧
    ∃ phase, (settle ending).2.2 = ending.2.2.enter phase := by
  obtain ⟨result, source, u⟩ := ending
  cases result with
  | ok summary => exact ⟨rfl, .done, rfl⟩
  | error e => exact ⟨rfl, .failed, rfl⟩

@[simp] theorem result_settle (ending : Ending σ) : (settle ending).1 = ending.1 :=
  (settle_eq ending).1

@[simp] theorem service_settle (ending : Ending σ) :
    (settle ending).2.2.service = ending.2.2.service := by
  obtain ⟨-, phase, hafter⟩ := settle_eq ending
  rw [hafter]
  rfl

variable [Service σ]

theorem of_call_ok {source source' : Source} {c : Call} {summary : Summary} {u' : Upload σ}
    (hdone : u.call source c = (.ok summary, source', u')) :
    u.life.current = .idle ∧ u.settings.validate = .ok () := by
  cases c with
  | seekable schedule => exact of_start_ok hdone
  | stream => exact of_start_ok hdone

section

variable {tokens : List Token} {s s' : Session σ}

theorem conclude_of_committed {commit : Option String} (hdone : s.commit tokens = (.ok commit, s'))
    (source : Source) (u : Upload σ) :
    u.conclude (.ok tokens) source s =
      (.ok { tokens, bytesSent := s'.completed, chunkCount := tokens.length, commit }, source,
        (u.enter .committing).resume s') := by
  rw [conclude]
  simp only [hdone]

theorem conclude_of_uncommitted {e : UploadError} (hfailed : s.commit tokens = (.error e, s'))
    (source : Source) (u : Upload σ) :
    u.conclude (.ok tokens) source s = (.error e, source, (u.enter .committing).resume s') := by
  rw [conclude]
  simp only [hfailed]

/-- Where there is nothing to commit, the sending decides how an upload ends. -/
theorem conclude_of_uncommittable {sent : Except UploadError (List Token)}
    (hkind : ∀ tokens, sent = .ok tokens → s.writer.blobType ≠ .block) (source : Source)
    (u : Upload σ) :
    ∃ summarize : List Token → Summary,
      (∀ tokens, (summarize tokens).tokens = tokens ∧
        (summarize tokens).chunkCount = tokens.length) ∧
      (u.conclude sent source s).1 = sent.map summarize ∧
      (u.conclude sent source s).2.2.service = s.service := by
  cases sent with
  | error e => exact ⟨fun tokens => ⟨tokens, 0, tokens.length, none⟩, fun _ => ⟨rfl, rfl⟩, rfl, rfl⟩
  | ok tokens =>
      rw [conclude_of_committed (Session.commit_of_ne_block (hkind tokens rfl) tokens)]
      exact ⟨fun tokens => ⟨tokens, s.completed, tokens.length, none⟩, fun _ => ⟨rfl, rfl⟩, rfl,
        rfl⟩

/-- Where there is nothing to commit, an upload that ends well has sent all its chunks. -/
theorem of_conclude_uncommittable {sent : Except UploadError (List Token)}
    (hkind : ∀ tokens, sent = .ok tokens → s.writer.blobType ≠ .block) (source : Source)
    (u : Upload σ) :
    (u.conclude sent source s).2.2.service = s.service ∧
      ∀ summary, (u.conclude sent source s).1 = .ok summary →
        sent = .ok summary.tokens ∧ summary.chunkCount = summary.tokens.length := by
  obtain ⟨summarize, hcounted, hresult, hservice⟩ := conclude_of_uncommittable hkind source u
  refine ⟨hservice, fun summary hdone => ?_⟩
  rw [hresult] at hdone
  cases sent with
  | error e => cases hdone
  | ok tokens =>
      cases hdone
      obtain ⟨hsame, hcount⟩ := hcounted tokens
      exact ⟨by rw [hsame], by rw [hsame, hcount]⟩

end

/-- Cutting first and sending afterwards comes to the same. -/
theorem runSequential_eq (source : Source) (length : Option Nat) (u : Upload σ) :
    u.runSequential source length =
      (u.enter .sequential).conclude
        (sendEach ((u.settings.cutter length).toList source).1
          ((u.enter .sequential).session (u.settings.progressTotal length))).1
        (sendAll (u.settings.cutter length) source
          ((u.enter .sequential).session (u.settings.progressTotal length))).2.1
        (sendEach ((u.settings.cutter length).toList source).1
          ((u.enter .sequential).session (u.settings.progressTotal length))).2 := by
  rw [← sendAll_eq_sendEach]
  rfl

/-- Over a source that delivers, an upload that encrypts nothing sends the pieces of its bytes. -/
theorem runSequential_of_plain {source : Source} (hdelivers : source.script.Delivers)
    (hplain : u.settings.encryption = none) (length : Option Nat) :
    ∃ source', u.runSequential source length =
      let sent := sendEach (((u.settings.cutter length).pieces
          ((u.settings.cutter length).scope source.rest)).map .ok)
        ((u.enter .sequential).session (u.settings.progressTotal length))
      (u.enter .sequential).conclude sent.1 source' sent.2 := by
  have hcipher : (u.settings.cutter length).cipher = none := by
    rw [Settings.cutter, hplain]
    rfl
  rw [runSequential_eq, Cutter.toList_plain hdelivers hcipher rfl]
  exact ⟨_, rfl⟩

/-- A single worker sends a stream chunk by chunk, unless it fits one request. -/
theorem call_stream_of_alone (hidle : u.life.current = .idle)
    (hvalid : u.settings.validate = .ok ()) (halone : u.settings.isParallel = false)
    (hchunked : u.settings.singlePutLength? u.settings.sourceLength = none) (source : Source) :
    u.call source .stream =
      settle ((u.enter .splitting).runSequential source u.settings.sourceLength) := by
  have hrun : runStream source (u.enter .splitting) =
      (u.enter .splitting).runSequential source u.settings.sourceLength := by
    simp only [runStream, show (u.enter .splitting).settings = u.settings from rfl, hchunked,
      halone, Bool.false_eq_true, if_false]
  rw [call, uploadStream, start_of_valid hidle hvalid, hrun]

/-- What comes of sending a stream chunk by chunk. -/
def streamed (source : Source) (u : Upload σ) : Except UploadError (List Token) × Session σ :=
  let u := u.enter .splitting
  sendEach (((u.settings.cutter u.settings.sourceLength).pieces
      ((u.settings.cutter u.settings.sourceLength).scope source.rest)).map .ok)
    ((u.enter .sequential).session (u.settings.progressTotal u.settings.sourceLength))

/-- A single worker that encrypts nothing and has nothing to commit is done when it has sent its
stream. -/
theorem call_stream_of_uncommittable {source : Source} (hidle : u.life.current = .idle)
    (hvalid : u.settings.validate = .ok ()) (halone : u.settings.isParallel = false)
    (hplain : u.settings.encryption = none) (hdelivers : source.script.Delivers)
    (hchunked : u.settings.singlePutLength? u.settings.sourceLength = none)
    (hkind : (u.streamed source).2.writer.blobType ≠ .block) :
    ∃ summarize, (u.call source .stream).1 = (u.streamed source).1.map summarize ∧
      (u.call source .stream).2.2.service = (u.streamed source).2.service := by
  obtain ⟨source', hrun⟩ :=
    runSequential_of_plain (u := u.enter .splitting) hdelivers hplain u.settings.sourceLength
  obtain ⟨summarize, -, hresult, hservice⟩ := conclude_of_uncommittable
    (fun tokens (_ : (u.streamed source).1 = .ok tokens) => hkind) source'
    ((u.enter .splitting).enter .sequential)
  rw [call_stream_of_alone hidle hvalid halone hchunked, result_settle, service_settle, hrun]
  exact ⟨summarize, hresult, hservice⟩

/-! ## Which way an upload goes -/

/-- How many bytes of its source a call sends, if that is known beforehand, and the source. -/
def measure (source : Source) (u : Upload σ) : Call → Except SourceError (Option Nat) × Source
  | .stream => (.ok u.settings.sourceLength, source)
  | .seekable _ =>
    match u.settings.sourceLength with
    | some length => (.ok (some length), source)
    | none =>
      match source.remaining with
      | (.error e, source) => (.error e, source)
      | (.ok length, source) => (.ok (some length), source)

omit [Service σ] in
/-- A source that can be measured has the length that is declared, else as many bytes as are left.
It is left as it was, but for the seeks that it counts. -/
theorem of_measure_seekable {source source' : Source} {schedule : List Pool.Action}
    {length : Option Nat}
    (hmeasured : u.measure source (.seekable schedule) = (.ok length, source')) :
    ∃ seeks, source' = { source with seeks } ∧
      length = some (u.settings.sourceLength.getD source.rest.length) := by
  rw [measure] at hmeasured
  cases hknown : u.settings.sourceLength with
  | some n =>
      rw [hknown] at hmeasured
      cases hmeasured
      exact ⟨source.seeks, rfl, rfl⟩
  | none =>
      rw [hknown] at hmeasured
      rcases hremaining : source.remaining with ⟨e | n, source''⟩
      · rw [hremaining] at hmeasured
        cases hmeasured
      · rw [hremaining] at hmeasured
        cases hmeasured
        obtain ⟨rfl, rfl⟩ := Source.remaining_of_ok hremaining
        exact ⟨_, rfl, rfl⟩

omit [Service σ] in
theorem of_measure {source source' : Source} {c : Call} {length : Option Nat}
    (hmeasured : u.measure source c = (.ok length, source')) :
    ∃ seeks, source' = { source with seeks } ∧
      (u.settings.cutter length).scope source.rest = u.settings.excerpt source := by
  rw [Settings.excerpt, Cutter.scope]
  cases c with
  | stream =>
      cases hmeasured
      exact ⟨source.seeks, rfl, rfl⟩
  | seekable schedule =>
      obtain ⟨seeks, rfl, rfl⟩ := of_measure_seekable hmeasured
      refine ⟨seeks, rfl, ?_⟩
      cases u.settings.sourceLength with
      | some n => rfl
      | none => exact List.take_length

omit [Service σ] in
theorem length_of_measure {source source' : Source} {schedule : List Pool.Action} {length : Nat}
    (hmeasured : u.measure source (.seekable schedule) = (.ok (some length), source')) :
    length = u.settings.sourceLength.getD source.rest.length := by
  obtain ⟨-, -, hlength⟩ := of_measure_seekable hmeasured
  exact Option.some.inj hlength

omit [Service σ] in
/-- Workers that share a measured source only seek offsets of 64 bits. -/
theorem fits_of_measure {source source' : Source} {schedule : List Pool.Action} {length : Nat}
    (haddr : u.settings.Addresses source) (hseveral : u.settings.isParallel = true)
    (hmeasured : u.measure source (.seekable schedule) = (.ok (some length), source')) :
    source.position + length < UInt64.size := by
  rw [length_of_measure hmeasured]
  exact haddr hseveral

omit [Service σ] in
theorem seekErrors_of_measure {source source' : Source} {c : Call} {e : SourceError}
    (hmeasured : u.measure source c = (.error e, source')) : source.seekErrors ≠ [] := by
  intro hnone
  cases c with
  | stream => cases hmeasured
  | seekable schedule =>
      rw [measure] at hmeasured
      split at hmeasured
      · cases hmeasured
      · rw [Source.remaining_of_seeks hnone] at hmeasured
        cases hmeasured

omit [Service σ] in
/-- A source whose seeks succeed is measured. -/
theorem measure_of_seeks {source : Source} (hseekable : source.seekErrors = [])
    (schedule : List Pool.Action) :
    ∃ seeks, u.measure source (.seekable schedule) =
      (.ok (some (u.settings.sourceLength.getD source.rest.length)),
        { source with seeks }) := by
  rw [measure]
  cases u.settings.sourceLength with
  | some n => exact ⟨source.seeks, rfl⟩
  | none => exact ⟨_, by rw [Source.remaining_of_seeks hseekable]; rfl⟩

/-- Why a call does not even start to send so many bytes. -/
def misfit? (u : Upload σ) (c : Call) (length : Option Nat) : Option Violation :=
  match c with
  | .seekable _ => length.bind u.settings.lengthViolation?
  | .stream => none

theorem runMeasured_of_chunked {schedule : List Pool.Action} {length : Nat}
    (halone : u.settings.isParallel = false)
    (hchunked : u.settings.singlePutLength? (some length) = none) (source : Source) :
    runMeasured schedule source length u =
      match u.misfit? (.seekable schedule) (some length) with
      | some rule => (.error (.violation rule), source, u)
      | none => u.runSequential source (some length) := by
  rw [runMeasured, misfit?, Option.bind_some]
  cases u.settings.lengthViolation? length with
  | some rule => rfl
  | none => simp only [hchunked, halone, Bool.false_eq_true, if_false]

/-- What a seekable source holds has been measured when it is sent. -/
theorem call_of_measured {source source' : Source} {schedule : List Pool.Action}
    {length : Option Nat} (hidle : u.life.current = .idle) (hvalid : u.settings.validate = .ok ())
    (hmeasured : u.measure source (.seekable schedule) = (.ok length, source')) :
    ∃ n, length = some n ∧ u.call source (.seekable schedule) =
      settle (runMeasured schedule source' n (u.enter .splitting)) := by
  have hstart : u.call source (.seekable schedule) =
      settle (runSeekable schedule source (u.enter .splitting)) := start_of_valid hidle hvalid
  rw [hstart, runSeekable]
  rw [measure] at hmeasured
  simp only [show (u.enter .splitting).settings = u.settings from rfl]
  cases hknown : u.settings.sourceLength with
  | some n =>
      rw [hknown] at hmeasured
      cases hmeasured
      exact ⟨n, rfl, rfl⟩
  | none =>
      rw [hknown] at hmeasured
      rcases hremaining : source.remaining with ⟨e | n, source''⟩
      · rw [hremaining] at hmeasured
        cases hmeasured
      · rw [hremaining] at hmeasured
        cases hmeasured
        exact ⟨n, rfl, rfl⟩

/-- A single worker sends what it has measured chunk by chunk, unless it fits one request or does
not fit at all. -/
theorem call_of_chunked {source source' : Source} {c : Call} {length : Option Nat}
    (hidle : u.life.current = .idle) (hvalid : u.settings.validate = .ok ())
    (halone : u.settings.isParallel = false)
    (hmeasured : u.measure source c = (.ok length, source'))
    (hchunked : u.settings.singlePutLength? length = none) :
    u.call source c = settle (match u.misfit? c length with
      | some rule => (.error (.violation rule), source', u.enter .splitting)
      | none => (u.enter .splitting).runSequential source' length) := by
  cases c with
  | stream =>
      cases hmeasured
      exact call_stream_of_alone hidle hvalid halone hchunked source
  | seekable schedule =>
      obtain ⟨n, rfl, hrun⟩ := call_of_measured hidle hvalid hmeasured
      rw [hrun]
      exact congrArg settle (runMeasured_of_chunked (u := u.enter .splitting) halone hchunked _)

/-- The chunks that a single worker cuts for a call, if nothing goes wrong on the way. -/
def CutsInto (source : Source) (u : Upload σ) (c : Call) (cs : List Chunk) : Prop :=
  ∃ length source', u.measure source c = (.ok length, source') ∧
    ((u.settings.cutter length).toList source').1 = cs.map .ok

omit [Service σ] in
theorem map_ok_injective {cs ds : List Chunk}
    (h : cs.map (Except.ok (ε := UploadError)) = ds.map .ok) : cs = ds :=
  (List.map_inj_right fun _ _ => Except.ok.inj).1 h

omit [Service σ] in
/-- Over a source that delivers, the chunks make up what is sent. -/
theorem CutsInto.flatMap_payload {source : Source} {c : Call} {cs : List Chunk}
    (hcut : u.CutsInto source c cs) (hdelivers : source.script.Delivers) :
    cs.flatMap Chunk.payload = u.settings.encoded (u.settings.excerpt source) := by
  obtain ⟨length, source', hmeasured, hanswers⟩ := hcut
  obtain ⟨seeks, rfl, hscope⟩ := of_measure hmeasured
  have hdelivers' : ({ source with seeks } : Source).script.Delivers := hdelivers
  obtain ⟨ds, hanswers', hjoined⟩ := u.settings.toList_cutter hdelivers' length
  rw [map_ok_injective (hanswers.symm.trans hanswers'), hjoined]
  exact congrArg u.settings.encoded hscope

omit [Service σ] in
/-- Without encryption the chunks are the pieces of what is asked for. -/
theorem CutsInto.eq_pieces {source : Source} {c : Call} {cs : List Chunk}
    (hcut : u.CutsInto source c cs) (hdelivers : source.script.Delivers)
    (hplain : u.settings.encryption = none) :
    ∃ length, cs = (u.settings.cutter length).pieces (u.settings.excerpt source) := by
  obtain ⟨length, source', hmeasured, hanswers⟩ := hcut
  obtain ⟨seeks, rfl, hscope⟩ := of_measure hmeasured
  have hdelivers' : ({ source with seeks } : Source).script.Delivers := hdelivers
  have hcipher : (u.settings.cutter length).cipher = none := by
    rw [Settings.cutter, hplain]
    rfl
  have hanswers' := Cutter.toList_plain hdelivers' hcipher rfl
  rw [map_ok_injective (hanswers.symm.trans hanswers')]
  exact ⟨length, congrArg (u.settings.cutter length).pieces hscope⟩

/-- What an upload that has started goes on to do. -/
inductive Way (source : Source) (u : Upload σ) : Call → Ending σ → Prop
  | unmeasured {c : Call} {e : SourceError} {source' : Source} :
    u.measure source c = (.error e, source') →
    Way source u c (.error (.source 0 e), source', u)
  | misfit {schedule : List Pool.Action} {length : Nat} {rule : Violation} {source' : Source} :
    u.settings.lengthViolation? length = some rule →
    Way source u (.seekable schedule) (.error (.violation rule), source', u)
  | unseekable : u.settings.isParallel = true →
    Way source u .stream (.error (.violation .parallelStream), source, u)
  | whole {c : Call} {length : Option Nat} {n : Nat} {source' : Source} :
    u.measure source c = (.ok length, source') → u.settings.singlePutLength? length = some n →
    Way source u c (u.runSinglePut source' n)
  | chunks {c : Call} {length : Option Nat} {source' : Source} :
    u.measure source c = (.ok length, source') → u.settings.isParallel = false →
    Way source u c (u.runSequential source' length)
  | workers {schedule : List Pool.Action} {length : Nat} {source' : Source} :
    u.measure source (.seekable schedule) = (.ok (some length), source') →
    u.settings.isParallel = true →
    Way source u (.seekable schedule) (u.runParallel schedule source' length)

theorem way_runMeasured {schedule : List Pool.Action} {source source' : Source} {length : Nat}
    (hmeasured : u.measure source (.seekable schedule) = (.ok (some length), source')) :
    Way source u (.seekable schedule) (runMeasured schedule source' length u) := by
  rw [runMeasured]
  split
  · rename_i rule hbroken
    exact .misfit hbroken
  split
  · rename_i n hput
    exact .whole hmeasured hput
  cases hseveral : u.settings.isParallel with
  | true => exact .workers hmeasured hseveral
  | false => exact .chunks hmeasured hseveral

theorem way_runSeekable (schedule : List Pool.Action) (source : Source) (u : Upload σ) :
    Way source u (.seekable schedule) (runSeekable schedule source u) := by
  rw [runSeekable]
  cases hknown : u.settings.sourceLength with
  | some length =>
      have hmeasured : u.measure source (.seekable schedule) = (.ok (some length), source) := by
        simp only [measure, hknown]
      exact way_runMeasured hmeasured
  | none =>
      rcases hremaining : source.remaining with ⟨e | length, source'⟩
      · exact .unmeasured (by simp only [measure, hknown, hremaining])
      · exact way_runMeasured (by simp only [measure, hknown, hremaining])

theorem way_runStream (source : Source) (u : Upload σ) :
    Way source u .stream (runStream source u) := by
  rw [runStream]
  split
  · rename_i n hput
    exact .whole rfl hput
  cases hseveral : u.settings.isParallel with
  | true => exact .unseekable hseveral
  | false => exact .chunks rfl hseveral

/-- A valid upload goes one of these ways, however it is called. -/
theorem way_call (hidle : u.life.current = .idle) (hvalid : u.settings.validate = .ok ())
    (source : Source) (c : Call) :
    ∃ ending, u.call source c = settle ending ∧ Way source (u.enter .splitting) c ending := by
  cases c with
  | seekable schedule =>
      exact ⟨_, start_of_valid hidle hvalid, way_runSeekable schedule source _⟩
  | stream => exact ⟨_, start_of_valid hidle hvalid, way_runStream source _⟩

/-- An upload that has run before or is not valid touches nothing. -/
theorem call_of_unstarted {u : Upload σ}
    (hunstarted : ¬(u.life.current = .idle ∧ u.settings.validate = .ok ())) (source : Source)
    (c : Call) : ∃ rule u', u.call source c = (.error (.violation rule), source, u') ∧
      u'.service = u.service := by
  by_cases hidle : u.life.current = .idle
  · cases hvalid : u.settings.validate with
    | ok _ => exact absurd ⟨hidle, hvalid⟩ hunstarted
    | error e =>
        obtain ⟨rule, rfl⟩ := Settings.violation_of_validate hvalid
        refine ⟨rule, (u.enter .splitting).enter .failed, ?_, rfl⟩
        cases c with
        | seekable schedule => exact start_of_invalid hidle hvalid
        | stream => exact start_of_invalid hidle hvalid
  · refine ⟨.alreadyRun u.life.current, u, ?_, rfl⟩
    cases c with
    | seekable schedule => exact if_pos hidle
    | stream => exact if_pos hidle

theorem call_cases (source : Source) (u : Upload σ) (c : Call) :
    (∃ rule u', u.call source c = (.error (.violation rule), source, u') ∧
      u'.service = u.service) ∨
    ∃ ending, u.call source c = settle ending ∧ Way source (u.enter .splitting) c ending := by
  by_cases hstarted : u.life.current = .idle ∧ u.settings.validate = .ok ()
  · exact .inr (way_call hstarted.1 hstarted.2 source c)
  · exact .inl (call_of_unstarted hstarted source c)

end Upload

end BlobUpload
