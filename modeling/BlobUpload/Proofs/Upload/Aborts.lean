import BlobUpload.Proofs.Session.AbortPoints
import BlobUpload.Proofs.Upload.Dispatch

/-! # Uploads that are aborted at a report

An upload that is aborted at a report stops at its next chunk, without one more request. Behind the
last chunk there is none: the flag is not looked at any more, and the upload commits and ends well
as if nobody had aborted it. -/

namespace BlobUpload

namespace Upload

section

variable {σ : Type} {u : Upload σ}

/-- The same upload, watched by somebody who never aborts it. -/
def quieted (u : Upload σ) : Upload σ := { u with watch := some .quiet }

/-- All reports up to the one behind the first `k` chunks. -/
def reportsBehind (u : Upload σ) (length : Option Nat) (cs : List Chunk) (k : Nat) : List Report :=
  u.reports ++ ⟨0, u.settings.progressTotal length⟩ ::
    reportsOf (u.settings.progressTotal length) 0 (cs.take k)

/-- Whoever watches aborts the upload at the report behind the first `k` chunks, and nobody does so
before. -/
structure AbortedBehind (u : Upload σ) (length : Option Nat) (cs : List Chunk) (k : Nat) :
    Prop where
  down : u.abort = {}
  watched : ∃ watch, u.watch = some watch ∧
    (∀ j < k, watch.abortsOn (u.reportsBehind length cs j) = false) ∧
    watch.abortsOn (u.reportsBehind length cs k) = true

theorem session_of_watched {watch : Watch} (hwatched : u.watch = some watch) (total : Option Nat) :
    u.session total =
      { settings := u.settings, service := u.service, writer := u.settings.writer
        watch := u.watch, reports := u.reports ++ [⟨0, total⟩]
        abort := if watch.abortsOn (u.reports ++ [⟨0, total⟩]) then u.abort.raise else u.abort
        total } := by
  rw [session, Session.report]
  simp only [hwatched]

theorem heeds_session {watch : Watch} (hdown : u.abort = {}) (hwatched : u.watch = some watch)
    (total : Option Nat) : (u.session total).Heeds watch := by
  rw [session_of_watched hwatched]
  exact ⟨hwatched, by rw [hdown]⟩

theorem session_quieted {watch : Watch} (hdown : u.abort = {}) (hwatched : u.watch = some watch)
    (total : Option Nat) : u.quieted.session total = (u.session total).quieted := by
  rw [session_of_watched hwatched, session_of_watched (u := u.quieted) rfl,
    show u.quieted.abort = {} from hdown]
  rfl

theorem reportsBehind_eq {watch : Watch} (hwatched : u.watch = some watch) (length : Option Nat)
    (cs : List Chunk) (k : Nat) :
    u.reportsBehind length cs k =
      (u.session (u.settings.progressTotal length)).reports ++
        reportsOf (u.session (u.settings.progressTotal length)).total
          (u.session (u.settings.progressTotal length)).completed (cs.take k) := by
  rw [session_of_watched hwatched, reportsBehind, List.append_assoc]
  rfl

variable [Service σ]

theorem reports_conclude (sent : Except UploadError (List Token)) (source : Source)
    (s : Session σ) (u : Upload σ) : (u.conclude sent source s).2.2.reports = s.reports := by
  cases sent with
  | error e => rfl
  | ok tokens =>
      rw [conclude]
      rcases Session.commit_cases s.writer tokens with hnothing | hlist
      · rw [hnothing s rfl]
        rfl
      · rw [hlist s rfl]
        rcases Service.answer (.putBlockList (tokens.filterMap Token.blockId?) s.settings.leaseId)
          s.service with ⟨e | etag, service⟩ <;> rfl

/-- Who watches makes no difference to the commit. -/
theorem conclude_watchedBy (tokens : List Token) (t : Session σ) (watch : Option Watch)
    (reports : List Report) (abort : Abort) (source source' : Source) (u u' : Upload σ) :
    (u.conclude (.ok tokens) source { t with watch, reports, abort }).1 =
        (u'.conclude (.ok tokens) source' t).1 ∧
      (u.conclude (.ok tokens) source { t with watch, reports, abort }).2.2.service =
        (u'.conclude (.ok tokens) source' t).2.2.service := by
  rw [conclude, conclude]
  rcases Session.commit_cases t.writer tokens with hnothing | hlist
  · rw [hnothing t rfl, hnothing { t with watch, reports, abort } rfl]
    exact ⟨rfl, rfl⟩
  · rw [hlist t rfl, hlist { t with watch, reports, abort } rfl]
    rcases Service.answer (.putBlockList (tokens.filterMap Token.blockId?) t.settings.leaseId)
      t.service with ⟨e | etag, service⟩ <;> exact ⟨rfl, rfl⟩

end

variable {u : Upload Blob} {source : Source} {length : Option Nat} {cs : List Chunk} {k : Nat}

/-- The ending of an upload that is aborted behind its first `k` chunks, next to the one that it has
if nobody aborts it. -/
structure Stops (u : Upload Blob) (cs : List Chunk) (k : Nat) (ending quiet : Ending Blob) :
    Prop where
  /-- It fails at the next chunk, after one request for each chunk before, none of them a commit. -/
  before : ∀ c, cs[k]? = some c → ending.1 = .error (.aborted c.offset) ∧
    ∃ rs, rs.length = k ∧ (∀ r ∈ rs, r.method ≠ .putBlockList ∧ r.method ≠ .putBlob) ∧
      ending.2.2.service = Service.after u.service rs
  /-- Behind the last chunk nobody notices. -/
  behind : k = cs.length →
    ending.1 = quiet.1 ∧ ending.2.2.service = quiet.2.2.service

theorem Stops.settle {ending quiet : Ending Blob} (h : Stops u cs k ending quiet) :
    Stops u cs k (settle ending) (settle quiet) := by
  refine ⟨?_, ?_⟩
  · simpa only [service_settle, result_settle] using h.before
  · simpa only [service_settle, result_settle] using h.behind

theorem stops_sendEach (hfew : k ≤ cs.length) (haborted : u.AbortedBehind length cs k)
    (hreached : u.reportsBehind length cs k <+: (sendEach (cs.map .ok)
      (u.quieted.session (u.settings.progressTotal length))).2.reports) (source source' : Source) :
    Stops u cs k
      (u.conclude (sendEach (cs.map .ok) (u.session (u.settings.progressTotal length))).1 source
        (sendEach (cs.map .ok) (u.session (u.settings.progressTotal length))).2)
      (u.quieted.conclude
        (sendEach (cs.map .ok) (u.quieted.session (u.settings.progressTotal length))).1 source'
        (sendEach (cs.map .ok) (u.quieted.session (u.settings.progressTotal length))).2) := by
  obtain ⟨hdown, watch, hwatched, hsilent, haborts⟩ := haborted
  have hheeds := heeds_session hdown hwatched (u.settings.progressTotal length)
  have hservice := service_session (u.settings.progressTotal length) u
  rw [session_quieted hdown hwatched] at hreached ⊢
  simp only [reportsBehind_eq hwatched] at hsilent haborts hreached
  generalize u.session (u.settings.progressTotal length) = s at *
  have hlong := hreached.length_le
  rw [List.length_append, length_reportsOf, List.length_take_of_le hfew] at hlong
  obtain ⟨tokens, t, reports, abort, hwritten, hraised, hsent⟩ := hheeds.writes hfew hlong hsilent
    haborts
  refine ⟨fun c hnext => ?_, fun hall => ?_⟩
  · obtain ⟨hfailed, rs, hcount, hmethods, hafter⟩ :=
      Session.sendEach_of_written hwritten hraised hsent hnext
    rw [hfailed]
    exact ⟨rfl, rs, hcount, hmethods, hservice ▸ hafter⟩
  -- Behind the last chunk the flag is up too late: nothing looks at it before the commit.
  · subst hall
    rw [List.take_length] at hwritten hsent
    rw [hsent, (hwritten.sendEach (Session.Quiet.undisturbed ⟨rfl, rfl⟩)).1]
    exact conclude_watchedBy tokens t s.watch reports abort _ _ _ _

theorem runSequential_stops (hfew : k ≤ cs.length) (haborted : u.AbortedBehind length cs k)
    (hanswers : ((u.settings.cutter length).toList source).1 = cs.map .ok)
    (hreached : u.reportsBehind length cs k <+:
      (u.quieted.runSequential source length).2.2.reports) :
    Stops u cs k (u.runSequential source length) (u.quieted.runSequential source length) := by
  have hanswers' : ((u.quieted.settings.cutter length).toList source).1 = cs.map .ok := hanswers
  rw [runSequential_eq, hanswers', reports_conclude] at hreached
  rw [runSequential_eq, runSequential_eq source length u.quieted, hanswers, hanswers']
  have hstops := stops_sendEach (u := u.enter .sequential) hfew ⟨haborted.down, haborted.watched⟩
    hreached
    (sendAll (u.settings.cutter length) source
      ((u.enter .sequential).session (u.settings.progressTotal length))).2.1
    (sendAll (u.settings.cutter length) source
      ((u.quieted.enter .sequential).session (u.settings.progressTotal length))).2.1
  exact ⟨hstops.before, hstops.behind⟩

/-- An upload that is aborted at the report behind its first `k` chunks, as far as it gets there,
sends no further request and fails at the next chunk. If there is no next chunk it ends as if
nobody had aborted it. -/
theorem upload_aborted_behind {source' : Source} {c : Call} (hidle : u.life.current = .idle)
    (hvalid : u.settings.validate = .ok ()) (halone : u.settings.isParallel = false)
    (hmeasured : u.measure source c = (.ok length, source'))
    (hchunked : u.settings.singlePutLength? length = none)
    (hanswers : ((u.settings.cutter length).toList source').1 = cs.map .ok) (hfew : k ≤ cs.length)
    (haborted : u.AbortedBehind length cs k)
    (hreached : u.reportsBehind length cs k <+: (u.quieted.call source c).2.2.reports) :
    Stops u cs k (u.call source c) (u.quieted.call source c) := by
  have hrun := call_of_chunked hidle hvalid halone hmeasured hchunked
  have hquiet := call_of_chunked (u := u.quieted) hidle hvalid halone hmeasured hchunked
  rw [show u.quieted.misfit? c length = u.misfit? c length from rfl] at hquiet
  rw [hquiet] at hreached
  rw [hrun, hquiet]
  cases hmisfit : u.misfit? c length with
  | some rule =>
      -- What does not fit reports nothing at all.
      rw [hmisfit] at hreached
      have hlong := hreached.length_le
      rw [reportsBehind, List.length_append, List.length_cons] at hlong
      exact absurd hlong (by change ¬_ ≤ u.reports.length; omega)
  | none =>
      rw [hmisfit] at hreached
      obtain ⟨-, phase, hafter⟩ := settle_eq
        ((u.quieted.enter .splitting).runSequential source' length)
      rw [hafter] at hreached
      have hstops := runSequential_stops (u := u.enter .splitting) hfew
        ⟨haborted.down, haborted.watched⟩ hanswers hreached
      exact Stops.settle ⟨hstops.before, hstops.behind⟩

/-- An upload in chunks of two bytes that is aborted as soon as so many bytes are reported. -/
def watchedUpload (threshold : Nat) : Upload Blob where
  settings := { blobType := .block, chunkSize := 2 }
  service := {}
  watch := some (.abortingAt threshold)

/-- Three bytes are two chunks, whoever watches. -/
theorem call_watched {u : Upload Blob} (hsettings : u.settings = (watchedUpload 0).settings)
    (hidle : u.life.current = .idle) :
    ∃ source', u.call { data := [1, 2, 3] } (.seekable []) =
      let sent := sendEach [.ok ⟨0, [1, 2], false⟩, .ok ⟨2, [3], true⟩]
        (((u.enter .splitting).enter .sequential).session (some 3))
      settle (((u.enter .splitting).enter .sequential).conclude sent.1 source' sent.2) := by
  have hdelivers : ({ data := [1, 2, 3], seeks := 3 } : Source).script.Delivers :=
    Script.delivers_free
  have hmeasured : u.measure { data := [1, 2, 3] } (.seekable []) =
      (.ok (some 3), { data := [1, 2, 3], seeks := 3 }) := by
    rw [measure, hsettings]
    rfl
  have hfits : u.misfit? (.seekable []) (some 3) = none := by
    rw [misfit?, hsettings]
    rfl
  have hentered : (u.enter .splitting).settings = (watchedUpload 0).settings := hsettings
  have hcut : ((watchedUpload 0).settings.cutter (some 3)).pieces
      (((watchedUpload 0).settings.cutter (some 3)).scope
        ({ data := [1, 2, 3], seeks := 3 } : Source).rest) =
      [⟨0, [1, 2], false⟩, ⟨2, [3], true⟩] := rfl
  obtain ⟨source', hrun⟩ := runSequential_of_plain (u := u.enter .splitting) hdelivers
    (by rw [hentered]; rfl) (some 3)
  rw [hentered, hcut] at hrun
  refine ⟨source', ?_⟩
  rw [call_of_chunked hidle (by rw [hsettings]; rfl) (by rw [hsettings]; rfl) hmeasured
    (by rw [hsettings]; rfl), hfits]
  exact congrArg settle hrun

theorem watchedUpload_stops :
    ((watchedUpload 2).call { data := [1, 2, 3] } (.seekable [])).1 = .error (.aborted 2) ∧
      ∃ rs, rs.length = 1 ∧ (∀ r ∈ rs, r.method ≠ .putBlockList ∧ r.method ≠ .putBlob) ∧
        ((watchedUpload 2).call { data := [1, 2, 3] } (.seekable [])).2.2.service =
          Service.after {} rs := by
  have hdelivers : ({ data := [1, 2, 3], seeks := 3 } : Source).script.Delivers :=
    Script.delivers_free
  have hplain : ((watchedUpload 2).settings.cutter (some 3)).cipher = none := rfl
  have hanswers := Cutter.toList_plain hdelivers hplain rfl
  have haborted : (watchedUpload 2).AbortedBehind (some 3)
      [⟨0, [1, 2], false⟩, ⟨2, [3], true⟩] 1 := by
    refine ⟨rfl, _, rfl, fun j hfirst => ?_, rfl⟩
    obtain rfl : j = 0 := Nat.lt_one_iff.1 hfirst
    rfl
  have hreached : (watchedUpload 2).reportsBehind (some 3)
      [⟨0, [1, 2], false⟩, ⟨2, [3], true⟩] 1 <+:
        ((watchedUpload 2).quieted.call { data := [1, 2, 3] } (.seekable [])).2.2.reports := by
    obtain ⟨source', hrun⟩ := call_watched (u := (watchedUpload 2).quieted) rfl rfl
    rw [hrun]
    exact ⟨[⟨3, some 3⟩], rfl⟩
  exact (upload_aborted_behind rfl rfl rfl (rfl : (watchedUpload 2).measure { data := [1, 2, 3] }
    (.seekable []) = (_, { data := [1, 2, 3], seeks := 3 })) rfl hanswers (by decide) haborted
    hreached).before _ rfl

/-- Aborted at its last report, an upload commits all the same. -/
theorem watchedUpload_commits :
    ((watchedUpload 3).call { data := [1, 2, 3] } (.seekable [])).1 =
        .ok ⟨[.block (blockId 0), .block (blockId 2)], 3, 2, some (etagOf 1)⟩ ∧
      ((watchedUpload 3).call { data := [1, 2, 3] } (.seekable [])).2.2.abort.raised = true ∧
      ((watchedUpload 3).call { data := [1, 2, 3] } (.seekable [])).2.2.reports =
        [⟨0, some 3⟩, ⟨2, some 3⟩, ⟨3, some 3⟩] ∧
      ((watchedUpload 3).call { data := [1, 2, 3] } (.seekable [])).2.2.service.calls =
        { putBlock := 2, putBlockList := 1 } := by
  obtain ⟨source', hrun⟩ := call_watched (u := watchedUpload 3) rfl rfl
  rw [hrun]
  exact ⟨rfl, rfl, rfl, rfl⟩

end Upload

end BlobUpload
