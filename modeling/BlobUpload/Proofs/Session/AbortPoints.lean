import BlobUpload.Proofs.Service.Equivalence
import BlobUpload.Proofs.Service.Requests
import BlobUpload.Proofs.Session.AcceptedChunks

/-! # Aborting at a report

Whoever watches an upload receives a report before the first chunk and one behind each. What is
aborted at a report stops at the next chunk, since only there the flag is looked at. -/

namespace BlobUpload

/-- The reports behind chunks that are written one after another, if `completed` bytes have been
counted before. -/
def reportsOf (total : Option Nat) : (completed : Nat) → List Chunk → List Report
  | _, [] => []
  | completed, c :: cs => ⟨completed + c.length, total⟩ :: reportsOf total (completed + c.length) cs

theorem length_reportsOf (total : Option Nat) (completed : Nat) (cs : List Chunk) :
    (reportsOf total completed cs).length = cs.length := by
  induction cs generalizing completed with
  | nil => rfl
  | cons c cs ih => rw [reportsOf, List.length_cons, ih, List.length_cons]

namespace Session

variable {σ : Type} {s : Session σ} {watch : Watch}

theorem advance_of_watched (hwatched : s.watch = some watch) (n : Nat) :
    s.advance n = { s with
      completed := s.completed + n
      reports := s.reports ++ [⟨s.completed + n, s.total⟩]
      abort := if watch.abortsOn (s.reports ++ [⟨s.completed + n, s.total⟩]) then s.abort.raise
        else s.abort } := by
  rw [advance, report, hwatched]

/-- The flag is up if whoever watches has aborted at the last report, and was down before. -/
structure Heeds (watch : Watch) (s : Session σ) : Prop where
  watched : s.watch = some watch
  abort : s.abort = if watch.abortsOn s.reports then Abort.raise {} else {}

theorem Heeds.down (hheeds : s.Heeds watch) (hsilent : watch.abortsOn s.reports = false) :
    s.abort = {} := by rw [hheeds.abort, hsilent]; rfl

/-- Somebody receives the reports, but nobody aborts. -/
structure Quiet (s : Session σ) : Prop where
  watched : s.watch = some .quiet
  abort : s.abort = {}

theorem Quiet.undisturbed (hquiet : s.Quiet) : s.Undisturbed :=
  ⟨hquiet.abort, fun w hsame _ => by rw [Option.some.inj (hsame.symm.trans hquiet.watched)]; rfl⟩

theorem Quiet.advance (hquiet : s.Quiet) (n : Nat) : (s.advance n).Quiet := by
  rw [advance_of_watched hquiet.watched]
  exact ⟨hquiet.watched, hquiet.abort⟩

end Session

/-! ## What is written before the abort -/

namespace Session

section

variable {σ : Type} [Service σ] {s t : Session σ} {cs : List Chunk} {tokens : List Token}
  {watch : Watch}

theorem Writes.reports (hwritten : s.Writes cs tokens t) (hwatched : s.watch = some watch) :
    t.reports = s.reports ++ reportsOf s.total s.completed cs := by
  induction hwritten with
  | nil => exact (List.append_nil _).symm
  | @cons c cs s t tokens service reply hfits hanswered _ ih =>
      have hcounted := advance_of_watched (s := ({ s with
        service, writer := (s.writer.accept c reply).2 } : Session σ)) hwatched c.length
      rw [hcounted] at ih
      rw [ih hwatched, List.append_assoc]
      rfl

/-- What is written does not depend on who watches, or has watched. -/
theorem Writes.watchedBy (hwritten : s.Writes cs tokens t) (watch : Option Watch)
    (reports : List Report) (abort : Abort) :
    ∃ reports' abort', Writes cs { s with watch, reports, abort } tokens
      { t with watch := watch, reports := reports', abort := abort' } := by
  induction hwritten generalizing reports abort with
  | nil => exact ⟨reports, abort, .nil⟩
  | @cons c cs s t tokens service reply hfits hanswered _ ih =>
      have hfits' : Writer.check ({ s with watch, reports, abort } : Session σ).writer c = .ok () :=
        hfits
      obtain ⟨reports₁, abort₁, hstep⟩ := advance_eq c.length
        ({ s with
          service, writer := (s.writer.accept c reply).2, watch, reports, abort } : Session σ)
      obtain ⟨reports₀, abort₀, hstep₀⟩ := advance_eq c.length
        ({ s with service, writer := (s.writer.accept c reply).2 } : Session σ)
      obtain ⟨reports', abort', hrest⟩ := ih reports₁ abort₁
      rw [hstep₀] at hrest
      refine ⟨reports', abort', .cons hfits' hanswered ?_⟩
      rw [hstep]
      exact hrest

/-- Chunks that the service takes are written until somebody aborts at a report before the last
one. -/
theorem Writes.sendEach_of_silent (hwritten : s.Writes cs tokens t) (hheeds : s.Heeds watch)
    (hsilent : ∀ j < cs.length,
      watch.abortsOn (s.reports ++ reportsOf s.total s.completed (cs.take j)) = false) :
    BlobUpload.sendEach (cs.map .ok) s = (.ok tokens, t) ∧ t.Heeds watch := by
  induction hwritten with
  | nil => exact ⟨rfl, hheeds⟩
  | @cons c cs s t tokens service reply hfits hanswered _ ih =>
      have hnow := hsilent 0 (Nat.zero_lt_succ _)
      rw [List.take_zero, reportsOf, List.append_nil] at hnow
      have hdown := hheeds.down hnow
      have hcounted := advance_of_watched (s := ({ s with
        service, writer := (s.writer.accept c reply).2 } : Session σ)) hheeds.watched c.length
      rw [hcounted] at ih
      obtain ⟨hrest, hheeds'⟩ := ih ⟨hheeds.watched, by simp only [hdown]⟩ fun j hmore => by
        have hlater := hsilent (j + 1) (Nat.succ_lt_succ hmore)
        rw [List.take_succ_cons, reportsOf] at hlater
        rw [List.append_assoc]
        exact hlater
      rw [List.map_cons, sendEach_of_sent (checkAbort_of_down hdown c.offset)
        (send_of_answered hfits hanswered), hcounted, hrest]
      exact ⟨rfl, hheeds'⟩

/-- Each chunk takes one request, and none of them commits. -/
theorem Writes.requests (hwritten : s.Writes cs tokens t) :
    ∃ rs, rs.length = cs.length ∧
      (∀ r ∈ rs, r.method ≠ .putBlockList ∧ r.method ≠ .putBlob) ∧
      t.service = Service.after s.service rs := by
  induction hwritten with
  | nil => exact ⟨[], rfl, nofun, rfl⟩
  | @cons c cs s t tokens service reply hfits hanswered _ ih =>
      obtain ⟨rs, hcount, hothers, hafter⟩ := ih
      refine ⟨s.writer.request c :: rs, congrArg (· + 1) hcount, fun r hmem => ?_, ?_⟩
      · rcases List.mem_cons.1 hmem with rfl | hmem
        · cases s.writer <;> exact ⟨nofun, nofun⟩
        · exact hothers r hmem
      · rw [hafter, service_advance, Service.after, Service.after, List.foldl_cons, hanswered]

end

end Session

/-! ## How far a session gets that nobody aborts -/

/-- A blob turns down again what it has turned down once. -/
theorem Blob.answer_of_delivered {r : Request} {reply : r.Reply} {retries : Nat} {b b' : Blob}
    (hdone : Delivered r reply retries b b') : Service.answer r b = (.ok reply, b') := by
  induction hdone with
  | now hanswered => exact hanswered
  | later hrefused _ ih =>
      have halike := (alike_of_error (congrArg Prod.fst hrefused)).answer r
      rw [hrefused, ih] at halike
      cases halike.1

theorem Session.reports_of_failed {σ : Type} [Service σ] {s t : Session σ} {c : Chunk}
    {e : UploadError} (hfailed : s.send c = (.error e, t)) : t.reports = s.reports := by
  cases hcheck : s.writer.check c with
  | error _ =>
      rw [send_of_unfit hcheck] at hfailed
      cases hfailed
      rfl
  | ok _ =>
      rcases hdelivered : BlobUpload.deliver c.offset (s.writer.request c) s.settings.maxRetries 0
        s.service with ⟨_ | reply, service⟩
      · rw [send_of_failed hcheck hdelivered] at hfailed
        cases hfailed
        rfl
      · rw [send_of_delivered hcheck hdelivered] at hfailed
        cases hfailed

/-- The chunks behind which there is a report have been written. -/
theorem Session.Quiet.writes {s : Session Blob} (hquiet : s.Quiet) {cs : List Chunk} {k : Nat}
    (hfew : k ≤ cs.length)
    (hreached : s.reports.length + k ≤ (sendEach (cs.map .ok) s).2.reports.length) :
    ∃ tokens t, s.Writes (cs.take k) tokens t := by
  induction k generalizing s cs with
  | zero => exact ⟨[], s, .nil⟩
  | succ k ih =>
      match cs with
      | c :: cs =>
          have hclear := checkAbort_of_down hquiet.abort c.offset
          rw [List.map_cons] at hreached
          rcases hsent : s.send c with ⟨e | token, t⟩
          · rw [sendEach_of_failed hclear hsent, reports_of_failed hsent] at hreached
            omega
          · rw [sendEach_of_sent hclear hsent] at hreached
            simp only at hreached
            obtain ⟨reply, service, hfits, hdelivered, -, rfl⟩ := send_ok hsent
            have hanswered := Blob.answer_of_delivered hdelivered
            have hquiet' : ({ s with service, writer := (s.writer.accept c reply).2 } :
                Session Blob).Quiet := ⟨hquiet.watched, hquiet.abort⟩
            have hcount := congrArg (fun s => s.reports.length)
              (advance_of_watched hquiet'.watched c.length)
            simp only [List.length_append, List.length_singleton] at hcount
            obtain ⟨tokens, t, hwritten⟩ := ih (hquiet'.advance c.length)
              (Nat.le_of_succ_le_succ hfew) (by omega)
            exact ⟨_, t, .cons hfits hanswered hwritten⟩

/-! ## A session that is aborted -/

namespace Session

section

variable {σ : Type} [Service σ] {s : Session σ}

/-- The same session, if nobody ever aborts it. -/
def quieted (s : Session σ) : Session σ := { s with watch := some .quiet, abort := {} }

/-- What is left when the flag is up is not sent. -/
theorem sendEach_of_raised (hraised : s.abort.raised = true) (c : Chunk)
    (answers : List (Except UploadError Chunk)) :
    (BlobUpload.sendEach (.ok c :: answers) s).1 = .error (.aborted c.offset) ∧
      (BlobUpload.sendEach (.ok c :: answers) s).2.service = s.service := by
  obtain ⟨hrefused, -⟩ := checkAbort_of_raised hraised c.offset
  rcases hlooked : s.checkAbort c.offset with ⟨answer, t⟩
  rw [hlooked] at hrefused
  cases hrefused
  rw [BlobUpload.sendEach, hlooked, eq_of_checkAbort hlooked]
  exact ⟨rfl, rfl⟩

end

variable {s : Session Blob} {watch : Watch} {cs : List Chunk} {k : Nat}

/-- Aborted at the report behind its first `k` chunks, a session has written them as it would have
otherwise, and the flag is up. -/
theorem Heeds.writes (hheeds : s.Heeds watch) (hfew : k ≤ cs.length)
    (hreached : s.reports.length + k ≤ (sendEach (cs.map .ok) s.quieted).2.reports.length)
    (hsilent : ∀ j < k,
      watch.abortsOn (s.reports ++ reportsOf s.total s.completed (cs.take j)) = false)
    (haborts : watch.abortsOn (s.reports ++ reportsOf s.total s.completed (cs.take k)) = true) :
    ∃ tokens t reports abort, s.quieted.Writes (cs.take k) tokens t ∧ abort.raised = true ∧
      sendEach ((cs.take k).map .ok) s =
        (.ok tokens, { t with watch := s.watch, reports, abort }) := by
  have hquiet : s.quieted.Quiet := ⟨rfl, rfl⟩
  obtain ⟨tokens, t, hwritten⟩ := hquiet.writes hfew hreached
  obtain ⟨reports, abort, hwritten'⟩ := hwritten.watchedBy s.watch s.reports s.abort
  have hwritten' : s.Writes (cs.take k) tokens { t with watch := s.watch, reports, abort } :=
    hwritten'
  obtain ⟨hsent, hheeds'⟩ := hwritten'.sendEach_of_silent hheeds fun j hmore => by
    rw [List.length_take_of_le hfew] at hmore
    rw [List.take_take, Nat.min_eq_left (Nat.le_of_lt hmore)]
    exact hsilent j hmore
  refine ⟨tokens, t, reports, abort, hwritten, ?_, hsent⟩
  have hseen := hwritten'.reports hheeds.watched
  have hup := hheeds'.abort
  rw [hseen, haborts] at hup
  rw [show abort = _ from hup]
  rfl

/-- With the flag up behind its first `k` chunks, a session stops at the next one. -/
theorem sendEach_of_written {tokens : List Token} {t : Session Blob} {reports : List Report}
    {abort : Abort} (hwritten : s.quieted.Writes (cs.take k) tokens t)
    (hraised : abort.raised = true)
    (hsent : sendEach ((cs.take k).map .ok) s =
      (.ok tokens, { t with watch := s.watch, reports, abort }))
    {c : Chunk} (hnext : cs[k]? = some c) :
    (sendEach (cs.map .ok) s).1 = .error (.aborted c.offset) ∧
      ∃ rs, rs.length = k ∧ (∀ r ∈ rs, r.method ≠ .putBlockList ∧ r.method ≠ .putBlob) ∧
        (sendEach (cs.map .ok) s).2.service = Service.after s.service rs := by
  obtain ⟨rs, hcount, hmethods, hafter⟩ := hwritten.requests
  obtain ⟨hmore, rfl⟩ := List.getElem?_eq_some_iff.1 hnext
  have hsplit : cs.map (Except.ok (ε := UploadError)) =
      (cs.take k).map .ok ++ .ok cs[k] :: (cs.drop (k + 1)).map .ok := by
    rw [← List.map_cons, ← List.map_append, ← List.drop_eq_getElem_cons hmore,
      List.take_append_drop]
  obtain ⟨hrefused, hsame⟩ := sendEach_of_raised (s := { t with watch := s.watch, reports, abort })
    hraised cs[k] ((cs.drop (k + 1)).map .ok)
  rw [hsplit, sendEach_append_of_ok hsent, hrefused]
  rw [List.length_take_of_le (Nat.le_of_lt hmore)] at hcount
  exact ⟨rfl, rs, hcount, hmethods, hsame.trans hafter⟩

end Session

end BlobUpload
