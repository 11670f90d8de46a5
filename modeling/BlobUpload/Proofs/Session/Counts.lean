import BlobUpload.Proofs.Session.AbortPoints
import BlobUpload.Upload.Pool.Work

/-! # Accounts of what is acknowledged

A relay records which payloads its service acknowledges. A session that is watched counts each of
them once, however many requests it takes, and reports the count at once: `Session.Counts` relates a
session to a later one by the chunks that were acknowledged in between. -/

namespace BlobUpload

/-! ## What is acknowledged -/

/-- The payload that a request writes. -/
def Request.payload? : Request → Option Bytes
  | putBlock _ body | updatePage _ _ body _ | appendBlock body _ _ | putBlob body =>
    some body.payload
  | putBlockList .. => none

/-- The payload that an exchange has written, unless it failed. -/
def Exchange.payload? (x : Exchange) : Option Bytes :=
  match x.failure with
  | none => x.request.payload?
  | some _ => none

theorem Writer.payload?_request (w : Writer) (c : Chunk) :
    (w.request c).payload? = some c.payload := by
  cases w <;> rfl

namespace Relay

variable {σ : Type}

/-- The payloads that have been acknowledged so far, one after another. -/
def acknowledged (relay : Relay σ) : List Bytes := relay.exchanges.filterMap Exchange.payload?

variable [Service σ] {r : Request} {relay relay' : Relay σ}

theorem acknowledged_answer (relay : Relay σ) (r : Request) :
    (Service.answer r relay).2.acknowledged = relay.acknowledged ++
      ((⟨r, failure? (Service.answer r relay).1⟩ : Exchange).payload?).toList := by
  rw [acknowledged, exchanges_answer, List.filterMap_append]
  rfl

theorem acknowledged_of_ok {reply : r.Reply}
    (hanswered : Service.answer r relay = (.ok reply, relay')) :
    relay'.acknowledged = relay.acknowledged ++ r.payload?.toList := by
  have hrecorded := relay.acknowledged_answer r
  rwa [hanswered] at hrecorded

theorem acknowledged_of_error {e : ServiceError}
    (hrefused : Service.answer r relay = (.error e, relay')) :
    relay'.acknowledged = relay.acknowledged := by
  have hrecorded := relay.acknowledged_answer r
  rw [hrefused] at hrecorded
  exact hrecorded.trans (List.append_nil _)

/-- A request that is answered in the end is acknowledged once. -/
theorem acknowledged_of_delivered {reply : r.Reply} {retries : Nat}
    (hdone : Delivered r reply retries relay relay') :
    relay'.acknowledged = relay.acknowledged ++ r.payload?.toList := by
  induction hdone with
  | now hanswered => exact acknowledged_of_ok hanswered
  | later hrefused _ ih => rw [ih, acknowledged_of_error hrefused]

/-- A request that is given up is never acknowledged. -/
theorem acknowledged_of_undelivered {offset retries sent : Nat} {e : UploadError}
    (hfailed : deliver offset r retries sent relay = (.error e, relay')) :
    relay'.acknowledged = relay.acknowledged := by
  fun_induction deliver offset r retries sent relay with
  | case1 => cases hfailed
  | case2 retries sent relay message t hanswered =>
      cases hfailed
      exact acknowledged_of_error hanswered
  | case3 sent relay cause t _ hanswered =>
      cases hfailed
      exact acknowledged_of_error hanswered
  | case4 sent relay cause t _ hanswered retries ih =>
      rw [ih hfailed, acknowledged_of_error hanswered]

end Relay

/-! ## Reports behind chunks -/

theorem reportsOf_append (total : Option Nat) (completed : Nat) (cs ds : List Chunk) :
    reportsOf total completed (cs ++ ds) = reportsOf total completed cs ++
      reportsOf total (completed + sumOver Chunk.length cs) ds := by
  induction cs generalizing completed with
  | nil => rfl
  | cons c cs ih =>
      rw [List.cons_append, reportsOf, ih, sumOver_cons, Nat.add_assoc]
      rfl

/-- The last report carries the sum of all lengths. -/
theorem getLast?_reportsOf (total : Option Nat) (completed : Nat) (cs : List Chunk) :
    (⟨completed, total⟩ :: reportsOf total completed cs).getLast? =
      some ⟨completed + sumOver Chunk.length cs, total⟩ := by
  induction cs generalizing completed with
  | nil => rfl
  | cons c cs ih =>
      rw [reportsOf, List.getLast?_cons_cons, ih, sumOver_cons, Nat.add_assoc]

theorem length_flatMap_payload (cs : List Chunk) :
    (cs.flatMap Chunk.payload).length = sumOver Chunk.length cs := length_flatMap _ cs

namespace Session

variable {σ : Type}

/-- From `s` to `t` the chunks `as` have been acknowledged and the chunks `cs` counted, with a
report behind each, and nothing else has been. -/
structure Counts (s : Session (Relay σ)) (as cs : List Chunk) (t : Session (Relay σ)) : Prop where
  acknowledged : t.service.acknowledged = s.service.acknowledged ++ as.map Chunk.payload
  reports : t.reports = s.reports ++ reportsOf s.total s.completed cs
  completed : t.completed = s.completed + sumOver Chunk.length cs
  watch : t.watch = s.watch
  total : t.total = s.total

variable {r s t : Session (Relay σ)} {as bs cs ds : List Chunk} {watch : Watch}

theorem Counts.refl (s : Session (Relay σ)) : s.Counts [] [] s :=
  ⟨(List.append_nil _).symm, (List.append_nil _).symm, rfl, rfl, rfl⟩

theorem Counts.trans (hfirst : r.Counts as cs s) (hnext : s.Counts bs ds t) :
    r.Counts (as ++ bs) (cs ++ ds) t where
  acknowledged := by
    rw [hnext.acknowledged, hfirst.acknowledged, List.append_assoc, List.map_append]
  reports := by
    rw [hnext.reports, hfirst.reports, hfirst.total, hfirst.completed, List.append_assoc,
      reportsOf_append]
  completed := by rw [hnext.completed, hfirst.completed, sumOver_append, Nat.add_assoc]
  watch := hnext.watch.trans hfirst.watch
  total := hnext.total.trans hfirst.total

/-- What changes neither the count nor the reports may change the service, as long as nothing is
acknowledged. -/
theorem counts_withService {service : Relay σ}
    (hunacknowledged : service.acknowledged = s.service.acknowledged) :
    s.Counts [] [] { s with service } :=
  ⟨hunacknowledged.trans (List.append_nil _).symm, (List.append_nil _).symm, rfl, rfl, rfl⟩

theorem counts_checkAbort {offset : Nat} {answer : Except UploadError Unit}
    (hlooked : s.checkAbort offset = (answer, t)) : s.Counts [] [] t := by
  obtain rfl := eq_of_checkAbort hlooked
  exact ⟨(List.append_nil _).symm, (List.append_nil _).symm, rfl, rfl, rfl⟩

/-- A chunk that was acknowledged is counted and reported. -/
theorem counts_advance (hwatched : s.watch = some watch) {service : Relay σ} {writer : Writer}
    {c : Chunk} (hacknowledged : service.acknowledged = s.service.acknowledged ++ [c.payload]) :
    s.Counts [c] [c] ({ s with service, writer }.advance c.length) := by
  rw [advance_of_watched (s := { s with service, writer }) hwatched]
  exact ⟨hacknowledged, rfl, rfl, rfl, rfl⟩

variable [Service σ]

theorem counts_of_sent (hwatched : s.watch = some watch) {c : Chunk} {token : Token}
    (hsent : s.send c = (.ok token, t)) : s.Counts [c] [c] t := by
  obtain ⟨reply, service, -, hdelivered, -, rfl⟩ := send_ok hsent
  refine counts_advance hwatched ?_
  rw [Relay.acknowledged_of_delivered hdelivered, Writer.payload?_request]
  rfl

theorem counts_of_unsent {c : Chunk} {e : UploadError} (hfailed : s.send c = (.error e, t)) :
    s.Counts [] [] t := by
  cases hcheck : s.writer.check c with
  | error _ =>
      rw [send_of_unfit hcheck] at hfailed
      cases hfailed
      exact .refl s
  | ok _ =>
      rcases hdelivered : BlobUpload.deliver c.offset (s.writer.request c) s.settings.maxRetries 0
        s.service with ⟨_ | reply, service⟩
      · rw [send_of_failed hcheck hdelivered] at hfailed
        cases hfailed
        exact counts_withService (Relay.acknowledged_of_undelivered hdelivered)
      · rw [send_of_delivered hcheck hdelivered] at hfailed
        cases hfailed

/-- Whatever happens, the chunks that were acknowledged are counted. If all were sent, these are all
that there was to send, and each has its token. -/
theorem counts_sendEach (hwatched : s.watch = some watch)
    (answers : List (Except UploadError Chunk)) :
    ∃ cs, s.Counts cs cs (sendEach answers s).2 ∧ ∀ tokens, (sendEach answers s).1 = .ok tokens →
      answers = cs.map .ok ∧ tokens.length = cs.length := by
  fun_induction sendEach answers s with
  | case1 s =>
      refine ⟨[], .refl s, fun tokens hdone => ?_⟩
      cases hdone
      exact ⟨rfl, rfl⟩
  | case2 => exact ⟨[], .refl _, by rintro _ ⟨⟩⟩
  | case3 c answers s e s₁ hrefused => exact ⟨[], counts_checkAbort hrefused, by rintro _ ⟨⟩⟩
  | case4 c answers s s₁ hclear e s₂ hfailed =>
      exact ⟨[], (counts_checkAbort hclear).trans (counts_of_unsent hfailed), by rintro _ ⟨⟩⟩
  | case5 c answers s s₁ hclear token s₂ hsent tokens s₃ hrest ih =>
      have hlooked := counts_checkAbort hclear
      have hfirst := hlooked.trans (counts_of_sent (hlooked.watch.trans hwatched) hsent)
      obtain ⟨cs, hcounts, hall⟩ := ih (hfirst.watch.trans hwatched)
      rw [hrest] at hcounts hall
      obtain ⟨rfl, hcount⟩ := hall tokens rfl
      refine ⟨c :: cs, hfirst.trans hcounts, fun tokens' hdone => ?_⟩
      cases hdone
      exact ⟨rfl, congrArg (· + 1) hcount⟩
  | case6 c answers s s₁ hclear token s₂ hsent e s₃ hrest ih =>
      have hlooked := counts_checkAbort hclear
      have hfirst := hlooked.trans (counts_of_sent (hlooked.watch.trans hwatched) hsent)
      obtain ⟨cs, hcounts, -⟩ := ih (hfirst.watch.trans hwatched)
      rw [hrest] at hcounts
      exact ⟨c :: cs, hfirst.trans hcounts, by rintro _ ⟨⟩⟩

/-- What commits writes no payload. -/
theorem counts_commit (s : Session (Relay σ)) (tokens : List Token) :
    s.Counts [] [] (s.commit tokens).2 := by
  rcases commit_cases s.writer tokens with hnothing | hlist
  · rw [hnothing s rfl]
    exact .refl s
  · rw [hlist s rfl]
    rcases hanswered : Service.answer (.putBlockList (tokens.filterMap Token.blockId?)
      s.settings.leaseId) s.service with ⟨e | etag, service⟩
    · exact counts_withService (Relay.acknowledged_of_error hanswered)
    · exact counts_withService ((Relay.acknowledged_of_ok hanswered).trans (List.append_nil _))

/-- The whole counts as one chunk. -/
theorem counts_sendWhole (hwatched : s.watch = some watch) (k : Cutter) (source : Source) :
    ∃ cs, s.Counts cs cs (sendWhole k source s).2.2 ∧
      ∀ etag, (sendWhole k source s).1 = .ok etag →
        ∃ payload, (gather k source).1 = .ok payload ∧ cs = [⟨0, payload, true⟩] := by
  rcases hgathered : gather k source with ⟨e | payload, source'⟩
  · rw [sendWhole_of_ungathered hgathered]
    exact ⟨[], .refl s, nofun⟩
  rcases hlooked : s.checkAbort 0 with ⟨e | _, t⟩
  · rw [sendWhole_of_aborted hgathered hlooked]
    exact ⟨[], counts_checkAbort hlooked, nofun⟩
  have hclear := counts_checkAbort hlooked
  rcases hput : BlobUpload.deliver 0 (.putBlob (t.settings.envelope.body payload))
    t.settings.maxRetries 0 t.service with ⟨e | etag, service⟩
  · rw [sendWhole_of_failed hgathered hlooked hput]
    exact ⟨[], hclear.trans (counts_withService (Relay.acknowledged_of_undelivered hput)), nofun⟩
  · rw [sendWhole_of_put hgathered hlooked hput]
    refine ⟨[⟨0, payload, true⟩], hclear.trans (counts_advance (hclear.watch.trans hwatched) ?_),
      fun _ _ => ⟨payload, rfl, rfl⟩⟩
    exact Relay.acknowledged_of_delivered (delivered_of_deliver hput)

end Session

end BlobUpload
