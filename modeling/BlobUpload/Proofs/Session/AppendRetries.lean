import BlobUpload.Proofs.Service.Faults
import BlobUpload.Proofs.Service.StagedBlocks
import BlobUpload.Proofs.Session.AcceptedChunks

/-! # Appending through faults

An append that states a position is carried out once, or the upload fails: after a lost answer the
position no longer fits. The first append of an upload states none, so every lost answer to it
leaves one more copy behind. -/

namespace BlobUpload

namespace Blob

/-- The blob after a request has appended a payload. -/
def extend (payload : Bytes) (b : Blob) : Blob :=
  { b.replace (b.content ++ payload) with calls := b.calls.count .appendBlock }

/-- Whether an append is turned down. -/
def checkAppend (b : Blob) (body : Body) (position maxSize : Option Nat) :
    Except Rejection Unit := do
  b.check body
  b.checkPosition position
  b.checkSize body.payload.length maxSize

variable {body : Body} {position maxSize : Option Nat}

theorem answer_appendBlock (b : Blob) (body : Body) (position maxSize : Option Nat) :
    Service.answer (.appendBlock body position maxSize) b =
      match b.checkAppend body position maxSize with
      | .ok () => (.ok ⟨b.content.length, etagOf (b.revision + 1)⟩, b.extend body.payload)
      | .error e => (.error e.toError, { b with calls := b.calls.count .appendBlock }) := by
  have hbody' : ({ b with calls := b.calls.count .appendBlock } : Blob).check body =
      b.check body := rfl
  have hposition' : ({ b with calls := b.calls.count .appendBlock } : Blob).checkPosition position =
      b.checkPosition position := rfl
  have hsize' : ({ b with calls := b.calls.count .appendBlock } : Blob).checkSize
      body.payload.length maxSize = b.checkSize body.payload.length maxSize := rfl
  simp only [Service.answer, answer, perform, Request.method, checkAppend, hbody', hposition',
    hsize']
  cases b.check body with
  | error e => rfl
  | ok _ =>
      cases b.checkPosition position with
      | error e => rfl
      | ok _ =>
          cases b.checkSize body.payload.length maxSize with
          | error e => rfl
          | ok _ => rfl

/-- An append that states a position is only carried out there. -/
theorem position_of_checkAppend {b : Blob} {p : Nat}
    (h : b.checkAppend body (some p) maxSize = .ok ()) : p = b.content.length := by
  rw [checkAppend] at h
  cases hcheck : b.check body with
  | error e => rw [hcheck] at h; cases h
  | ok _ =>
      by_cases hsame : p = b.content.length
      · exact hsame
      · have hwrong : b.checkPosition (some p) = .error (.appendPosition p b.content.length) :=
          if_pos hsame
        rw [hcheck, hwrong] at h
        cases h

/-- An append that was carried out where it belongs has moved the end away from there. -/
theorem checkAppend_extend {b : Blob} {p : Nat} (hne : body.payload ≠ [])
    (h : b.checkAppend body (some p) maxSize = .ok ()) :
    ∃ e, (b.extend body.payload).checkAppend body (some p) maxSize = .error e := by
  have hposition := position_of_checkAppend h
  cases hagain : (b.extend body.payload).checkAppend body (some p) maxSize with
  | error e => exact ⟨e, rfl⟩
  | ok _ =>
      have hthere := position_of_checkAppend hagain
      have hlonger : (b.extend body.payload).content.length =
          b.content.length + body.payload.length := List.length_append
      have hpos := List.length_pos_iff.2 hne
      omega

end Blob

/-! ## What a blob takes -/

namespace Blob

/-- So many bytes more keep the blob within the limit. -/
def HasRoom (b : Blob) (maxSize : Option Nat) (added : Nat) : Prop :=
  ∀ limit, maxSize = some limit → b.content.length + added ≤ limit

section

variable {b : Blob} {e : Envelope} {payload : Bytes} {position : Option Nat}

/-- An append to the end of a blob depends on its size only. -/
theorem checkAppend_of_admits (hadmits : b.Admits e.lease)
    (hfits : ∀ p, position = some p → p = b.content.length) (maxSize : Option Nat) :
    b.checkAppend (e.body payload) position maxSize = b.checkSize payload.length maxSize := by
  have hposition : b.checkPosition position = .ok () := by
    cases position with
    | none => rfl
    | some p => exact if_neg (fun hmoved => hmoved (hfits p rfl))
  rw [checkAppend, check_body hadmits, hposition]
  rfl

theorem checkSize_of_room {added : Nat} {maxSize : Option Nat} (hroom : b.HasRoom maxSize added) :
    b.checkSize added maxSize = .ok () := by
  cases maxSize with
  | none => rfl
  | some limit => exact if_neg (Nat.not_lt.2 (hroom limit rfl))

theorem checkSize_of_full {added limit : Nat} (hfull : limit < b.content.length + added) :
    b.checkSize added (some limit) = .error (.tooLarge limit) := if_pos hfull

end

/-- The blob after requests have appended all these chunks. -/
def extendAll (b : Blob) (cs : List Chunk) : Blob := cs.foldl (fun b c => b.extend c.payload) b

theorem extendAll_cons (b : Blob) (c : Chunk) (cs : List Chunk) :
    b.extendAll (c :: cs) = (b.extend c.payload).extendAll cs := rfl

theorem extendAll_frame (b : Blob) (cs : List Chunk) :
    (b.extendAll cs).content = b.content ++ cs.flatMap Chunk.payload ∧
      (b.extendAll cs).calls =
        { b.calls with appendBlock := b.calls.appendBlock + cs.length } ∧
      (b.extendAll cs).lease = b.lease := by
  induction cs generalizing b with
  | nil => exact ⟨(List.append_nil _).symm, rfl, rfl⟩
  | cons c cs ih =>
      obtain ⟨hcontent, hcalls, hlease⟩ := ih (b.extend c.payload)
      rw [extendAll_cons, hcontent, hcalls, hlease, List.flatMap_cons, ← List.append_assoc,
        List.length_cons, Nat.add_comm cs.length, ← Nat.add_assoc]
      exact ⟨rfl, rfl, rfl⟩

end Blob

section Delivery

variable {P : Request → Prop} {body : Body} {position maxSize : Option Nat}
  {relay relay' : Relay Blob} {reply : Appended} {retries : Nat}

/-- What is turned down once is turned down whenever it is sent again. -/
theorem not_delivered_of_refused {e : Rejection}
    (hrefused : relay.service.checkAppend body position maxSize = .error e)
    (hlose : Fault.LoseOnly P relay.faults) :
    ¬Delivered (.appendBlock body position maxSize) reply retries relay relay' := by
  intro hdone
  induction hdone with
  | now hanswered =>
      cases Relay.handles_of_answer hlose hanswered with
      | answered hanswer =>
          rw [Blob.answer_appendBlock, hrefused] at hanswer
          cases hanswer
  | later hfailed _ ih =>
      cases Relay.handles_of_answer hlose hfailed with
      | dropped hlose => exact ih hrefused hlose
      | lost _ hlose =>
          refine ih ?_ hlose
          rw [Blob.answer_appendBlock, hrefused]
          exact hrefused
      | answered hanswer hlose =>
          refine ih ?_ hlose
          rw [Blob.answer_appendBlock, hrefused] at hanswer
          cases hanswer
          exact hrefused

/-- A delivered append has left its payload behind once more than its answer was lost, which cannot
be if it states a position. -/
theorem append_of_delivered (hne : body.payload ≠ []) (hlose : Fault.LoseOnly P relay.faults)
    (hdone : Delivered (.appendBlock body position maxSize) reply retries relay relay') :
    Fault.LoseOnly P relay'.faults ∧
    ∃ e, relay'.service.content =
        relay.service.content ++ (List.replicate (e + 1) body.payload).flatten ∧
      relay'.service.calls.appendBlock = relay.service.calls.appendBlock + (e + 1) ∧
      e ≤ retries ∧ (e ≠ 0 → position = none ∧ P (.appendBlock body position maxSize)) := by
  induction hdone with
  | now hanswered =>
      cases Relay.handles_of_answer hlose hanswered with
      | answered hanswer hlose =>
          rw [Blob.answer_appendBlock] at hanswer
          split at hanswer
          · cases hanswer
            refine ⟨hlose, 0, ?_, rfl, Nat.zero_le _, fun h => absurd rfl h⟩
            simp [Relay.record, Blob.extend, Blob.replace]
          · cases hanswer
  | @later left before between after e hfailed hrest ih =>
      cases Relay.handles_of_answer hlose hfailed with
      | dropped hlose =>
          obtain ⟨hlose, e, hcontent, hcalls, hfew, hlost⟩ := ih hlose
          exact ⟨hlose, e, hcontent, hcalls, Nat.le_succ_of_le hfew, hlost⟩
      | lost hallowed hlose =>
          rw [Blob.answer_appendBlock] at ih hrest
          cases hcheck : before.service.checkAppend body position maxSize with
          | error refused =>
              rw [hcheck] at hrest
              exact absurd hrest (not_delivered_of_refused hcheck hlose)
          | ok _ =>
              rw [hcheck] at ih hrest
              cases position with
              | none =>
                  obtain ⟨hlose, e, hcontent, hcalls, hfew, -⟩ := ih hlose
                  refine ⟨hlose, e + 1, ?_, ?_, Nat.succ_le_succ hfew, fun _ => ⟨rfl, hallowed⟩⟩
                  · have hfirst : (List.replicate (e + 1 + 1) body.payload).flatten =
                        body.payload ++ (List.replicate (e + 1) body.payload).flatten := rfl
                    rw [hcontent, hfirst, ← List.append_assoc]
                    rfl
                  · rw [hcalls]
                    simp only [Relay.record, Blob.extend, Calls.count]
                    omega
              | some p =>
                  obtain ⟨refused, hagain⟩ := Blob.checkAppend_extend hne hcheck
                  exact absurd hrest (not_delivered_of_refused hagain hlose)
      | answered hanswer hlose =>
          rw [Blob.answer_appendBlock] at hanswer
          split at hanswer
          · cases hanswer
          · rename_i hrefused
            cases hanswer
            exact absurd hrest (not_delivered_of_refused hrefused hlose)

end Delivery

/-! ## A session that appends through faults -/

/-- What the first of several chunks holds. -/
def firstPayload (cs : List Chunk) : Bytes := (cs.head?.map Chunk.payload).getD []

/-- Sending a chunk through faults appends it once, and once more for every lost answer to a first
append. -/
theorem send_append {P : Request → Prop} {s t : Session (Relay Blob)} {c : Chunk} {token : Token}
    {envelope : Envelope} {maxSize next : Option Nat}
    (hwriter : s.writer = .append envelope maxSize next) (hne : c.payload ≠ [])
    (hlose : Fault.LoseOnly P s.service.faults)
    (hsent : s.send c = (.ok token, t)) :
    Fault.LoseOnly P t.service.faults ∧ (∃ n, t.writer = .append envelope maxSize (some n)) ∧
    ∃ e, t.service.service.content =
        s.service.service.content ++ (List.replicate (e + 1) c.payload).flatten ∧
      t.service.service.calls.appendBlock = s.service.service.calls.appendBlock + (e + 1) ∧
      e ≤ s.settings.maxRetries ∧
      (e ≠ 0 → next = none ∧ P (.appendBlock (envelope.body c.payload) none maxSize)) := by
  obtain ⟨settings, service, w, watch, reports, abort, total, completed⟩ := s
  cases hwriter
  obtain ⟨reply, service', -, hdelivered, -, rfl⟩ := Session.send_ok hsent
  obtain ⟨hlose, e, hcontent, hcalls, hfew, hlost⟩ := append_of_delivered hne hlose hdelivered
  rw [Session.service_advance, Session.writer_advance]
  refine ⟨hlose, ⟨_, rfl⟩, e, hcontent, hcalls, hfew, fun h => ?_⟩
  obtain ⟨rfl, hallowed⟩ := hlost h
  exact ⟨rfl, hallowed⟩

/-- Sent one after another, chunks are appended in their order, none of them left out. Only the
first can be there more than once, if it was not told where it belongs. -/
theorem sendEach_append {P : Request → Prop} {cs : List Chunk} {s t : Session (Relay Blob)}
    {tokens : List Token} {envelope : Envelope} {maxSize next : Option Nat}
    (hwriter : s.writer = .append envelope maxSize next) (hne : ∀ c ∈ cs, c.payload ≠ [])
    (hlose : Fault.LoseOnly P s.service.faults)
    (hsent : sendEach (cs.map .ok) s = (.ok tokens, t)) :
    (∃ next, t.writer = .append envelope maxSize next) ∧ tokens.length = cs.length ∧
    ∃ e, t.service.service.content = s.service.service.content ++
        ((List.replicate e (firstPayload cs)).flatten ++ cs.flatMap Chunk.payload) ∧
      t.service.service.calls.appendBlock =
        s.service.service.calls.appendBlock + (e + cs.length) ∧
      e ≤ s.settings.maxRetries ∧ (e ≠ 0 → next = none ∧
        P (.appendBlock (envelope.body (firstPayload cs)) none maxSize)) := by
  induction cs generalizing s tokens next with
  | nil =>
      cases hsent
      exact ⟨⟨next, hwriter⟩, rfl, 0, by simp, rfl, Nat.zero_le _, fun h => absurd rfl h⟩
  | cons c cs ih =>
      rw [List.map_cons] at hsent
      obtain ⟨token, s₂, tokens', hchunk, hrest, rfl⟩ := of_sendEach_cons hsent
      obtain ⟨hlose, ⟨n, hwriter'⟩, e, hcontent, hcalls, hfew, hlost⟩ :=
        send_append (s := (s.checkAbort c.offset).2) hwriter (hne c List.mem_cons_self) hlose hchunk
      obtain ⟨hlast, hlength, e', hcontent', hcalls', -, hlost'⟩ :=
        ih hwriter' (fun d hd => hne d (List.mem_cons_of_mem _ hd)) hlose hrest
      have honce : e' = 0 := Decidable.byContradiction fun h => by cases (hlost' h).1
      subst honce
      refine ⟨hlast, congrArg (· + 1) hlength, e, ?_, ?_, hfew, hlost⟩
      · have hfirst : firstPayload (c :: cs) = c.payload := rfl
        rw [hcontent', hcontent, hfirst, List.replicate_zero, List.flatten_nil, List.nil_append,
          List.replicate_succ', List.flatten_concat, List.flatMap_cons, List.append_assoc,
          List.append_assoc]
        rfl
      · rw [hcalls', hcalls, List.length_cons]
        simp only [Session.checkAbort]
        omega

/-! ## A session that appends without faults -/

/-- The tokens of chunks that are appended one after another, behind `length` bytes. -/
def Token.appends (length : Nat) (cs : List Chunk) : List Token :=
  (List.range cs.length).map fun i =>
    .append (length + ((cs.take (i + 1)).flatMap Chunk.payload).length)

theorem Token.appends_cons (length : Nat) (c : Chunk) (cs : List Chunk) :
    appends length (c :: cs) = .append (length + c.length) :: appends (length + c.length) cs := by
  rw [appends, List.length_cons, List.range_succ_eq_map, List.map_cons, List.map_map, appends]
  simp only [List.take_succ_cons, List.take_zero, List.flatMap_cons, List.flatMap_nil,
    List.append_nil, Function.comp_def, List.length_append, Nat.add_assoc, Nat.succ_eq_add_one,
    Chunk.length]

/-- The session appends where its blob ends, under a lease that meets the one of the blob. -/
structure Session.Appends (e : Envelope) (maxSize : Option Nat) (s : Session Blob) : Prop where
  writer : ∃ next, s.writer = .append e maxSize next ∧
    ∀ p, next = some p → p = s.service.content.length
  admits : s.service.Admits e.lease

namespace Session

variable {s : Session Blob} {e : Envelope} {maxSize : Option Nat}

/-- Chunks for which the blob has room are all appended. -/
theorem Appends.writes (happends : s.Appends e maxSize) (cs : List Chunk)
    (hroom : cs ≠ [] → s.service.HasRoom maxSize (cs.flatMap Chunk.payload).length) :
    ∃ t, s.Writes cs (Token.appends s.service.content.length cs) t ∧ t.Appends e maxSize ∧
      t.service = s.service.extendAll cs := by
  induction cs generalizing s with
  | nil => exact ⟨s, .nil, happends, rfl⟩
  | cons c cs ih =>
      obtain ⟨⟨next, hwriter, hfits⟩, hadmits⟩ := happends
      have hall := hroom (List.cons_ne_nil c cs)
      rw [List.flatMap_cons, List.length_append] at hall
      have hfirst : s.service.checkAppend (e.body c.payload) next maxSize = .ok () := by
        rw [Blob.checkAppend_of_admits hadmits hfits, Blob.checkSize_of_room]
        exact fun limit hsame => Nat.le_trans (by omega) (hall limit hsame)
      have hlonger : (s.service.extend c.payload).content.length =
          s.service.content.length + c.payload.length := List.length_append
      have hanswer : Service.answer (.appendBlock (e.body c.payload) next maxSize) s.service =
          (.ok ⟨s.service.content.length, etagOf (s.service.revision + 1)⟩,
            s.service.extend c.payload) := by
        rw [Blob.answer_appendBlock, hfirst]
        rfl
      let s' : Session Blob := { s with
        service := s.service.extend c.payload
        writer := .append e maxSize (some (s.service.content.length + c.length)) }
      obtain ⟨t, hwritten, happends', hafter⟩ := ih (s := s'.advance c.length)
        ⟨⟨_, writer_advance _ _, fun p hsame => by
          rw [service_advance, ← Option.some.inj hsame]
          exact hlonger.symm⟩,
          by rw [service_advance]; exact hadmits⟩
        (fun _ limit hsame => by
          rw [service_advance, hlonger, Nat.add_assoc]
          exact hall limit hsame)
      rw [service_advance] at hwritten hafter
      rw [hlonger] at hwritten
      obtain ⟨settings, service, w, watch, reports, abort, total, completed⟩ := s
      obtain rfl : w = .append e maxSize next := hwriter
      have hwhole := Writes.cons (c := c)
        (s := ⟨settings, service, .append e maxSize next, watch, reports, abort, total, completed⟩)
        rfl hanswer hwritten
      rw [Token.appends_cons]
      exact ⟨t, hwhole, happends', hafter⟩

/-- A chunk for which the blob has no room is turned down because of the limit, not because of its
position. -/
theorem Appends.send_of_full {limit : Nat} (happends : s.Appends e (some limit)) {c : Chunk}
    (hfull : limit < s.service.content.length + c.length) :
    s.send c = (.error (.condition c.offset (Rejection.tooLarge limit).message),
      { s with service :=
          { s.service with calls := s.service.calls.count .appendBlock } }) := by
  obtain ⟨⟨next, hwriter, hfits⟩, hadmits⟩ := happends
  have hanswer : Service.answer (.appendBlock (e.body c.payload) next (some limit)) s.service =
      (.error (Rejection.tooLarge limit).toError,
        { s.service with calls := s.service.calls.count .appendBlock }) := by
    have hlarge : limit < s.service.content.length + c.payload.length := hfull
    rw [Blob.answer_appendBlock, Blob.checkAppend_of_admits hadmits hfits,
      Blob.checkSize_of_full hlarge]
  obtain ⟨settings, service, w, watch, reports, abort, total, completed⟩ := s
  obtain rfl : w = .append e (some limit) next := hwriter
  exact send_of_failed rfl (deliver_of_condition hanswer _ _)

end Session

/-- The first chunk for which the blob has no room ends the sending, behind the chunks for which it
had room. -/
theorem sendEach_append_of_full {s : Session Blob} {e : Envelope} {limit : Nat}
    (happends : s.Appends e (some limit)) (hcalm : s.Undisturbed) {cs : List Chunk} {c : Chunk}
    (ds : List Chunk)
    (hroom : cs ≠ [] → s.service.HasRoom (some limit) (cs.flatMap Chunk.payload).length)
    (hfull : limit < s.service.content.length + ((cs.flatMap Chunk.payload).length + c.length)) :
    ∃ t, sendEach ((cs ++ c :: ds).map .ok) s =
        (.error (.condition c.offset (Rejection.tooLarge limit).message), t) ∧
      t.service.content = s.service.content ++ cs.flatMap Chunk.payload ∧
      t.service.calls = { s.service.calls with
        appendBlock := s.service.calls.appendBlock + (cs.length + 1) } := by
  obtain ⟨t, hwritten, happends', hafter⟩ := happends.writes cs hroom
  obtain ⟨hsent, hcalm'⟩ := hwritten.sendEach hcalm
  obtain ⟨hcontent, hcalls, -⟩ := s.service.extendAll_frame cs
  rw [← hafter] at hcontent hcalls
  have hfull' : limit < t.service.content.length + c.length := by
    rw [hcontent, List.length_append, Nat.add_assoc]
    exact hfull
  rw [List.map_append, sendEach_append_of_ok hsent, List.map_cons,
    sendEach_of_failed (Session.checkAbort_of_undisturbed hcalm' c.offset)
      (happends'.send_of_full hfull')]
  refine ⟨_, rfl, hcontent, ?_⟩
  rw [hcalls]
  rfl

/-- Without faults all chunks are sent, each of them once. -/
theorem sendEach_append_of_admits {s : Session Blob} {e : Envelope} {next : Option Nat}
    (hwriter : s.writer = .append e none next) (hadmits : s.service.Admits e.lease)
    (hfits : ∀ p, next = some p → p = s.service.content.length) (hcalm : s.Undisturbed)
    (cs : List Chunk) :
    ∃ tokens t, sendEach (cs.map .ok) s = (.ok tokens, t) ∧
      t.service.content = s.service.content ++ cs.flatMap Chunk.payload ∧
      t.writer.blobType = .append ∧
      t.completed = s.completed + (cs.flatMap Chunk.payload).length := by
  have happends : s.Appends e none := ⟨⟨next, hwriter, hfits⟩, hadmits⟩
  obtain ⟨t, hwritten, ⟨⟨next', hwriter', -⟩, -⟩, hafter⟩ :=
    happends.writes cs fun _ limit hunlimited => by cases hunlimited
  refine ⟨_, t, (hwritten.sendEach hcalm).1, ?_, by rw [hwriter']; rfl, hwritten.completed⟩
  rw [hafter, (s.service.extendAll_frame cs).1]

end BlobUpload
