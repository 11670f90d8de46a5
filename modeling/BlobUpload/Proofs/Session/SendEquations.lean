import BlobUpload.Proofs.Cutter.Equations
import BlobUpload.Upload.Sequential

/-! # Cutting first and sending afterwards

`sendAll` and `gather` cut and use one chunk at a time. `sendEach` and `joinAll` use the answers of
a cutter as a list, and do the same. A session that nobody disturbs is never aborted on the way. -/

namespace BlobUpload

variable {ρ σ : Type} [Reader ρ] [Service σ]

/-- Sends the chunks of a list one after another, up to the first failure. -/
def sendEach : List (Except UploadError Chunk) → Session σ →
    Except UploadError (List Token) × Session σ
  | [], s => (.ok [], s)
  | .error e :: _, s => (.error e, s)
  | .ok c :: answers, s =>
    match s.checkAbort c.offset with
    | (.error e, s) => (.error e, s)
    | (.ok (), s) =>
      match s.send c with
      | (.error e, s) => (.error e, s)
      | (.ok token, s) =>
        match sendEach answers s with
        | (.ok tokens, s) => (.ok (token :: tokens), s)
        | (.error e, s) => (.error e, s)

theorem sendEach_of_failed {c : Chunk} {answers : List (Except UploadError Chunk)}
    {s s' s'' : Session σ} {e : UploadError}
    (hclear : s.checkAbort c.offset = (.ok (), s')) (hfailed : s'.send c = (.error e, s'')) :
    sendEach (.ok c :: answers) s = (.error e, s'') := by
  rw [sendEach, hclear]
  simp only [hfailed]

/-- After a chunk that was written the rest is sent. -/
theorem sendEach_of_sent {c : Chunk} {answers : List (Except UploadError Chunk)}
    {s s' s'' : Session σ} {token : Token}
    (hclear : s.checkAbort c.offset = (.ok (), s')) (hsent : s'.send c = (.ok token, s'')) :
    sendEach (.ok c :: answers) s =
      ((sendEach answers s'').1.map (token :: ·), (sendEach answers s'').2) := by
  rw [sendEach, hclear]
  simp only [hsent]
  rcases sendEach answers s'' with ⟨e | tokens, s⟩ <;> rfl

/-- A list that is sent to its end has its first chunk written, and then the rest sent. -/
theorem of_sendEach_cons {c : Chunk} {answers : List (Except UploadError Chunk)}
    {s t : Session σ} {tokens : List Token}
    (hsent : sendEach (.ok c :: answers) s = (.ok tokens, t)) :
    ∃ token s' rest, (s.checkAbort c.offset).2.send c = (.ok token, s') ∧
      sendEach answers s' = (.ok rest, t) ∧ tokens = token :: rest := by
  rcases hclear : s.checkAbort c.offset with ⟨e | _, s₁⟩
  · rw [sendEach, hclear] at hsent
    cases hsent
  · rcases hwritten : s₁.send c with ⟨e | token, s'⟩
    · rw [sendEach_of_failed hclear hwritten] at hsent
      cases hsent
    · rw [sendEach_of_sent hclear hwritten] at hsent
      rcases htail : sendEach answers s' with ⟨e | rest, t'⟩
      · rw [htail] at hsent
        cases hsent
      · rw [htail] at hsent
        cases hsent
        exact ⟨token, s', rest, rfl, htail, rfl⟩

/-- Only chunks are sent to the end. -/
theorem exists_chunks_of_sendEach {answers : List (Except UploadError Chunk)} {s t : Session σ}
    {tokens : List Token} (hsent : sendEach answers s = (.ok tokens, t)) :
    ∃ cs : List Chunk, answers = cs.map .ok := by
  induction answers generalizing s tokens with
  | nil => exact ⟨[], rfl⟩
  | cons answer answers ih =>
      cases answer with
      | error e => cases hsent
      | ok c =>
          obtain ⟨token, s', rest, -, hsent', rfl⟩ := of_sendEach_cons hsent
          obtain ⟨cs, rfl⟩ := ih hsent'
          exact ⟨c :: cs, rfl⟩

/-- The payloads of a list of chunks one after another, or the first failure. -/
def joinAll : List (Except UploadError Chunk) → Except UploadError Bytes
  | [] => .ok []
  | .error e :: _ => .error e
  | .ok c :: answers =>
    match joinAll answers with
    | .ok rest => .ok (c.payload ++ rest)
    | .error e => .error e

theorem joinAll_map_ok (cs : List Chunk) :
    joinAll (cs.map .ok) = .ok (cs.flatMap Chunk.payload) := by
  induction cs with
  | nil => rfl
  | cons c cs ih =>
      rw [List.map_cons, joinAll, ih]
      rfl

/-- Sending chunk by chunk as they are cut gives what sending all answers of the cutter gives. -/
theorem sendAll_eq_sendEach (k : Cutter) (r : ρ) (s : Session σ) :
    ((sendAll k r s).1, (sendAll k r s).2.2) = sendEach (k.toList r).1 s := by
  fun_induction sendAll k r s with
  | case1 k r s k' r' hnext =>
      rw [Cutter.toList_of_next_none hnext]
      rfl
  | case2 k r s e k' r' hnext =>
      rw [Cutter.toList_of_next_some hnext]
      rfl
  | case3 k r s c k' r' hnext e s₁ hrefused =>
      rw [Cutter.toList_of_next_some hnext]
      simp only [sendEach, hrefused]
  | case4 k r s c k' r' hnext s₁ hclear e s₂ hfailed =>
      rw [Cutter.toList_of_next_some hnext]
      simp only [sendEach, hclear, hfailed]
  | case5 k r s c k' r' hnext s₁ hclear token s₂ hsent _ tokens r₃ s₃ hrest ih =>
      rw [hrest] at ih
      rw [Cutter.toList_of_next_some hnext]
      simp only [sendEach, hclear, hsent, ← ih]
  | case6 k r s c k' r' hnext s₁ hclear token s₂ hsent _ e r₃ s₃ hrest ih =>
      rw [hrest] at ih
      rw [Cutter.toList_of_next_some hnext]
      simp only [sendEach, hclear, hsent, ← ih]

/-- Gathering payloads as they are cut gives what joining all answers of the cutter gives. -/
theorem gather_eq_joinAll (k : Cutter) (r : ρ) : (gather k r).1 = joinAll (k.toList r).1 := by
  fun_induction gather k r with
  | case1 k r k' r' hnext =>
      rw [Cutter.toList_of_next_none hnext]
      rfl
  | case2 k r e k' r' hnext =>
      rw [Cutter.toList_of_next_some hnext]
      rfl
  | case3 k r c k' r' hnext _ rest r₂ htail ih =>
      rw [htail] at ih
      rw [Cutter.toList_of_next_some hnext]
      simp only [joinAll, ← ih]
  | case4 k r c k' r' hnext _ e r₂ htail ih =>
      rw [htail] at ih
      rw [Cutter.toList_of_next_some hnext]
      simp only [joinAll, ← ih]

/-! ## Requests that are answered at once -/

theorem deliver_of_answered {offset : Nat} {r : Request} {s t : σ} {reply : r.Reply}
    (h : Service.answer r s = (.ok reply, t)) (retries sent : Nat) :
    deliver offset r retries sent s = (.ok reply, t) := by
  cases retries <;> rw [deliver, h]

/-- A condition that does not hold is final. -/
theorem deliver_of_condition {offset : Nat} {r : Request} {s t : σ} {message : String}
    (h : Service.answer r s = (.error (.condition message), t)) (retries sent : Nat) :
    deliver offset r retries sent s = (.error (.condition offset message), t) := by
  cases retries <;> rw [deliver, h]

/-- What each attempt preserves holds after the last one, whose answer is the reply. -/
theorem deliver_induction {P : σ → Prop} {r : Request}
    (hattempt : ∀ s, P s → P (Service.answer r s).2) (offset retries sent : Nat) {s : σ} (h : P s) :
    P (deliver offset r retries sent s).2 ∧
      ∀ reply, (deliver offset r retries sent s).1 = .ok reply →
        ∃ t, P t ∧ Service.answer r t = (.ok reply, (deliver offset r retries sent s).2) := by
  have hnext {s t : σ} {answer : Except ServiceError r.Reply} (h : P s)
      (hanswered : Service.answer r s = (answer, t)) : P t := by
    simpa only [hanswered] using hattempt s h
  fun_induction deliver offset r retries sent s with
  | case1 retries sent s reply t hanswered =>
      refine ⟨hnext h hanswered, fun reply' hsame => ?_⟩
      cases hsame
      exact ⟨s, h, hanswered⟩
  | case2 retries sent s message t hanswered => exact ⟨hnext h hanswered, nofun⟩
  | case3 sent s cause t _ hanswered => exact ⟨hnext h hanswered, nofun⟩
  | case4 sent s cause t _ hanswered retries ih => exact ih (hnext h hanswered)

/-- A request is answered, after at most so many failures. -/
inductive Delivered (r : Request) (reply : r.Reply) : Nat → σ → σ → Prop
  | now {retries : Nat} {s t : σ} : Service.answer r s = (.ok reply, t) →
    Delivered r reply retries s t
  | later {retries : Nat} {s s' t : σ} {e : ServiceError} : Service.answer r s = (.error e, s') →
    Delivered r reply retries s' t → Delivered r reply (retries + 1) s t

theorem delivered_of_deliver {offset retries sent : Nat} {r : Request} {s t : σ} {reply : r.Reply}
    (h : deliver offset r retries sent s = (.ok reply, t)) : Delivered r reply retries s t := by
  induction retries generalizing sent s with
  | zero =>
      rcases hanswered : Service.answer r s with ⟨e | reply', s'⟩
      · cases e <;> (rw [deliver, hanswered] at h; cases h)
      · rw [deliver_of_answered hanswered] at h
        cases h
        exact .now hanswered
  | succ retries ih =>
      rcases hanswered : Service.answer r s with ⟨e | reply', s'⟩
      · cases e with
        | condition message => rw [deliver, hanswered] at h; cases h
        | transport cause =>
            rw [deliver, hanswered] at h
            exact .later hanswered (ih h)
        | service status message =>
            rw [deliver, hanswered] at h
            exact .later hanswered (ih h)
      · rw [deliver_of_answered hanswered] at h
        cases h
        exact .now hanswered

theorem Session.send_of_unfit {s : Session σ} {c : Chunk} {e : UploadError}
    (hcheck : s.writer.check c = .error e) : s.send c = (.error e, s) := by
  rw [Session.send, hcheck]

theorem Session.send_of_failed {s : Session σ} {c : Chunk} {service : σ} {e : UploadError}
    (hcheck : s.writer.check c = .ok ())
    (h : BlobUpload.deliver c.offset (s.writer.request c) s.settings.maxRetries 0 s.service =
      (.error e, service)) : s.send c = (.error e, { s with service }) := by
  rw [Session.send, hcheck]
  simp only [Session.deliver, h]

/-- A chunk whose request is answered has been written and is counted. -/
theorem Session.send_of_delivered {s : Session σ} {c : Chunk} {service : σ}
    {reply : (s.writer.request c).Reply} (hcheck : s.writer.check c = .ok ())
    (h : BlobUpload.deliver c.offset (s.writer.request c) s.settings.maxRetries 0 s.service =
      (.ok reply, service)) :
    s.send c = (.ok (s.writer.accept c reply).1,
      { s with service, writer := (s.writer.accept c reply).2 }.advance c.length) := by
  rw [Session.send, hcheck]
  simp only [Session.deliver, h]

theorem Session.send_of_answered {s : Session σ} {c : Chunk} {service : σ}
    {reply : (s.writer.request c).Reply} (hcheck : s.writer.check c = .ok ())
    (h : Service.answer (s.writer.request c) s.service = (.ok reply, service)) :
    s.send c = (.ok (s.writer.accept c reply).1,
      { s with service, writer := (s.writer.accept c reply).2 }.advance c.length) :=
  send_of_delivered hcheck (deliver_of_answered h _ _)

/-- What a chunk that was sent has gone through. -/
theorem Session.send_ok {s t : Session σ} {c : Chunk} {token : Token}
    (h : s.send c = (.ok token, t)) :
    ∃ reply service, s.writer.check c = .ok () ∧
      Delivered (s.writer.request c) reply s.settings.maxRetries s.service service ∧
      token = (s.writer.accept c reply).1 ∧
      t = { s with service, writer := (s.writer.accept c reply).2 }.advance c.length := by
  cases hcheck : s.writer.check c with
  | error e => rw [send_of_unfit hcheck] at h; cases h
  | ok _ =>
      rcases hdelivered : BlobUpload.deliver c.offset (s.writer.request c) s.settings.maxRetries 0
        s.service with ⟨e | reply, service⟩
      · rw [send_of_failed hcheck hdelivered] at h
        cases h
      · rw [send_of_delivered hcheck hdelivered] at h
        cases h
        exact ⟨reply, service, rfl, delivered_of_deliver hdelivered, rfl, rfl⟩

/-! ## The whole at once -/

section

variable {σ : Type} [Service σ] {k : Cutter} {source source' : Source} {s s' : Session σ}

theorem sendWhole_of_ungathered {e : UploadError}
    (hgathered : gather k source = (.error e, source')) :
    sendWhole k source s = (.error e, source', s) := by
  rw [sendWhole, hgathered]

theorem sendWhole_of_aborted {payload : Bytes} {e : UploadError}
    (hgathered : gather k source = (.ok payload, source'))
    (hrefused : s.checkAbort 0 = (.error e, s')) :
    sendWhole k source s = (.error e, source', s') := by
  rw [sendWhole, hgathered]
  simp only [hrefused]

theorem sendWhole_of_failed {payload : Bytes} {e : UploadError} {service : σ}
    (hgathered : gather k source = (.ok payload, source')) (hclear : s.checkAbort 0 = (.ok (), s'))
    (hput : deliver 0 (.putBlob (s'.settings.envelope.body payload)) s'.settings.maxRetries 0
      s'.service = (.error e, service)) :
    sendWhole k source s = (.error e, source', { s' with service }) := by
  rw [sendWhole, hgathered]
  simp only [hclear, Session.deliver, hput]

theorem sendWhole_of_put {payload : Bytes} {etag : String} {service : σ}
    (hgathered : gather k source = (.ok payload, source')) (hclear : s.checkAbort 0 = (.ok (), s'))
    (hput : deliver 0 (.putBlob (s'.settings.envelope.body payload)) s'.settings.maxRetries 0
      s'.service = (.ok etag, service)) :
    sendWhole k source s =
      (.ok etag, source', { s' with service }.advance payload.length) := by
  rw [sendWhole, hgathered]
  simp only [hclear, Session.deliver, hput]

end

/-! ## Sessions -/

namespace Session

omit [Service σ]

theorem report_eq (s : Session σ) :
    ∃ reports abort, s.report = { s with reports := reports, abort := abort } := by
  unfold report
  split
  · exact ⟨s.reports, s.abort, rfl⟩
  · exact ⟨_, _, rfl⟩

theorem advance_eq (n : Nat) (s : Session σ) : ∃ reports abort, s.advance n =
    { s with completed := s.completed + n, reports := reports, abort := abort } := by
  obtain ⟨reports, abort, heq⟩ := report_eq { s with completed := s.completed + n }
  exact ⟨reports, abort, heq⟩

@[simp] theorem service_advance (n : Nat) (s : Session σ) :
    (s.advance n).service = s.service := by
  obtain ⟨_, _, heq⟩ := advance_eq n s
  rw [heq]

@[simp] theorem writer_advance (n : Nat) (s : Session σ) : (s.advance n).writer = s.writer := by
  obtain ⟨_, _, heq⟩ := advance_eq n s
  rw [heq]

@[simp] theorem completed_advance (n : Nat) (s : Session σ) :
    (s.advance n).completed = s.completed + n := by
  obtain ⟨_, _, heq⟩ := advance_eq n s
  rw [heq]

/-- A look at the abort flag changes nothing else. -/
theorem eq_of_checkAbort {s t : Session σ} {offset : Nat} {answer : Except UploadError Unit}
    (hlooked : s.checkAbort offset = (answer, t)) : t = { s with abort := s.abort.look.2 } :=
  (congrArg Prod.snd hlooked).symm

/-- A look at a flag that is raised meets it raised, and leaves it so. -/
theorem checkAbort_of_raised {s : Session σ} (hraised : s.abort.raised = true) (offset : Nat) :
    (s.checkAbort offset).1 = .error (.aborted offset) ∧
      (s.checkAbort offset).2.abort.raised = true := by
  obtain ⟨settings, service, writer, watch, reports, ⟨up, outside⟩, total, completed⟩ := s
  obtain rfl : up = true := hraised
  match outside with
  | none | some 0 | some (n + 1) => exact ⟨rfl, rfl⟩

/-- A flag that is down, and that nobody outside raises, lets the chunk pass. -/
theorem checkAbort_of_down {s : Session σ} (hdown : s.abort = {}) (offset : Nat) :
    s.checkAbort offset = (.ok (), s) := by
  have hlook : s.abort.look = (false, s.abort) := by rw [hdown]; rfl
  rw [checkAbort, hlook]
  rfl

/-- Nobody aborts: the flag is down, nobody outside raises it, nor does whoever watches. -/
structure Undisturbed (s : Session σ) : Prop where
  abort : s.abort = {}
  watch : ∀ watch, s.watch = some watch → ∀ reports, watch.abortsOn reports = false

theorem Undisturbed.report {s : Session σ} (hcalm : s.Undisturbed) : s.report.Undisturbed := by
  unfold Session.report
  cases h : s.watch with
  | none => exact hcalm
  | some watch =>
      refine ⟨?_, fun w hw => hcalm.watch w (h.trans hw)⟩
      simp only [hcalm.watch watch h, Bool.false_eq_true, if_false]
      exact hcalm.abort

theorem Undisturbed.advance {s : Session σ} (hcalm : s.Undisturbed) (n : Nat) :
    (s.advance n).Undisturbed :=
  Undisturbed.report (s := { s with completed := s.completed + n }) ⟨hcalm.abort, hcalm.watch⟩

theorem checkAbort_of_undisturbed {s : Session σ} (hcalm : s.Undisturbed) (offset : Nat) :
    s.checkAbort offset = (.ok (), s) := checkAbort_of_down hcalm.abort offset

end Session

theorem Session.settings_send (c : Chunk) (s : Session σ) :
    (s.send c).2.settings = s.settings := by
  cases hcheck : s.writer.check c with
  | error e => rw [send_of_unfit hcheck]
  | ok _ =>
      rcases hdelivered : BlobUpload.deliver c.offset (s.writer.request c) s.settings.maxRetries 0
        s.service with ⟨e | reply, service⟩
      · rw [send_of_failed hcheck hdelivered]
      · obtain ⟨reports, abort, hcounted⟩ := advance_eq c.length
          { s with service, writer := (s.writer.accept c reply).2 }
        rw [send_of_delivered hcheck hdelivered, hcounted]

theorem settings_sendEach (answers : List (Except UploadError Chunk)) (s : Session σ) :
    (sendEach answers s).2.settings = s.settings := by
  fun_induction sendEach answers s with
  | case1 => rfl
  | case2 => rfl
  | case3 c answers s e s₁ hrefused =>
      rw [Session.eq_of_checkAbort hrefused]
  | case4 c answers s s₁ hclear e s₂ hfailed =>
      obtain rfl := Session.eq_of_checkAbort hclear
      simpa only [hfailed] using Session.settings_send c { s with abort := s.abort.look.2 }
  | case5 c answers s s₁ hclear token s₂ hwritten tokens s₃ hrest ih =>
      obtain rfl := Session.eq_of_checkAbort hclear
      rw [hrest] at ih
      rw [ih]
      simpa only [hwritten] using Session.settings_send c { s with abort := s.abort.look.2 }
  | case6 c answers s s₁ hclear token s₂ hwritten e s₃ hrest ih =>
      obtain rfl := Session.eq_of_checkAbort hclear
      rw [hrest] at ih
      rw [ih]
      simpa only [hwritten] using Session.settings_send c { s with abort := s.abort.look.2 }

theorem Session.commit_nil {σ : Type} [Service σ] (s : Session σ) :
    s.commit [] = (.ok none, s) := by
  rw [commit, if_pos (by simp)]

/-- Only blocks are committed. -/
theorem Session.commit_of_ne_block {σ : Type} [Service σ] {s : Session σ}
    (hkind : s.writer.blobType ≠ .block) (tokens : List Token) :
    s.commit tokens = (.ok none, s) := by
  rw [commit, if_pos (by simp [hkind])]

/-- Whether there is anything to commit does not depend on the service, and if there is, it is one
list of blocks. -/
theorem Session.commit_cases (writer : Writer) (tokens : List Token) :
    (∀ {σ : Type} [Service σ] (s : Session σ), s.writer = writer →
      s.commit tokens = (.ok none, s)) ∨
    ∀ {σ : Type} [Service σ] (s : Session σ), s.writer = writer → s.commit tokens =
      (((Service.answer (.putBlockList (tokens.filterMap Token.blockId?) s.settings.leaseId)
          s.service).1.map some).mapError .commit,
        { s with service := (Service.answer
          (.putBlockList (tokens.filterMap Token.blockId?) s.settings.leaseId) s.service).2 }) := by
  by_cases hnothing : (writer.blobType ≠ .block || tokens = []) = true
  · refine .inl fun s hsame => ?_
    rw [commit, hsame, if_pos hnothing]
  · refine .inr fun s hsame => ?_
    rw [commit, hsame, if_neg hnothing]
    rcases Service.answer (.putBlockList (tokens.filterMap Token.blockId?) s.settings.leaseId)
      s.service with ⟨e | etag, service⟩ <;> rfl

end BlobUpload
