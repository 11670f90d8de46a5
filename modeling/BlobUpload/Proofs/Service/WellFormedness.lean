import BlobUpload.Proofs.Service.PageWrites
import BlobUpload.Proofs.Service.Revisions
import BlobUpload.Proofs.Session.TransientFaults

/-! # Requests that a blob understands

Some requests a blob turns down whatever its lease, ETag and size are: their digest is wrong, their
bytes are not the pages that they are said to be, or they list blocks that nobody has staged. The
two halves of the argument meet at `Blob.Understands`. A request that a blob understands is only
turned down by a condition, and whatever a session sends is understood: chunks pass the check of the
writer first, and the blocks on a list have all been acknowledged. -/

namespace BlobUpload

/-- The digest is that of the payload, if one is sent along. -/
def Body.Digested (body : Body) : Prop :=
  ∀ md5, body.md5 = some md5 → md5 = ContentMD5.compute body.payload

/-- Nothing is wrong with a request but, perhaps, a condition that does not hold. -/
def Blob.Understands (b : Blob) : Request → Prop
  | .putBlock _ body | .appendBlock body _ _ | .putBlob body => body.Digested
  | .putBlockList ids _ => ∀ id ∈ ids, (b.stagedBlock? id).isSome = true
  | .updatePage first last body _ => body.Digested ∧ body.payload.Fills first last

/-- Steps one after another fail with the first of them that fails. -/
theorem of_bind_error {ε α β : Type} {x : Except ε α} {f : α → Except ε β} {e : ε}
    (h : x >>= f = .error e) : x = .error e ∨ ∃ a, x = .ok a ∧ f a = .error e := by
  cases x with
  | error e' =>
      cases h
      exact .inl rfl
  | ok a => exact .inr ⟨a, rfl, h⟩

/-! ## What a blob answers -/

namespace Rejection

/-- The request may be sent again when things have changed. -/
def IsCondition (rejection : Rejection) : Prop := rejection.status = preconditionFailed

theorem toError_of_isCondition {rejection : Rejection} (h : rejection.IsCondition) :
    rejection.toError = .condition rejection.message := if_pos h

end Rejection

namespace Blob

variable {b : Blob} {r : Request} {rejection : Rejection} {body : Body}

theorem isCondition_of_checkLease {claimed : Option String}
    (hrefused : b.checkLease claimed = .error rejection) : rejection.IsCondition := by
  rw [checkLease] at hrefused
  split at hrefused
  · cases hrefused
    rfl
  · cases hrefused

/-- Of a payload with its own digest or none only the lease is checked. -/
theorem check_of_digested (hdigested : body.Digested) (b : Blob) :
    b.check body = b.checkLease body.lease := by
  have hright : ¬body.md5.any (· ≠ ContentMD5.compute body.payload) = true := by
    cases htold : body.md5 with
    | none => exact Bool.false_ne_true
    | some md5 => simp [hdigested md5 htold]
  rw [check, if_neg hright]
  cases b.checkLease body.lease <;> rfl

theorem isCondition_of_check (hdigested : body.Digested)
    (hrefused : b.check body = .error rejection) : rejection.IsCondition :=
  isCondition_of_checkLease ((check_of_digested hdigested b).symm.trans hrefused)

theorem isCondition_of_checkPages {first last : Nat} {payload : Bytes} {ifMatch : Option String}
    (hfills : payload.Fills first last)
    (hrefused : b.checkPages first last payload ifMatch = .error rejection) :
    rejection.IsCondition := by
  rw [checkPages_of_fills hfills] at hrefused
  cases ifMatch with
  | none => cases hrefused
  | some expected =>
      simp only at hrefused
      split at hrefused
      · cases hrefused
        rfl
      · cases hrefused

theorem isCondition_of_checkPosition {position : Option Nat}
    (hrefused : b.checkPosition position = .error rejection) : rejection.IsCondition := by
  cases position with
  | none => cases hrefused
  | some expected =>
      simp only [checkPosition] at hrefused
      split at hrefused
      · cases hrefused
        rfl
      · cases hrefused

theorem isCondition_of_checkSize {added : Nat} {maxSize : Option Nat}
    (hrefused : b.checkSize added maxSize = .error rejection) : rejection.IsCondition := by
  cases maxSize with
  | none => cases hrefused
  | some limit =>
      simp only [checkSize] at hrefused
      split at hrefused
      · cases hrefused
        rfl
      · cases hrefused

/-- Blocks that have been staged can be put together. -/
theorem assemble_of_isSome {ids : List String}
    (hstaged : ∀ id ∈ ids, (b.stagedBlock? id).isSome = true) :
    ∃ content, b.assemble ids = .ok content := by
  induction ids with
  | nil => exact ⟨[], rfl⟩
  | cons id ids ih =>
      obtain ⟨block, hfound⟩ := Option.isSome_iff_exists.1 (hstaged id List.mem_cons_self)
      obtain ⟨rest, hjoined⟩ := ih fun id' hmem => hstaged id' (List.mem_cons_of_mem id hmem)
      exact ⟨block ++ rest, by rw [assemble, hfound, hjoined]; rfl⟩

/-- A request that a blob understands is only turned down by a condition. -/
theorem isCondition_of_understands (hunderstands : b.Understands r)
    (hrefused : b.perform r = .error rejection) : rejection.IsCondition := by
  cases r with
  | putBlock id body =>
      rcases of_bind_error hrefused with hcheck | ⟨-, -, hdone⟩
      · exact isCondition_of_check hunderstands hcheck
      · cases hdone
  | putBlockList ids lease =>
      rcases of_bind_error hrefused with hcheck | ⟨-, -, hdone⟩
      · exact isCondition_of_checkLease hcheck
      · obtain ⟨content, hjoined⟩ := assemble_of_isSome hunderstands
        rw [hjoined] at hdone
        cases hdone
  | updatePage first last body ifMatch =>
      obtain ⟨hdigested, hfills⟩ := hunderstands
      rcases of_bind_error hrefused with hcheck | ⟨-, -, hdone⟩
      · exact isCondition_of_check hdigested hcheck
      rcases of_bind_error hdone with hcheck | ⟨-, -, hdone⟩
      · exact isCondition_of_checkPages hfills hcheck
      · cases hdone
  | appendBlock body position maxSize =>
      rcases of_bind_error hrefused with hcheck | ⟨-, -, hdone⟩
      · exact isCondition_of_check hunderstands hcheck
      rcases of_bind_error hdone with hcheck | ⟨-, -, hdone⟩
      · exact isCondition_of_checkPosition hcheck
      rcases of_bind_error hdone with hcheck | ⟨-, -, hdone⟩
      · exact isCondition_of_checkSize hcheck
      · cases hdone
  | putBlob body =>
      rcases of_bind_error hrefused with hcheck | ⟨-, -, hdone⟩
      · exact isCondition_of_check hunderstands hcheck
      · cases hdone

theorem condition_of_understands {e : ServiceError} (hunderstands : b.Understands r)
    (hrefused : (Service.answer r b).1 = .error e) : ∃ message, e = .condition message := by
  have heffect := effect_answer r b
  rw [hrefused] at heffect
  generalize (Service.answer r b).2 = after at heffect
  cases heffect with
  | rejected hperformed =>
      exact ⟨_, Rejection.toError_of_isCondition (isCondition_of_understands hunderstands
        hperformed)⟩

/-! ## What stays staged -/

theorem isSome_stagedBlock?_cons {id other : String} {block : Bytes}
    {staged : List (String × Bytes)} (h : other = id ∨ (staged.lookup id).isSome = true) :
    (((other, block) :: staged).lookup id).isSome = true := by
  rw [List.lookup_cons]
  by_cases hsame : id = other
  · rw [hsame, beq_self_eq_true]
    rfl
  · rw [show (id == other) = false from beq_false_of_ne hsame]
    exact h.resolve_left (Ne.symm hsame)

/-- Only what replaces the content of a block blob uses up what is staged. -/
theorem staged_answer (hkeeps : r.commits = false) {id : String}
    (hstaged : (b.stagedBlock? id).isSome = true) :
    ((Service.answer r b).2.stagedBlock? id).isSome = true := by
  have heffect := effect_answer r b
  generalize (Service.answer r b).1 = answer at heffect
  generalize (Service.answer r b).2 = after at heffect
  cases heffect with
  | staged => exact isSome_stagedBlock?_cons (.inr hstaged)
  | published | put => cases hkeeps
  | _ => exact hstaged

/-- A block that is acknowledged has been staged. -/
theorem staged_of_answer_putBlock {id : String} {reply : Unit}
    (hanswered : (Service.answer (.putBlock id body) b).1 = .ok reply) :
    ((Service.answer (.putBlock id body) b).2.stagedBlock? id).isSome = true := by
  have heffect := effect_answer (.putBlock id body) b
  rw [hanswered] at heffect
  generalize (Service.answer (.putBlock id body) b).2 = after at heffect
  cases heffect
  exact isSome_stagedBlock?_cons (.inl rfl)

end Blob

/-! ## What a writer sends -/

theorem Envelope.digested_body (e : Envelope) (payload : Bytes) : (e.body payload).Digested := by
  intro md5 htold
  simp only [body] at htold
  split at htold
  · exact (Option.some.inj htold).symm
  · cases htold

namespace Writer

variable {w : Writer} {c : Chunk}

/-- Writers of pages accept nothing but pages. -/
theorem paged_of_check {e : Envelope} {chained : Bool} {ifMatch : Option String}
    (hchecked : (Writer.page e chained ifMatch).check c = .ok ()) : c.Paged := by
  have hnone : (Writer.page e chained ifMatch).violation? c = none := by
    cases hbroken : (Writer.page e chained ifMatch).violation? c with
    | none => rfl
    | some rule => rw [check, hbroken] at hchecked; cases hchecked
  simp only [violation?] at hnone
  split at hnone
  · cases hnone
  split at hnone
  · cases hnone
  rename_i hoffset hlength
  simp only [Bool.or_eq_true, decide_eq_true_eq, not_or, Decidable.not_not] at hlength
  refine ⟨Decidable.not_not.1 hoffset, hlength.2, fun hnothing => hlength.1 ?_⟩
  rw [Chunk.length, hnothing, List.length_nil]

/-- The request for a chunk that the writer accepts is understood. -/
theorem understands_request (hchecked : w.check c = .ok ()) (b : Blob) :
    b.Understands (w.request c) := by
  cases w with
  | block e => exact e.digested_body c.payload
  | page e chained ifMatch =>
      exact ⟨e.digested_body c.payload, (paged_of_check hchecked).fills⟩
  | append e maxSize next => exact e.digested_body c.payload

/-- The request for a chunk commits nothing. -/
theorem commits_request (w : Writer) (c : Chunk) : (w.request c).commits = false := by
  cases w <;> rfl

/-- What a writer accepts does not depend on what it has written. -/
theorem check_accept (w : Writer) (c : Chunk) (reply : (w.request c).Reply) (d : Chunk) :
    (w.accept c reply).2.check d = w.check d := by
  cases w <;> rfl

end Writer

/-! ## What reaches the blob -/

namespace Relay

/-- Between the relay and the blob there are no faults, and since the relay had recorded `before`
nothing has reached the blob that it did not understand: no status tells of a failure but that of a
condition. -/
structure Heard (before : List Exchange) (near : Relay Blob) : Prop where
  clear : near.faults = []
  noted : ∃ noted, near.exchanges = before ++ noted ∧
    ∀ x ∈ noted, ∀ status message, x.failure ≠ some (.service status message)

variable {before : List Exchange} {near : Relay Blob} {far : Relay (Relay Blob)} {r : Request}

theorem heard_of_clear (hclear : near.faults = []) : near.Heard near.exchanges :=
  ⟨hclear, [], (List.append_nil _).symm, nofun⟩

theorem Heard.answer (hheard : near.Heard before) (hunderstands : near.service.Understands r) :
    (Service.answer r near).2.Heard before := by
  obtain ⟨hclear, noted, hrecorded, hunderstood⟩ := hheard
  rw [answer_of_clear hclear]
  refine ⟨rfl, noted ++ [⟨r, failure? (Service.answer r near.service).1⟩], ?_,
    fun x hmem status message hfailed => ?_⟩
  · rw [← List.append_assoc, ← hrecorded]
    rfl
  · rcases List.mem_append.1 hmem with hold | hnew
    · exact hunderstood x hold status message hfailed
    · rw [List.mem_singleton.1 hnew] at hfailed
      cases hanswered : (Service.answer r near.service).1 with
      | ok reply => rw [hanswered] at hfailed; cases hfailed
      | error e =>
          obtain ⟨told, rfl⟩ := Blob.condition_of_understands hunderstands hanswered
          rw [hanswered] at hfailed
          cases hfailed

/-- The faults on the way decide whether a request reaches the blob, not what it says. -/
theorem Heard.pass (hheard : far.service.Heard before)
    (hunderstands : far.service.service.Understands r) :
    (Service.answer r far).2.service.Heard before := by
  rcases far.answer_cases r with ⟨f, -, -, hservice⟩ | ⟨-, -, hservice⟩
  · rw [hservice]
    split
    · exact hheard.answer hunderstands
    · exact hheard
  · rw [hservice]
    exact hheard.answer hunderstands

/-- Since `before` the blob has understood what has reached it, and it still has all blocks that
were staged in `far`. -/
structure Onward (before : List Exchange) (far far' : Relay (Relay Blob)) : Prop where
  heard : far'.service.Heard before
  staged : ∀ id, (far.service.service.stagedBlock? id).isSome = true →
    (far'.service.service.stagedBlock? id).isSome = true

theorem Heard.onward (hheard : far.service.Heard before) : Onward before far far :=
  ⟨hheard, fun _ => id⟩

theorem Onward.trans {far' far'' : Relay (Relay Blob)} (h : Onward before far far')
    (h' : Onward before far' far'') : Onward before far far'' :=
  ⟨h'.heard, fun id hstaged => h'.staged id (h.staged id hstaged)⟩

/-- What reaches a blob through a relay without faults is answered by the blob. -/
theorem blob_answer (hclear : near.faults = []) (r : Request) :
    (Service.answer r near).1 = (Service.answer r near.service).1 ∧
      (Service.answer r near).2.service = (Service.answer r near.service).2 := by
  rw [answer_of_clear hclear]
  exact ⟨rfl, rfl⟩

/-- A request that is understood and commits nothing does no harm. -/
theorem Heard.step (hheard : far.service.Heard before)
    (hunderstands : far.service.service.Understands r) (hkeeps : r.commits = false) :
    Onward before far (Service.answer r far).2 := by
  refine ⟨hheard.pass hunderstands, fun id hstaged => ?_⟩
  have hkept : ((Service.answer r far.service).2.service.stagedBlock? id).isSome = true := by
    rw [(blob_answer hheard.clear r).2]
    exact Blob.staged_answer hkeeps hstaged
  rcases far.answer_cases r with ⟨f, -, -, hservice⟩ | ⟨-, -, hservice⟩
  · rw [hservice]
    split
    · exact hkept
    · exact hstaged
  · rwa [hservice]

end Relay

/-- The block that the token stands for, if it stands for one, is staged. -/
def Token.Staged (token : Token) (b : Blob) : Prop :=
  ∀ id, token.blockId? = some id → (b.stagedBlock? id).isSome = true

theorem Token.Staged.onward {token : Token} {before : List Exchange}
    {far far' : Relay (Relay Blob)} (hstaged : token.Staged far.service.service)
    (honward : Relay.Onward before far far') : token.Staged far'.service.service :=
  fun id hsame => honward.staged id (hstaged id hsame)

/-- The token that a writer makes of a reply stands for a block that is staged. -/
theorem Writer.staged_accept {before : List Exchange} {far far' : Relay (Relay Blob)}
    (hheard : far.service.Heard before) {w : Writer} {c : Chunk} {reply : (w.request c).Reply}
    (hanswered : Service.answer (w.request c) far = (.ok reply, far')) :
    (w.accept c reply).1.Staged far'.service.service := by
  cases w with
  | block e =>
      intro id hsame
      cases hsame
      rcases far.answer_cases ((Writer.block e).request c) with
        ⟨f, -, hfailed, -⟩ | ⟨-, hsame, hservice⟩
      · rw [hanswered] at hfailed
        cases hfailed
      · rw [hanswered] at hsame hservice
        obtain ⟨htold, hafter⟩ := Relay.blob_answer hheard.clear ((Writer.block e).request c)
        rw [hservice, hafter]
        exact Blob.staged_of_answer_putBlock (htold.symm.trans hsame.symm)
  | page e chained ifMatch => exact fun _ hsame => by cases hsame
  | append e maxSize next => exact fun _ hsame => by cases hsame

/-! ## What a session sends -/

namespace Session

variable {before : List Exchange} {s : Session (Relay (Relay Blob))}

/-- A chunk that is sent does no harm, and if it is written its block is staged. -/
theorem onward_send (hheard : s.service.service.Heard before) (c : Chunk) :
    Relay.Onward before s.service (s.send c).2.service ∧ ∀ token, (s.send c).1 = .ok token →
      token.Staged (s.send c).2.service.service.service := by
  cases hchecked : s.writer.check c with
  | error e =>
      rw [send_of_unfit hchecked]
      exact ⟨hheard.onward, fun _ hdone => by cases hdone⟩
  | ok _ =>
      obtain ⟨honward, hlast⟩ := deliver_induction (P := Relay.Onward before s.service)
        (r := s.writer.request c) (fun far honward => honward.trans (honward.heard.step
          (Writer.understands_request hchecked _) (s.writer.commits_request c)))
        c.offset s.settings.maxRetries 0 hheard.onward
      rcases hdelivered : BlobUpload.deliver c.offset (s.writer.request c) s.settings.maxRetries 0
        s.service with ⟨e | reply, far⟩
      · rw [hdelivered] at honward
        rw [send_of_failed hchecked hdelivered]
        exact ⟨honward, fun _ hdone => by cases hdone⟩
      · rw [hdelivered] at honward hlast
        rw [send_of_delivered hchecked hdelivered, service_advance]
        obtain ⟨far', honward', hanswered⟩ := hlast reply rfl
        refine ⟨honward, fun token hsame => ?_⟩
        cases hsame
        exact Writer.staged_accept honward'.heard hanswered

theorem onward_sendEach (hheard : s.service.service.Heard before)
    (answers : List (Except UploadError Chunk)) :
    Relay.Onward before s.service (sendEach answers s).2.service ∧
      ∀ tokens, (sendEach answers s).1 = .ok tokens → ∀ token ∈ tokens,
        token.Staged (sendEach answers s).2.service.service.service := by
  fun_induction sendEach answers s with
  | case1 s =>
      refine ⟨hheard.onward, fun tokens hdone => ?_⟩
      cases hdone
      exact List.forall_mem_nil _
  | case2 e answers s => exact ⟨hheard.onward, fun _ hdone => by cases hdone⟩
  | case3 c answers s e s₁ hrefused =>
      obtain rfl := eq_of_checkAbort hrefused
      exact ⟨hheard.onward, fun _ hdone => by cases hdone⟩
  | case4 c answers s s₁ hclear e s₂ hfailed =>
      obtain rfl := eq_of_checkAbort hclear
      obtain ⟨honward, -⟩ := onward_send (s := { s with abort := s.abort.look.2 }) hheard c
      rw [hfailed] at honward
      exact ⟨honward, fun _ hdone => by cases hdone⟩
  | case5 c answers s s₁ hclear token s₂ hsent tokens s₃ hrest ih =>
      obtain rfl := eq_of_checkAbort hclear
      obtain ⟨honward, hwritten⟩ := onward_send (s := { s with abort := s.abort.look.2 }) hheard c
      rw [hsent] at honward hwritten
      obtain ⟨honward', hstaged⟩ := ih honward.heard
      rw [hrest] at honward' hstaged
      refine ⟨honward.trans honward', fun all hsame => ?_⟩
      cases hsame
      intro token' hmem
      rcases List.mem_cons.1 hmem with rfl | hmem
      · exact (hwritten token' rfl).onward honward'
      · exact hstaged tokens rfl token' hmem
  | case6 c answers s s₁ hclear token s₂ hsent e s₃ hrest ih =>
      obtain rfl := eq_of_checkAbort hclear
      obtain ⟨honward, -⟩ := onward_send (s := { s with abort := s.abort.look.2 }) hheard c
      rw [hsent] at honward
      obtain ⟨honward', -⟩ := ih honward.heard
      rw [hrest] at honward'
      exact ⟨honward.trans honward', fun _ hdone => by cases hdone⟩

/-- Committing staged blocks is understood. -/
theorem heard_commit (hheard : s.service.service.Heard before) {tokens : List Token}
    (hstaged : ∀ token ∈ tokens, token.Staged s.service.service.service) :
    (s.commit tokens).2.service.service.Heard before := by
  rcases commit_cases s.writer tokens with hnothing | hlist
  · rw [hnothing s rfl]
    exact hheard
  · rw [hlist s rfl]
    refine hheard.pass fun id hmem => ?_
    obtain ⟨token, hmem', hsame⟩ := List.mem_filterMap.1 hmem
    exact hstaged token hmem' id hsame

end Session

/-- What is written by one request is understood. -/
theorem heard_sendWhole {before : List Exchange} {s : Session (Relay (Relay Blob))}
    (hheard : s.service.service.Heard before) (k : Cutter) (source : Source) :
    (sendWhole k source s).2.2.service.service.Heard before := by
  match hgathered : gather k source with
  | (.error e, source') =>
      rw [sendWhole_of_ungathered hgathered]
      exact hheard
  | (.ok payload, source') =>
      match hlooked : s.checkAbort 0 with
      | (.error e, s₁) =>
          rw [sendWhole_of_aborted hgathered hlooked]
          obtain rfl := Session.eq_of_checkAbort hlooked
          exact hheard
      | (.ok (), s₁) =>
          have hsame : s₁.service = s.service := by rw [Session.eq_of_checkAbort hlooked]
          have hheard' : s₁.service.service.Heard before := by rwa [hsame]
          obtain ⟨hput, -⟩ := deliver_induction
            (P := fun far : Relay (Relay Blob) => far.service.Heard before)
            (r := .putBlob (s₁.settings.envelope.body payload))
            (fun far hheard => hheard.pass (s₁.settings.envelope.digested_body payload))
            0 s₁.settings.maxRetries 0 hheard'
          match hdelivered : deliver 0 (.putBlob (s₁.settings.envelope.body payload))
              s₁.settings.maxRetries 0 s₁.service with
          | (.error e, far) =>
              rw [hdelivered] at hput
              rw [sendWhole_of_failed hgathered hlooked hdelivered]
              exact hput
          | (.ok etag, far) =>
              rw [hdelivered] at hput
              rw [sendWhole_of_put hgathered hlooked hdelivered, Session.service_advance]
              exact hput

end BlobUpload
