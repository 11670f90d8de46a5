import BlobUpload.Proofs.Service.Requests
import BlobUpload.Proofs.Session.AppendRetries

/-! # Blobs that others write to

Between any two requests of an upload others may send theirs. An upload learns of that from the
answers to its own requests only. Appends that state a position notice it: what an upload has
appended stays in one piece (`SharedBlob.Contiguous`), whoever appends in between. -/

namespace BlobUpload

/-- A request of the upload, its answer, and the blob right after it. -/
structure Answered where
  request : Request
  answer : Except ServiceError request.Reply
  after : Blob

/-- A blob behind a relay, to which others send requests without one. -/
structure SharedBlob where
  relay : Relay Blob
  /-- What others request before each of the next requests of the upload. -/
  others : List (List Request) := []
  /-- The requests of the upload so far, oldest first. -/
  past : List Answered := []

/-- An append of the upload that the blob has taken. -/
structure Landing where
  payload : Bytes
  reply : Appended
  /-- The blob right after it. -/
  after : Blob

def Answered.landing? : Answered → Option Landing
  | ⟨.appendBlock body _ _, .ok reply, after⟩ => some ⟨body.payload, reply, after⟩
  | _ => none

/-- What the upload remembers the append by. -/
def Landing.token (x : Landing) : Token := .append (x.reply.offset + x.payload.length)

/-- The append was carried out where `before` ends, and within the limit. -/
structure Landing.LiesBehind (maxSize : Option Nat) (before : Bytes) (x : Landing) : Prop where
  offset : x.reply.offset = before.length
  after : x.after.content = before ++ x.payload
  size : ∀ limit, maxSize = some limit → x.after.content.length ≤ limit

namespace SharedBlob

def content (s : SharedBlob) : Bytes := s.relay.service.content

/-- The relay as a request of the upload meets it, after those of the others. -/
def interrupted (s : SharedBlob) : Relay Blob :=
  { s.relay with service := Service.after s.relay.service (s.others.headD []) }

def answer (r : Request) (s : SharedBlob) : Except ServiceError r.Reply × SharedBlob :=
  let (answer, relay) := Service.answer r s.interrupted
  (answer, ⟨relay, s.others.tail, s.past ++ [⟨r, answer, relay.service⟩]⟩)

instance : Service SharedBlob := ⟨answer⟩

/-- The appends of the upload that the blob has taken, oldest first. -/
def landings (s : SharedBlob) : List Landing := s.past.filterMap Answered.landing?

/-- What the upload has appended, one payload after another. -/
def landed (s : SharedBlob) : Bytes := s.landings.flatMap Landing.payload

/-- Requests of the upload that get no answer were not carried out, and the others append only. -/
structure AppendOnly (s : SharedBlob) : Prop where
  drops : Fault.LoseOnly (fun _ => False) s.relay.faults
  others : ∀ rs ∈ s.others, ∀ r ∈ rs, r.method = .appendBlock

/-- What the upload has appended is one range of the blob, behind `before`, and each append was
carried out behind the one before it. -/
structure Contiguous (maxSize : Option Nat) (before : Bytes) (s : SharedBlob) : Prop where
  content : before ++ s.landed <+: s.content
  landings : ∀ front x back, s.landings = front ++ x :: back →
    x.LiesBehind maxSize (before ++ front.flatMap Landing.payload)

/-- The upload has one range of the blob, and appends where it ends, or has not begun it. -/
structure Placed (maxSize next : Option Nat) (s : SharedBlob) : Prop where
  only : s.AppendOnly
  range : ∃ before, s.Contiguous maxSize before ∧
    (next = none ∧ s.landings = [] ∨ next = some (before ++ s.landed).length)

end SharedBlob

/-- The token of an append tells where its payload ends. -/
theorem SharedBlob.Contiguous.token {maxSize : Option Nat} {before : Bytes} {s : SharedBlob}
    (hrange : s.Contiguous maxSize before) {front back : List Landing} {x : Landing}
    (hsplit : s.landings = front ++ x :: back) :
    x.token = .append (before.length + ((front ++ [x]).flatMap Landing.payload).length) := by
  rw [Landing.token, (hrange.landings front x back hsplit).offset, List.flatMap_append,
    List.flatMap_singleton, List.length_append, List.length_append, Nat.add_assoc]

/-- An upload that has appended nothing is bound to no place. -/
theorem SharedBlob.contiguous_of_nil {s : SharedBlob} (hnone : s.landings = [])
    (maxSize : Option Nat) : s.Contiguous maxSize [] := by
  refine ⟨?_, fun front x back hsplit => ?_⟩
  · rw [landed, hnone]
    exact List.nil_prefix
  · rw [hnone] at hsplit
    exact absurd hsplit.symm (List.append_ne_nil_of_right_ne_nil _ (List.cons_ne_nil _ _))

/-! ## One request -/

/-- Appends leave in front what was there before. -/
theorem Blob.prefix_after {b : Blob} {rs : List Request}
    (happends : ∀ r ∈ rs, r.method = .appendBlock) :
    b.content <+: (Service.after b rs).content := by
  induction rs generalizing b with
  | nil => exact List.prefix_rfl
  | cons r rs ih =>
      refine .trans ?_ (ih fun q hq => happends q (List.mem_cons_of_mem _ hq))
      cases r with
      | appendBlock body position maxSize =>
          change b.content <+: (Service.answer (.appendBlock body position maxSize) b).2.content
          rw [Blob.answer_appendBlock]
          split
          · exact List.prefix_append _ _
          · exact List.prefix_rfl
      | putBlock => exact nomatch happends _ List.mem_cons_self
      | putBlockList => exact nomatch happends _ List.mem_cons_self
      | updatePage => exact nomatch happends _ List.mem_cons_self
      | putBlob => exact nomatch happends _ List.mem_cons_self

/-- What an append that is carried out has met. -/
theorem Blob.of_checkAppend {b : Blob} {body : Body} {position maxSize : Option Nat}
    (hok : b.checkAppend body position maxSize = .ok ()) :
    (∀ p, position = some p → p = b.content.length) ∧
      b.HasRoom maxSize body.payload.length := by
  refine ⟨fun p hsame => by subst hsame; exact position_of_checkAppend hok, ?_⟩
  rintro limit rfl
  rw [checkAppend] at hok
  cases hcheck : b.check body with
  | error e => rw [hcheck] at hok; cases hok
  | ok _ =>
      cases hposition' : b.checkPosition position with
      | error e => rw [hcheck, hposition'] at hok; cases hok
      | ok _ =>
          rw [hcheck, hposition'] at hok
          refine Nat.not_lt.1 fun hfull => ?_
          rw [show b.checkSize body.payload.length (some limit) = _ from
            checkSize_of_full hfull] at hok
          cases hok

namespace SharedBlob

variable {s t : SharedBlob} {body : Body} {position maxSize : Option Nat}

/-- A request of the upload is answered by the relay, behind those of the others, and noted. -/
theorem of_answer {r : Request} {answer : Except ServiceError r.Reply}
    (hanswered : Service.answer r s = (answer, t)) :
    ∃ relay, Service.answer r s.interrupted = (answer, relay) ∧
      t = ⟨relay, s.others.tail, s.past ++ [⟨r, answer, relay.service⟩]⟩ := by
  obtain ⟨rfl, rfl⟩ := Prod.mk.inj hanswered
  exact ⟨_, rfl, rfl⟩

theorem AppendOnly.prefix_interrupted (honly : s.AppendOnly) :
    s.content <+: s.interrupted.service.content := by
  refine Blob.prefix_after ?_
  cases h : s.others with
  | nil => exact nofun
  | cons rs others => exact honly.others rs (h ▸ List.mem_cons_self)

theorem AppendOnly.tail (honly : s.AppendOnly) {relay : Relay Blob} {past : List Answered}
    (hdrops : Fault.LoseOnly (fun _ => False) relay.faults) :
    AppendOnly ⟨relay, s.others.tail, past⟩ :=
  ⟨hdrops, fun rs hmem => honly.others rs (List.mem_of_mem_tail hmem)⟩

theorem landings_concat (relay : Relay Blob) (others : List (List Request))
    (past : List Answered) (a : Answered) :
    (SharedBlob.mk relay others (past ++ [a])).landings =
      past.filterMap Answered.landing? ++ a.landing?.toList := by
  rw [landings, List.filterMap_append]
  cases h : a.landing? <;> simp [h]

/-- An append that is refused leaves the range as it is. -/
theorem AppendOnly.of_refused (honly : s.AppendOnly) {e : ServiceError}
    (hrefused : Service.answer (.appendBlock body position maxSize) s = (.error e, t)) :
    t.AppendOnly ∧ t.landings = s.landings ∧ s.content <+: t.content := by
  obtain ⟨relay, hanswered, rfl⟩ := of_answer hrefused
  have hdrops : Fault.LoseOnly (fun _ => False) s.interrupted.faults := honly.drops
  have hsame := landings_concat relay s.others.tail s.past
    ⟨.appendBlock body position maxSize, .error e, relay.service⟩
  rw [show (Answered.landing? ⟨.appendBlock body position maxSize, .error e, relay.service⟩) =
    none from rfl, Option.toList_none, List.append_nil] at hsame
  cases Relay.handles_of_answer hdrops hanswered with
  | dropped hdrops => exact ⟨honly.tail hdrops, hsame, honly.prefix_interrupted⟩
  | lost hnever => exact hnever.elim
  | answered hanswer hdrops =>
      refine ⟨honly.tail hdrops, hsame, honly.prefix_interrupted.trans ?_⟩
      rw [Blob.answer_appendBlock] at hanswer
      split at hanswer
      · cases hanswer
      · cases hanswer
        exact List.prefix_rfl

/-- An append that is taken lands where the blob ends at that time. -/
theorem AppendOnly.of_taken (honly : s.AppendOnly) {reply : Appended}
    (htaken : Service.answer (.appendBlock body position maxSize) s = (.ok reply, t)) :
    t.AppendOnly ∧ ∃ before x, t.landings = s.landings ++ [x] ∧ x.payload = body.payload ∧
      x.reply = reply ∧ x.LiesBehind maxSize before ∧ s.content <+: before ∧
      t.content = before ++ body.payload ∧
      ∀ p, position = some p → p = before.length := by
  obtain ⟨relay, hanswered, rfl⟩ := of_answer htaken
  have hdrops : Fault.LoseOnly (fun _ => False) s.interrupted.faults := honly.drops
  have hsame := landings_concat relay s.others.tail s.past
    ⟨.appendBlock body position maxSize, .ok reply, relay.service⟩
  cases Relay.handles_of_answer hdrops hanswered with
  | answered hanswer hdrops =>
      rw [Blob.answer_appendBlock] at hanswer
      split at hanswer
      · rename_i hok
        cases hanswer
        obtain ⟨hposition, hroom⟩ := Blob.of_checkAppend hok
        refine ⟨honly.tail hdrops, s.interrupted.service.content, _, hsame, rfl, rfl,
          ⟨rfl, rfl, fun limit hlimited => ?_⟩, honly.prefix_interrupted, rfl, hposition⟩
        change (s.interrupted.service.content ++ body.payload).length ≤ limit
        rw [List.length_append]
        exact hroom limit hlimited
      · cases hanswer

/-- What becomes of an append of the upload, sent once or more often. -/
inductive Lands {ε : Type} (maxSize next : Option Nat) (payload : Bytes) (s : SharedBlob) :
    Except ε Appended → SharedBlob → Prop
  | refused {e : ε} {t : SharedBlob} : t.Placed maxSize next → t.landings = s.landings →
    Lands maxSize next payload s (.error e) t
  | taken {x : Landing} {t : SharedBlob} :
    t.Placed maxSize (some (x.reply.offset + x.payload.length)) →
    t.landings = s.landings ++ [x] → x.payload = payload →
    Lands maxSize next payload s (.ok x.reply) t

theorem Placed.refused {next : Option Nat} (hplaced : s.Placed maxSize next) {e : ServiceError}
    (hrefused : Service.answer (.appendBlock body position maxSize) s = (.error e, t)) :
    t.Placed maxSize next ∧ t.landings = s.landings := by
  obtain ⟨honly, hsame, hmore⟩ := hplaced.only.of_refused hrefused
  obtain ⟨before, hrange, hknows⟩ := hplaced.range
  have hlanded : t.landed = s.landed := by rw [SharedBlob.landed, hsame]; rfl
  refine ⟨⟨honly, before, ⟨?_, ?_⟩, ?_⟩, hsame⟩
  · rw [hlanded]
    exact hrange.content.trans hmore
  · rw [hsame]
    exact hrange.landings
  · rw [hlanded, hsame]
    exact hknows

/-- An append that is taken goes on with the range, since it would not be taken if somebody else
had appended there. -/
theorem Placed.taken {next : Option Nat} (hplaced : s.Placed maxSize next) {reply : Appended}
    (htaken : Service.answer (.appendBlock body next maxSize) s = (.ok reply, t)) :
    ∃ x, t.Placed maxSize (some (x.reply.offset + x.payload.length)) ∧
      t.landings = s.landings ++ [x] ∧ x.payload = body.payload ∧ x.reply = reply := by
  obtain ⟨honly, held, x, hmore, hpayload, hreply, hbehind, hbefore, hcontent, hfits⟩ :=
    hplaced.only.of_taken htaken
  obtain ⟨start, hstart, hold⟩ : ∃ start, start ++ s.landed = held ∧
      ∀ front y back, s.landings = front ++ y :: back →
        y.LiesBehind maxSize (start ++ front.flatMap Landing.payload) := by
    obtain ⟨start, hrange, ⟨-, hnone⟩ | hknown⟩ := hplaced.range
    · refine ⟨held, by rw [landed, hnone]; exact List.append_nil _, fun front y back hsplit => ?_⟩
      rw [hnone] at hsplit
      exact absurd hsplit.symm (List.append_ne_nil_of_right_ne_nil _ (List.cons_ne_nil _ _))
    · exact ⟨start, (hrange.content.trans hbefore).eq_of_length (hfits _ hknown), hrange.landings⟩
  have hlanded : t.landed = s.landed ++ x.payload := by
    rw [landed, hmore, List.flatMap_append, List.flatMap_singleton]
    rfl
  refine ⟨x, ⟨honly, start, ⟨?_, fun front y back hsplit => ?_⟩, .inr ?_⟩, hmore, hpayload, hreply⟩
  · rw [hlanded, ← List.append_assoc, hstart, hcontent]
    exact hpayload ▸ List.prefix_rfl
  · rw [hmore] at hsplit
    rcases List.eq_nil_or_concat back with rfl | ⟨rest, z, rfl⟩
    · obtain ⟨rfl, hsame⟩ := List.append_inj' hsplit rfl
      cases hsame
      rw [show start ++ s.landings.flatMap Landing.payload = held from hstart]
      exact hbehind
    · rw [List.concat_eq_append, ← List.cons_append, ← List.append_assoc] at hsplit
      exact hold front y rest (List.append_inj' hsplit rfl).1
  · rw [hlanded, ← List.append_assoc, List.length_append, hstart, hbehind.offset]

/-- Sent again and again, an append is carried out at most once. -/
theorem Placed.deliver {next : Option Nat} (hplaced : s.Placed maxSize next) (body : Body)
    (offset retries sent : Nat) :
    Lands maxSize next body.payload s
      (deliver offset (.appendBlock body next maxSize) retries sent s).1
      (deliver offset (.appendBlock body next maxSize) retries sent s).2 := by
  fun_induction BlobUpload.deliver offset (.appendBlock body next maxSize) retries sent s with
  | case1 retries sent s reply t hanswered =>
      obtain ⟨x, hplaced', hmore, hpayload, rfl⟩ := hplaced.taken hanswered
      exact .taken hplaced' hmore hpayload
  | case2 retries sent s message t hanswered =>
      obtain ⟨hplaced', hsame⟩ := hplaced.refused hanswered
      exact .refused hplaced' hsame
  | case3 sent s cause t _ hanswered =>
      obtain ⟨hplaced', hsame⟩ := hplaced.refused hanswered
      exact .refused hplaced' hsame
  | case4 sent s cause t _ hanswered retries ih =>
      obtain ⟨hplaced', hsame⟩ := hplaced.refused hanswered
      generalize BlobUpload.deliver offset (.appendBlock body next maxSize) retries (sent + 1) t =
        out at ih
      obtain ⟨answer, after⟩ := out
      cases ih hplaced' with
      | refused hplaced'' hsame' => exact .refused hplaced'' (hsame'.trans hsame)
      | taken hplaced'' hmore hpayload => exact .taken hplaced'' (hsame ▸ hmore) hpayload

end SharedBlob

/-! ## A session on a shared blob -/

namespace Session

variable {s : Session SharedBlob} {e : Envelope} {maxSize : Option Nat}

/-- The session appends behind what it has appended. -/
def Shares (e : Envelope) (maxSize : Option Nat) (s : Session SharedBlob) : Prop :=
  ∃ next, s.writer = .append e maxSize next ∧ s.service.Placed maxSize next

theorem Shares.checkAbort (hshares : s.Shares e maxSize) {offset : Nat}
    {answer : Except UploadError Unit} {t : Session SharedBlob}
    (hlooked : s.checkAbort offset = (answer, t)) :
    t.Shares e maxSize ∧ t.service = s.service := by
  obtain rfl := eq_of_checkAbort hlooked
  exact ⟨hshares, rfl⟩

/-- A chunk lands behind those before it, or not at all. -/
theorem Shares.send (hshares : s.Shares e maxSize) (c : Chunk) :
    (s.send c).2.Shares e maxSize ∧
    ((∃ failure, (s.send c).1 = .error failure ∧
        (s.send c).2.service.landings = s.service.landings) ∨
      ∃ x, (s.send c).1 = .ok x.token ∧ x.payload = c.payload ∧
        (s.send c).2.service.landings = s.service.landings ++ [x]) := by
  obtain ⟨next, hwriter, hplaced⟩ := hshares
  have hlands := hplaced.deliver (e.body c.payload) c.offset s.settings.maxRetries 0
  obtain ⟨settings, service, w, watch, reports, abort, total, completed⟩ := s
  obtain rfl : w = .append e maxSize next := hwriter
  simp only at hlands
  generalize hdelivered : BlobUpload.deliver c.offset
    (.appendBlock (e.body c.payload) next maxSize) settings.maxRetries 0 service = out at hlands
  obtain ⟨answer, after⟩ := out
  cases hlands with
  | refused hplaced' hsame =>
      rw [send_of_failed rfl hdelivered]
      exact ⟨⟨next, rfl, hplaced'⟩, .inl ⟨_, rfl, hsame⟩⟩
  | @taken x _ hplaced' hmore hpayload =>
      rw [send_of_delivered (c := c)
        (s := ⟨settings, service, .append e maxSize next, watch, reports, abort, total, completed⟩)
        rfl hdelivered]
      have hlength : x.payload.length = c.length := congrArg List.length hpayload
      rw [hlength] at hplaced'
      have htoken : Token.append (x.reply.offset + c.length) = x.token := by
        rw [Landing.token, hlength]
      exact ⟨⟨_, writer_advance _ _, by rw [service_advance]; exact hplaced'⟩,
        .inr ⟨x, congrArg Except.ok htoken, hpayload, by rw [service_advance]; exact hmore⟩⟩

theorem Shares.next_of_error (hshares : s.Shares e maxSize) {c : Chunk} {failure : UploadError}
    {s₁ t : Session SharedBlob} (hclear : s.checkAbort c.offset = (.ok (), s₁))
    (hfailed : s₁.send c = (.error failure, t)) :
    t.Shares e maxSize ∧ t.service.landings = s.service.landings := by
  obtain ⟨hshares', hsame⟩ := hshares.checkAbort hclear
  rw [← hsame]
  obtain ⟨hshares'', ⟨-, -, hsame'⟩ | ⟨x, hsent, -⟩⟩ := hshares'.send c
  · rw [hfailed] at hshares'' hsame'
    exact ⟨hshares'', hsame'⟩
  · rw [hfailed] at hsent
    cases hsent

theorem Shares.next_of_ok (hshares : s.Shares e maxSize) {c : Chunk} {token : Token}
    {s₁ t : Session SharedBlob} (hclear : s.checkAbort c.offset = (.ok (), s₁))
    (hsent : s₁.send c = (.ok token, t)) :
    t.Shares e maxSize ∧ ∃ x, token = x.token ∧ x.payload = c.payload ∧
      t.service.landings = s.service.landings ++ [x] := by
  obtain ⟨hshares', hsame⟩ := hshares.checkAbort hclear
  rw [← hsame]
  obtain ⟨hshares'', ⟨failure, hfailed, -⟩ | ⟨x, hdone, hpayload, hmore⟩⟩ := hshares'.send c
  · rw [hsent] at hfailed
    cases hfailed
  · rw [hsent] at hshares'' hdone hmore
    exact ⟨hshares'', x, Except.ok.inj hdone, hpayload, hmore⟩

/-- The chunks that land are the first of those that are sent, and all of them if the sending ends
well. -/
theorem Shares.sendEach (hshares : s.Shares e maxSize)
    (answers : List (Except UploadError Chunk)) :
    (BlobUpload.sendEach answers s).2.Shares e maxSize ∧
    ∃ xs, (BlobUpload.sendEach answers s).2.service.landings = s.service.landings ++ xs ∧
      xs.map Landing.payload <+: (Chunk.ofAnswers answers).map Chunk.payload ∧
      ∀ tokens, (BlobUpload.sendEach answers s).1 = .ok tokens →
        tokens = xs.map Landing.token ∧
        ∃ cs : List Chunk, answers = cs.map .ok ∧
          xs.map Landing.payload = cs.map Chunk.payload := by
  fun_induction BlobUpload.sendEach answers s with
  | case1 s =>
      refine ⟨hshares, [], (List.append_nil _).symm, List.prefix_rfl, fun tokens hdone => ?_⟩
      cases hdone
      exact ⟨rfl, [], rfl, rfl⟩
  | case2 failure answers s =>
      exact ⟨hshares, [], (List.append_nil _).symm, List.nil_prefix,
        fun _ hdone => by cases hdone⟩
  | case3 c answers s failure s₁ hrefused =>
      obtain ⟨hshares', hsame⟩ := hshares.checkAbort hrefused
      exact ⟨hshares', [], by rw [hsame, List.append_nil], List.nil_prefix,
        fun _ hdone => by cases hdone⟩
  | case4 c answers s s₁ hclear failure s₂ hfailed =>
      obtain ⟨hshares', hsame⟩ := hshares.next_of_error hclear hfailed
      exact ⟨hshares', [], by rw [hsame, List.append_nil], List.nil_prefix,
        fun _ hdone => by cases hdone⟩
  | case5 c answers s s₁ hclear token s₂ hsent tokens s₃ hrest ih =>
      obtain ⟨hshares', x, rfl, hpayload, hmore⟩ := hshares.next_of_ok hclear hsent
      obtain ⟨hshares'', xs, hmore', hfront, hall⟩ := ih hshares'
      rw [hrest] at hshares'' hmore' hall
      refine ⟨hshares'', x :: xs, by rw [hmore', hmore, List.append_assoc]; rfl,
        List.cons_prefix_cons.2 ⟨hpayload, hfront⟩, fun tokens' hsame => ?_⟩
      cases hsame
      obtain ⟨rfl, cs, rfl, hpayloads⟩ := hall tokens rfl
      exact ⟨rfl, c :: cs, rfl, by rw [List.map_cons, hpayload, hpayloads]; rfl⟩
  | case6 c answers s s₁ hclear token s₂ hsent failure s₃ hrest ih =>
      obtain ⟨hshares', x, -, hpayload, hmore⟩ := hshares.next_of_ok hclear hsent
      obtain ⟨hshares'', xs, hmore', hfront, -⟩ := ih hshares'
      rw [hrest] at hshares'' hmore'
      exact ⟨hshares'', x :: xs, by rw [hmore', hmore, List.append_assoc]; rfl,
        List.cons_prefix_cons.2 ⟨hpayload, hfront⟩, fun _ hdone => by cases hdone⟩

end Session

end BlobUpload
