import BlobUpload.Proofs.Session.SendEquations
import BlobUpload.Service.Blob

/-! # Staging blocks and committing them

A blob that admits the lease takes every block. What was staged under an id is found again by the
commit, whatever was staged under other ids, before or after. -/

namespace BlobUpload

/-! ## Block ids -/

theorem Bytes.ofAscii_injective {cs ds : List Char} (hc : ∀ c ∈ cs, c.isDigit = true)
    (hd : ∀ d ∈ ds, d.isDigit = true) (h : Bytes.ofAscii cs = Bytes.ofAscii ds) : cs = ds := by
  induction cs generalizing ds with
  | nil => exact (List.map_eq_nil_iff.1 h.symm).symm
  | cons c cs ih =>
      cases ds with
      | nil => cases h
      | cons d ds =>
          obtain ⟨hhead, htail⟩ := List.cons.inj h
          have hsmall : ∀ e : Char, e.isDigit = true → e.toNat < 256 := by
            intro e he
            simp only [Char.isDigit, Bool.and_eq_true, decide_eq_true_eq] at he
            exact Nat.lt_of_le_of_lt he.2 (by decide)
          have hsame : c.toNat = d.toNat := by
            have hbytes := congrArg UInt8.toNat hhead
            change c.toNat % 256 = d.toNat % 256 at hbytes
            rwa [Nat.mod_eq_of_lt (hsmall c (hc c List.mem_cons_self)),
              Nat.mod_eq_of_lt (hsmall d (hd d List.mem_cons_self))] at hbytes
          rw [Char.toNat_inj.1 hsame, ih (fun x hx => hc x (List.mem_cons_of_mem _ hx))
            (fun x hx => hd x (List.mem_cons_of_mem _ hx)) htail]

theorem isDigit_padded (width n : Nat) : ∀ c ∈ Numeral.padded 10 width n, c.isDigit = true := by
  intro c hc
  rw [Numeral.padded, List.leftpad, List.mem_append] at hc
  rcases hc with hfill | hdigit
  · rw [List.eq_of_mem_replicate hfill]
    decide
  · exact Nat.isDigit_of_mem_toDigits (by decide) (by decide) hdigit

/-- Blocks at different offsets have different ids. -/
theorem blockId_injective {m n : Nat} (h : blockId m = blockId n) : m = n := by
  have hencoded := congrArg Base64.decode (String.ofList_injective h)
  rw [Base64.decode_encode, Base64.decode_encode, Option.some.injEq] at hencoded
  have hdigits := Bytes.ofAscii_injective (isDigit_padded _ _) (isDigit_padded _ _) hencoded
  rw [← Numeral.ofDigitChars_padded blockIdDigits m, hdigits, Numeral.ofDigitChars_padded]

/-- The id and the payload under which a chunk is staged. -/
def Chunk.block (c : Chunk) : String × Bytes := (blockId c.offset, c.payload)

/-- What a chunk writes, and where. -/
def Chunk.patch (c : Chunk) : Nat × Bytes := (c.offset, c.payload)

namespace Blob

/-! ## Staging -/

/-- Requests that claim `lease` meet the lease of the blob, if it has one. -/
def Admits (b : Blob) (lease : Option String) : Prop := b.lease = none ∨ b.lease = lease

theorem checkLease_of_admits {b : Blob} {lease : Option String} (h : b.Admits lease) :
    b.checkLease lease = .ok () := by
  rw [checkLease]
  rcases h with hnone | hsame
  · simp [hnone]
  · simp [hsame]

/-- A payload is sent with its own digest or with none. -/
theorem check_body {b : Blob} {e : Envelope} (h : b.Admits e.lease) (payload : Bytes) :
    b.check (e.body payload) = .ok () := by
  rw [check, show (e.body payload).lease = e.lease from rfl, checkLease_of_admits h]
  cases hvalid : e.validateContent <;> simp [Envelope.body, hvalid, bind, Except.bind]

/-- The blob after a request has staged one more block. -/
def stage (b : Blob) (block : String × Bytes) : Blob :=
  { b with
    staged := block :: b.staged
    stagedOrder := b.stagedOrder ++ [block.1]
    calls := b.calls.count .putBlock }

def stageAll (b : Blob) (blocks : List (String × Bytes)) : Blob := blocks.foldl stage b

theorem answer_putBlock_of_check {b : Blob} {body : Body} (h : b.check body = .ok ())
    (id : String) :
    Service.answer (.putBlock id body) b = (.ok (), b.stage (id, body.payload)) := by
  have hcheck : ({ b with calls := b.calls.count .putBlock } : Blob).check body = .ok () := h
  simp only [Service.answer, answer, perform, Request.method, hcheck, bind, Except.bind, pure,
    Except.pure]
  rfl

theorem answer_putBlock {b : Blob} {e : Envelope} (h : b.Admits e.lease) (id : String)
    (payload : Bytes) :
    Service.answer (.putBlock id (e.body payload)) b = (.ok (), b.stage (id, payload)) :=
  answer_putBlock_of_check (check_body h payload) id

theorem staged_stageAll (b : Blob) (blocks : List (String × Bytes)) :
    (b.stageAll blocks).staged = blocks.reverse ++ b.staged := by
  induction blocks generalizing b with
  | nil => rfl
  | cons block blocks ih =>
      rw [stageAll, List.foldl_cons, ← stageAll, ih, List.reverse_cons, List.append_assoc]
      rfl

theorem stageAll_concat (b : Blob) (blocks : List (String × Bytes)) (block : String × Bytes) :
    b.stageAll (blocks ++ [block]) = (b.stageAll blocks).stage block := by
  rw [stageAll, List.foldl_append]
  rfl

/-- Staging changes neither the content nor what was committed, and the lease stays. -/
theorem stageAll_frame (b : Blob) (blocks : List (String × Bytes)) :
    (b.stageAll blocks).content = b.content ∧ (b.stageAll blocks).committed = b.committed ∧
      (b.stageAll blocks).revision = b.revision ∧ (b.stageAll blocks).lease = b.lease := by
  induction blocks generalizing b with
  | nil => exact ⟨rfl, rfl, rfl, rfl⟩
  | cons block blocks ih => exact ih (b.stage block)

theorem admits_stageAll {b : Blob} {lease : Option String} (h : b.Admits lease)
    (blocks : List (String × Bytes)) : (b.stageAll blocks).Admits lease := by
  rw [Admits, (b.stageAll_frame blocks).2.2.2]
  exact h

/-! ## Committing -/

theorem lookup_append_of_mem {blocks staged : List (String × Bytes)} {id : String}
    {payload : Bytes} (hmem : (id, payload) ∈ blocks)
    (hunique : ∀ block ∈ blocks, block.1 = id → block.2 = payload) :
    (blocks ++ staged).lookup id = some payload := by
  induction blocks with
  | nil => cases hmem
  | cons block blocks ih =>
      obtain ⟨id', payload'⟩ := block
      rw [List.cons_append, List.lookup_cons]
      by_cases hsame : id = id'
      · have := hunique (id', payload') List.mem_cons_self hsame.symm
        simp_all
      · rw [show (id == id') = false from beq_false_of_ne hsame]
        refine ih ?_ fun block hblock => hunique block (List.mem_cons_of_mem _ hblock)
        rcases List.mem_cons.1 hmem with hhead | htail
        · exact absurd (congrArg Prod.fst hhead) hsame
        · exact htail

/-- A block that was staged is found, if all that was staged under its id was the same. -/
theorem stagedBlock?_stageAll (b : Blob) {blocks : List (String × Bytes)} {id : String}
    {payload : Bytes} (hmem : (id, payload) ∈ blocks)
    (hunique : ∀ block ∈ blocks, block.1 = id → block.2 = payload) :
    (b.stageAll blocks).stagedBlock? id = some payload := by
  rw [stagedBlock?, staged_stageAll]
  apply lookup_append_of_mem (List.mem_reverse.2 hmem)
  intro block hblock
  exact hunique block (List.mem_reverse.1 hblock)

theorem assemble_of_staged {b : Blob} {blocks : List (String × Bytes)}
    (hstaged : ∀ block ∈ blocks, b.stagedBlock? block.1 = some block.2) :
    b.assemble (blocks.map Prod.fst) = .ok (blocks.flatMap Prod.snd) := by
  induction blocks with
  | nil => rfl
  | cons block blocks ih =>
      rw [List.map_cons, assemble, hstaged block List.mem_cons_self,
        ih fun block hblock => hstaged block (List.mem_cons_of_mem _ hblock)]
      rfl

/-- A list of blocks is only committed by requests that meet the lease. -/
theorem admits_of_answer_putBlockList {b b' : Blob} {ids : List String} {lease : Option String}
    {etag : String} (h : Service.answer (.putBlockList ids lease) b = (.ok etag, b')) :
    b.Admits lease := by
  change b.answer (.putBlockList ids lease) = _ at h
  rw [answer, perform] at h
  by_cases hclaimed : b.Admits lease
  · exact hclaimed
  · have hrefused : ({ b with calls := b.calls.count (Request.putBlockList ids lease).method } :
        Blob).checkLease lease = .error .lease := by
      rw [Admits, not_or] at hclaimed
      rw [checkLease, if_pos]
      simp [Option.isSome_iff_ne_none, hclaimed.1, Ne.symm hclaimed.2]
    rw [hrefused] at h
    cases h

/-- The blob after a request has made `content` of the blocks with these ids. -/
def publish (content : Bytes) (ids : List String) (b : Blob) : Blob :=
  { b.replace content with
    committed := ids
    staged := []
    calls := b.calls.count .putBlockList }

theorem answer_putBlockList {b : Blob} {lease : Option String} (h : b.Admits lease)
    {blocks : List (String × Bytes)}
    (hstaged : ∀ block ∈ blocks, b.stagedBlock? block.1 = some block.2) :
    Service.answer (.putBlockList (blocks.map Prod.fst) lease) b =
      (.ok (etagOf (b.revision + 1)),
        b.publish (blocks.flatMap Prod.snd) (blocks.map Prod.fst)) := by
  have hcheck : ({ b with calls := b.calls.count .putBlockList } : Blob).checkLease lease =
      .ok () := checkLease_of_admits h
  have hfound : ({ b with calls := b.calls.count .putBlockList } : Blob).assemble
      (blocks.map Prod.fst) = .ok (blocks.flatMap Prod.snd) := assemble_of_staged hstaged
  simp only [Service.answer, answer, perform, Request.method, hcheck, hfound, bind, Except.bind,
    pure, Except.pure]
  rfl

/-- The blob after a request has written it as a whole. -/
def put (payload : Bytes) (b : Blob) : Blob :=
  { b.replace payload with
    committed := []
    staged := []
    calls := b.calls.count .putBlob }

theorem answer_putBlob {b : Blob} {e : Envelope} (h : b.Admits e.lease) (payload : Bytes) :
    Service.answer (.putBlob (e.body payload)) b =
      (.ok (etagOf (b.revision + 1)), b.put payload) := by
  have hcheck : ({ b with calls := b.calls.count .putBlob } : Blob).check (e.body payload) =
      .ok () := check_body h payload
  simp only [Service.answer, answer, perform, Request.method, hcheck, bind, Except.bind, pure,
    Except.pure]
  rfl

end Blob

/-! ## Chunks of a block blob -/

theorem Chunk.Consecutive.le_of_mem {offset : Nat} {cs : List Chunk}
    (h : Consecutive offset cs) : ∀ c ∈ cs, offset ≤ c.offset := by
  induction cs generalizing offset with
  | nil => simp
  | cons c cs ih =>
      obtain ⟨hstart, -, hrest⟩ := h
      intro d hd
      rcases List.mem_cons.1 hd with rfl | hd
      · exact Nat.le_of_eq hstart.symm
      · exact Nat.le_trans (hstart ▸ Nat.le_add_right _ _) (ih hrest d hd)

/-- Each chunk begins behind the one before it. -/
theorem Chunk.Consecutive.sorted {offset : Nat} {cs : List Chunk} (h : Consecutive offset cs) :
    cs.Pairwise (·.offset < ·.offset) := by
  induction cs generalizing offset with
  | nil => exact List.Pairwise.nil
  | cons c cs ih =>
      obtain ⟨-, hne, hrest⟩ := h
      exact List.pairwise_cons.2 ⟨fun d hd => Nat.lt_of_lt_of_le
        (Nat.lt_add_of_pos_right (List.length_pos_iff.2 hne)) (hrest.le_of_mem d hd), ih hrest⟩

/-- Consecutive chunks are told apart by their offsets. -/
theorem Chunk.Consecutive.eq_of_offset_eq {offset : Nat} {cs : List Chunk}
    (h : Consecutive offset cs) :
    ∀ c ∈ cs, ∀ d ∈ cs, c.offset = d.offset → c = d := by
  induction cs generalizing offset with
  | nil => simp
  | cons b cs ih =>
      obtain ⟨-, hne, hrest⟩ := h
      have hpast : ∀ d ∈ cs, b.offset < d.offset := fun d hd =>
        Nat.lt_of_lt_of_le (Nat.lt_add_of_pos_right (List.length_pos_iff.2 hne))
          (hrest.le_of_mem d hd)
      intro c hc d hd hsame
      rcases List.mem_cons.1 hc with hc | hc <;> rcases List.mem_cons.1 hd with hd | hd
      · rw [hc, hd]
      · exact absurd (hc ▸ hsame) (Nat.ne_of_lt (hpast d hd))
      · exact absurd (hd ▸ hsame.symm) (Nat.ne_of_lt (hpast c hc))
      · exact ih hrest c hc d hd hsame

/-- Consecutive chunks hold something, unless there are none. -/
theorem Chunk.Consecutive.flatMap_payload_eq_nil_iff {offset : Nat} {cs : List Chunk}
    (h : Consecutive offset cs) : cs.flatMap Chunk.payload = [] ↔ cs = [] := by
  cases cs with
  | nil => simp
  | cons c cs => simp [h.2.1]

/-- Once chunks that are told apart by their offsets and nothing else are staged, each of them is
found under its id. -/
theorem Blob.stagedBlock?_of_apart (b : Blob) {cs : List Chunk}
    (hapart : ∀ c ∈ cs, ∀ d ∈ cs, c.offset = d.offset → c = d) {blocks : List (String × Bytes)}
    (honly : ∀ block ∈ blocks, block ∈ cs.map Chunk.block) (hall : ∀ c ∈ cs, c.block ∈ blocks) :
    ∀ block ∈ cs.map Chunk.block,
      (b.stageAll blocks).stagedBlock? block.1 = some block.2 := by
  intro block hblock
  obtain ⟨c, hc, rfl⟩ := List.mem_map.1 hblock
  refine b.stagedBlock?_stageAll (hall c hc) ?_
  intro other hother hsame
  obtain ⟨d, hd, rfl⟩ := List.mem_map.1 (honly other hother)
  rw [hapart d hd c hc (blockId_injective hsame)]

theorem Blob.stagedBlock?_of_consecutive (b : Blob) {offset : Nat} {cs : List Chunk}
    (h : Chunk.Consecutive offset cs) {blocks : List (String × Bytes)}
    (honly : ∀ block ∈ blocks, block ∈ cs.map Chunk.block) (hall : ∀ c ∈ cs, c.block ∈ blocks) :
    ∀ block ∈ cs.map Chunk.block,
      (b.stageAll blocks).stagedBlock? block.1 = some block.2 :=
  b.stagedBlock?_of_apart h.eq_of_offset_eq honly hall

theorem Session.send_block {s : Session Blob} {e : Envelope} (hwriter : s.writer = .block e)
    (hadmits : s.service.Admits e.lease) (c : Chunk) :
    s.send c = (.ok (.block (blockId c.offset)),
      { s with service := s.service.stage c.block }.advance c.length) := by
  obtain ⟨settings, service, w, watch, reports, abort, total, completed⟩ := s
  cases hwriter
  exact Session.send_of_answered rfl (Blob.answer_putBlock hadmits (blockId c.offset) c.payload)

/-- Chunks sent to a block blob are all staged. -/
theorem sendEach_block {s : Session Blob} {e : Envelope} (hwriter : s.writer = .block e)
    (hadmits : s.service.Admits e.lease) (hcalm : s.Undisturbed) (cs : List Chunk) :
    ∃ t, sendEach (cs.map .ok) s = (.ok (cs.map fun c => .block (blockId c.offset)), t) ∧
      t.service = s.service.stageAll (cs.map Chunk.block) ∧ t.writer = s.writer ∧
      t.settings = s.settings ∧ t.Undisturbed ∧
      t.completed = s.completed + (cs.flatMap Chunk.payload).length := by
  induction cs generalizing s with
  | nil => exact ⟨s, rfl, rfl, rfl, rfl, hcalm, rfl⟩
  | cons c cs ih =>
      have hcalm' : ({ s with service := s.service.stage c.block } : Session Blob).Undisturbed :=
        ⟨hcalm.abort, hcalm.watch⟩
      obtain ⟨reports, abort, heq⟩ :=
        Session.advance_eq c.length { s with service := s.service.stage c.block }
      obtain ⟨t, hrun, hservice, hwriter', hsettings, hcalm'', hcompleted⟩ :=
        ih (s := { s with service := s.service.stage c.block }.advance c.length)
          (by rw [heq]; exact hwriter) (by rw [heq]; exact hadmits) (hcalm'.advance _)
      rw [heq] at hservice hwriter' hsettings hcompleted
      refine ⟨t, ?_, hservice, hwriter', hsettings, hcalm'', ?_⟩
      · rw [List.map_cons, sendEach, Session.checkAbort_of_undisturbed hcalm]
        simp only [Session.send_block hwriter hadmits, hrun, List.map_cons]
      · rw [hcompleted, List.flatMap_cons, List.length_append]
        exact Nat.add_assoc ..

/-- Chunks that are sent to a block blob without a failure are all staged, even if somebody could
have aborted. -/
theorem sendEach_block_of_ok {e : Envelope} {answers : List (Except UploadError Chunk)}
    {s t : Session Blob} {tokens : List Token} (hwriter : s.writer = .block e)
    (hadmits : s.service.Admits e.lease) (hsent : sendEach answers s = (.ok tokens, t)) :
    ∃ cs : List Chunk, answers = cs.map .ok ∧
      tokens = cs.map (fun c => .block (blockId c.offset)) ∧
      t.service = s.service.stageAll (cs.map Chunk.block) ∧ t.writer = .block e := by
  fun_induction sendEach answers s generalizing tokens t with
  | case1 s =>
      cases hsent
      exact ⟨[], rfl, rfl, rfl, hwriter⟩
  | case2 => cases hsent
  | case3 => cases hsent
  | case4 => cases hsent
  | case5 c answers s s₁ hclear token s₂ hwritten tokens' s₃ hrest ih =>
      cases hsent
      obtain rfl := Session.eq_of_checkAbort hclear
      obtain ⟨reports, abort, hmoved⟩ := Session.advance_eq c.length
        { { s with abort := s.abort.look.2 } with service := s.service.stage c.block }
      rw [Session.send_block (s := { s with abort := s.abort.look.2 }) hwriter hadmits, hmoved]
        at hwritten
      cases hwritten
      obtain ⟨cs, rfl, rfl, hservice, hwriter'⟩ := ih hwriter hadmits hrest
      exact ⟨c :: cs, rfl, rfl, hservice, hwriter'⟩
  | case6 => cases hsent

theorem filterMap_blockId (cs : List Chunk) :
    (cs.map fun c => Token.block (blockId c.offset)).filterMap Token.blockId? =
      (cs.map Chunk.block).map Prod.fst := by
  induction cs with
  | nil => rfl
  | cons c cs ih => exact congrArg (blockId c.offset :: ·) ih

/-- Committing the tokens of staged chunks publishes what the chunks hold. -/
theorem Session.commit_block {s : Session Blob} {e : Envelope} (hwriter : s.writer = .block e)
    (hadmits : s.service.Admits s.settings.leaseId) {cs : List Chunk} (hne : cs ≠ [])
    (hstaged : ∀ block ∈ cs.map Chunk.block, s.service.stagedBlock? block.1 = some block.2) :
    s.commit (cs.map fun c => .block (blockId c.offset)) =
      (.ok (some (etagOf (s.service.revision + 1))),
        { s with
          service := s.service.publish (cs.flatMap Chunk.payload)
            (cs.map fun c => blockId c.offset) }) := by
  have hput := Blob.answer_putBlockList hadmits hstaged
  rw [Session.commit, if_neg (by simp [hwriter, hne, Writer.blobType]), filterMap_blockId, hput]
  simp only [List.map_map, List.flatMap_map]
  rfl

end BlobUpload
