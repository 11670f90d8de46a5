import BlobUpload.Proofs.Service.StagedBlocks
import BlobUpload.Proofs.Upload.Workers

/-! # Block ids tell chunks apart

An id is a text of Base64 from which the offset can be read again, and no other offset has the same
one. So an upload that sends a block again uses the id that the block had before, and two of its
chunks never get in each other's way, whoever sends them. Main statement: `blockId_identifies`. -/

namespace BlobUpload

/-! ## Texts of Base64 -/

namespace Base64

theorem digit_mem_alphabet {n : Nat} (h : n < 64) : digit n ∈ alphabet := by
  have hall : ∀ m ∈ List.range 64, digit m ∈ alphabet := by decide +kernel
  exact hall n (List.mem_range.2 h)

/-- Number of `=` behind the digits for so many bytes. -/
def padding (length : Nat) : Nat := (3 - length % 3) % 3

/-- A text of Base64 consists of whole groups of four characters, and these are digits up to the
padding of the last group. -/
theorem encode_eq (data : Bytes) :
    ∃ digits, encode data = digits ++ List.replicate (padding data.length) '=' ∧
      (∀ c ∈ digits, c ∈ alphabet) ∧ (encode data).length = 4 * ((data.length + 2) / 3) := by
  fun_induction encode data with
  | case1 => exact ⟨[], rfl, by simp, rfl⟩
  | case2 a n =>
      have := a.toNat_lt
      have hfirst : n / 64 < 64 := by omega
      have hsecond : n % 64 < 64 := by omega
      refine ⟨[digit (n / 64), digit (n % 64)], rfl, ?_, by simp⟩
      simp [digit_mem_alphabet hfirst, digit_mem_alphabet hsecond]
  | case3 a b n =>
      have := a.toNat_lt
      have := b.toNat_lt
      have hfirst : n / 4096 < 64 := by omega
      have hsecond : n / 64 % 64 < 64 := by omega
      have hthird : n % 64 < 64 := by omega
      refine ⟨[digit (n / 4096), digit (n / 64 % 64), digit (n % 64)], rfl, ?_, by simp⟩
      simp [digit_mem_alphabet hfirst, digit_mem_alphabet hsecond, digit_mem_alphabet hthird]
  | case4 a b c rest n ih =>
      have := a.toNat_lt
      have := b.toNat_lt
      have := c.toNat_lt
      have hfirst : n / 262144 < 64 := by omega
      have hsecond : n / 4096 % 64 < 64 := by omega
      have hthird : n / 64 % 64 < 64 := by omega
      have hfourth : n % 64 < 64 := by omega
      obtain ⟨digits, hrest_eq, halphabetic, hlength⟩ := ih
      have hsame : padding (a :: b :: c :: rest).length = padding rest.length := by
        simp only [padding, List.length_cons]
        omega
      refine ⟨digit (n / 262144) :: digit (n / 4096 % 64) :: digit (n / 64 % 64) ::
        digit (n % 64) :: digits, ?_, ?_, ?_⟩
      · rw [hsame, hrest_eq]
        rfl
      · simp [digit_mem_alphabet hfirst, digit_mem_alphabet hsecond, digit_mem_alphabet hthird,
          digit_mem_alphabet hfourth]
        exact halphabetic
      · simp only [List.length_cons, hlength]
        omega

end Base64

/-! ## Ids -/

/-- An offset of 64 bits has no more digits than there is room for. -/
theorem length_padded_of_lt {n : Nat} (h : n < UInt64.size) :
    (Numeral.padded 10 blockIdDigits n).length = blockIdDigits := by
  have hdigits : (Nat.toDigits 10 n).length ≤ blockIdDigits :=
    (Nat.length_toDigits_le_iff (by decide) (by decide)).2 (Nat.lt_trans h (by decide))
  rw [Numeral.length_padded, Nat.max_eq_left hdigits]

/-- A text that is the id of the block at an offset: of fixed length, in the alphabet of Base64, and
to be decoded to the digits of the offset. -/
structure Identifies (id : String) (offset : Nat) : Prop where
  length : id.length = 44
  alphabetic : ∃ front, id.toList = front ++ ['='] ∧ ∀ c ∈ front, c ∈ Base64.alphabet
  decoded : ∃ digits : List Char, Base64.decode id.toList = some (Bytes.ofAscii digits) ∧
    digits.length = 32 ∧ (∀ d ∈ digits, d.isDigit = true) ∧ Nat.ofDigitChars 10 digits 0 = offset

theorem identifies_blockId {offset : Nat} (h : offset < UInt64.size) :
    Identifies (blockId offset) offset := by
  have hwidth := length_padded_of_lt h
  have hbytes : (Bytes.ofAscii (Numeral.padded 10 blockIdDigits offset)).length =
      blockIdDigits := by
    rw [Bytes.ofAscii, List.length_map, hwidth]
  have htext : (blockId offset).toList =
      Base64.encode (Bytes.ofAscii (Numeral.padded 10 blockIdDigits offset)) := by
    rw [blockId, String.toList_ofList]
  obtain ⟨front, hshape, halphabetic, hlength⟩ :=
    Base64.encode_eq (Bytes.ofAscii (Numeral.padded 10 blockIdDigits offset))
  rw [hbytes, ← htext] at hshape hlength
  refine ⟨?_, ⟨front, hshape, halphabetic⟩, Numeral.padded 10 blockIdDigits offset, ?_, hwidth,
    isDigit_padded _ _, Numeral.ofDigitChars_padded _ _⟩
  · rw [← String.length_toList, hlength]
    rfl
  · rw [htext, Base64.decode_encode]

/-! ## What is sent for chunks -/

variable {σ : Type} [Service σ]

/-- Chunk by chunk, nothing is sent but the blocks of these chunks. -/
theorem sendEach_requests {e : Envelope} (answers : List (Except UploadError Chunk))
    {s : Session σ} (hwriter : s.writer = .block e) :
    ∃ rs, (sendEach answers s).2.service = Service.after s.service rs ∧
      ∀ r ∈ rs, ∃ c, .ok c ∈ answers ∧ r = (Writer.block e).request c := by
  induction answers generalizing s with
  | nil => exact ⟨[], rfl, nofun⟩
  | cons answer answers ih =>
      cases answer with
      | error failure => exact ⟨[], rfl, nofun⟩
      | ok c =>
          rcases hlooked : s.checkAbort c.offset with ⟨failure | _, s₁⟩
          · obtain rfl := Session.eq_of_checkAbort hlooked
            rw [sendEach, hlooked]
            exact ⟨[], rfl, nofun⟩
          obtain rfl := Session.eq_of_checkAbort hlooked
          obtain ⟨n, hsent, hwriter', -⟩ :=
            Session.send_requests (s := { s with abort := s.abort.look.2 }) hwriter c
          have hrepeated : ∀ r ∈ List.replicate n ((Writer.block e).request c),
              ∃ d, .ok d ∈ (.ok c :: answers : List (Except UploadError Chunk)) ∧
                r = (Writer.block e).request d := fun r hmem =>
            ⟨c, List.mem_cons_self, List.eq_of_mem_replicate hmem⟩
          rcases hwritten : Session.send c { s with abort := s.abort.look.2 } with
            ⟨failure | token, s₂⟩
          · rw [hwritten] at hsent
            rw [sendEach_of_failed hlooked hwritten]
            exact ⟨_, hsent, hrepeated⟩
          · rw [hwritten] at hsent hwriter'
            obtain ⟨rs, hrest, hthere⟩ := ih hwriter'
            rw [sendEach_of_sent hlooked hwritten]
            refine ⟨List.replicate n ((Writer.block e).request c) ++ rs, ?_, fun r hmem => ?_⟩
            · rw [Service.after_append]
              exact hrest.trans (congrArg (Service.after · rs) hsent)
            · rcases List.mem_append.1 hmem with hfirst | hlater
              · exact hrepeated r hfirst
              · obtain ⟨d, hmem, hsame⟩ := hthere r hlater
                exact ⟨d, List.mem_cons_of_mem _ hmem, hsame⟩

/-! ## What an upload sends -/

namespace Upload

/-- The chunk is cut for a call, by a single worker or by one of several. -/
inductive Cut (source : Source) (u : Upload σ) : Call → Chunk → Prop
  | alone {c : Call} {length : Option Nat} {source' : Source} {chunk : Chunk} :
    u.settings.isParallel = false → u.measure source c = (.ok length, source') →
    .ok chunk ∈ ((u.settings.cutter length).toList source').1 → Cut source u c chunk
  | several {schedule : List Pool.Action} {length : Nat} {source' source'' : Source}
    {common : CommonSource} {p : Pool σ} {chunk : Chunk} : u.settings.isParallel = true →
    u.measure source (.seekable schedule) = (.ok (some length), source') →
    CommonSource.ofSource source' = (.ok common, source'') →
    p = Pool.ofSession (u.session (some length)) common length →
    chunk ∈ (p.history (p.actions schedule)).cuts → Cut source u (.seekable schedule) chunk

variable {u : Upload σ} {source : Source} {c : Call}

theorem Cut.of_enter {phase : Phase} {chunk : Chunk} (hcut : Cut source (u.enter phase) c chunk) :
    Cut source u c chunk := by
  cases hcut with
  | alone hsingle hmeasured hmem => exact .alone hsingle hmeasured hmem
  | several hseveral hmeasured hshared hpool hmem =>
      exact .several hseveral hmeasured hshared hpool hmem

theorem books_of_several (hkind : u.settings.blobType = .block)
    (hseveral : u.settings.isParallel = true) (common : CommonSource) (length : Nat)
    (actions : List Pool.Action) :
    Pool.Books u.settings (.block u.settings.envelope)
      (Span.cover length u.settings.chunkSize) u.service
      ((Pool.ofSession (u.session (some length)) common length).history actions)
      (actions.foldl Pool.act (Pool.ofSession (u.session (some length)) common length)) := by
  have hparallelism : 0 < (u.session (some length)).settings.parallelism := by
    rw [settings_session]
    exact Nat.zero_lt_of_lt (of_decide_eq_true hseveral)
  have hstart := Pool.books_ofSession (u.session (some length)) common length hparallelism
  rw [settings_session, writer_session, service_session, Settings.writer_of_block hkind] at hstart
  exact hstart.foldl (Writer.steady_block _) (fun _ => Pool.short_of_mem_cover) actions

/-- An offset is cut once. -/
theorem Cut.eq_of_offset_eq (hkind : u.settings.blobType = .block) {a b : Chunk}
    (ha : Cut source u c a) (hb : Cut source u c b) (hsame : a.offset = b.offset) : a = b := by
  cases ha with
  | @alone c length source' _ hsingle hmeasured hmem =>
      cases hb with
      | alone _ hmeasured' hmem' =>
          cases hmeasured.symm.trans hmeasured'
          have hconsecutive := Cutter.consecutive_toList (u.settings.cutter length) source'
          exact hconsecutive.eq_of_offset_eq a (List.mem_filterMap.2 ⟨_, hmem, rfl⟩) b
            (List.mem_filterMap.2 ⟨_, hmem', rfl⟩) hsame
      | several hseveral => cases hsingle.symm.trans hseveral
  | @several schedule length source' source'' common p _ hseveral hmeasured hshared hpool hmem =>
      cases hb with
      | alone hsingle => cases hsingle.symm.trans hseveral
      | several _ hmeasured' hshared' hpool' hmem' =>
          cases hmeasured.symm.trans hmeasured'
          cases hshared.symm.trans hshared'
          subst hpool hpool'
          have hbooks := books_of_several hkind hseveral common length
            ((Pool.ofSession (u.session (some length)) common length).actions schedule)
          obtain ⟨i, hcut⟩ := History.mem_cuts.1 hmem
          obtain ⟨j, hcut'⟩ := History.mem_cuts.1 hmem'
          exact (History.eq_of_nodup_cuts hbooks.ledger.nodup_cuts hcut hcut' hsame).2

/-- The request stages no block, or the block of a chunk that is cut for the call. -/
def Stages (source : Source) (u : Upload σ) (c : Call) (r : Request) : Prop :=
  r.method = .putBlock → ∃ chunk, Cut source u c chunk ∧
    r = .putBlock (blockId chunk.offset) (u.settings.envelope.body chunk.payload)

theorem stages_of_ne {r : Request} (h : r.method ≠ .putBlock) : Stages source u c r :=
  fun hblock => absurd hblock h

/-- What an upload commits it does not stage. -/
theorem requests_conclude (sent : Except UploadError (List Token)) (source' : Source)
    (s : Session σ) (u' : Upload σ) :
    ∃ rs, (u'.conclude sent source' s).2.2.service = Service.after s.service rs ∧
      ∀ r ∈ rs, r.method = .putBlockList := by
  cases sent with
  | error e => exact ⟨[], rfl, nofun⟩
  | ok tokens =>
      have hcommitted : ∃ rs, (s.commit tokens).2.service = Service.after s.service rs ∧
          ∀ r ∈ rs, r.method = .putBlockList := by
        rcases Session.commit_cases s.writer tokens with hnone | hlist
        · rw [hnone s rfl]
          exact ⟨[], rfl, nofun⟩
        · rw [hlist s rfl]
          exact ⟨[_], rfl, fun r hmem => List.mem_singleton.1 hmem ▸ rfl⟩
      rcases hcommitting : s.commit tokens with ⟨e | commit, t⟩
      · rw [hcommitting] at hcommitted
        rw [conclude_of_uncommitted hcommitting]
        exact hcommitted
      · rw [hcommitting] at hcommitted
        rw [conclude_of_committed hcommitting]
        exact hcommitted

theorem requests_runSequential (hkind : u.settings.blobType = .block) {length : Option Nat}
    {source' : Source} (halone : u.settings.isParallel = false)
    (hmeasured : u.measure source c = (.ok length, source')) :
    ∃ rs, (u.runSequential source' length).2.2.service = Service.after u.service rs ∧
      ∀ r ∈ rs, Stages source u c r := by
  have hwriter : ((u.enter .sequential).session (u.settings.progressTotal length)).writer =
      .block u.settings.envelope :=
    (writer_session _ _).trans (Settings.writer_of_block hkind)
  obtain ⟨rs, hsent, hblocks⟩ :=
    sendEach_requests ((u.settings.cutter length).toList source').1 hwriter
  rw [runSequential_eq]
  obtain ⟨rs', hconcluded, hlists⟩ := requests_conclude
    (sendEach ((u.settings.cutter length).toList source').1
      ((u.enter .sequential).session (u.settings.progressTotal length))).1
    _
    (sendEach ((u.settings.cutter length).toList source').1
      ((u.enter .sequential).session (u.settings.progressTotal length))).2 (u.enter .sequential)
  refine ⟨rs ++ rs', hconcluded.trans ?_, fun r hmem => ?_⟩
  · rw [hsent, service_session, ← Service.after_append]
    rfl
  · rcases List.mem_append.1 hmem with hblock | hlist
    · obtain ⟨chunk, hcut, hsame⟩ := hblocks r hblock
      exact fun _ => ⟨chunk, .alone halone hmeasured hcut, hsame⟩
    · exact stages_of_ne (by simp [hlists r hlist])

theorem requests_runParallel (hkind : u.settings.blobType = .block) {schedule : List Pool.Action}
    {length : Nat} {source' : Source} (hseveral : u.settings.isParallel = true)
    (hmeasured : u.measure source (.seekable schedule) = (.ok (some length), source')) :
    ∃ rs, (u.runParallel schedule source' length).2.2.service = Service.after u.service rs ∧
      ∀ r ∈ rs, Stages source u (.seekable schedule) r := by
  rw [runParallel]
  rcases hshared : CommonSource.ofSource source' with ⟨e | common, source''⟩
  · exact ⟨[], rfl, by simp⟩
  obtain ⟨p, hpool⟩ : ∃ p, p = Pool.ofSession (u.session (some length)) common length := ⟨_, rfl⟩
  have hbooks := books_of_several hkind hseveral common length (p.actions schedule)
  rw [← hpool, ← Pool.run_eq_foldl] at hbooks
  obtain ⟨rs, hconcluded, hlists⟩ := requests_conclude (p.run schedule).outcome
    (p.run schedule).common.source (p.run schedule).session (u.enter .parallel)
  refine ⟨(p.history (p.actions schedule)).requests (.block u.settings.envelope) ++ rs, ?_,
    fun r hmem => ?_⟩
  · rw [Service.after_append, ← hbooks.faithful.service, ← hconcluded, hpool]
    rfl
  · rcases List.mem_append.1 hmem with hblock | hlist
    · obtain ⟨chunk, hsent, rfl⟩ := List.mem_map.1 hblock
      obtain ⟨i, token?, hsent⟩ := History.mem_sends.1 hsent
      have hcut := History.mem_cuts.2 ⟨i, hbooks.ledger.sends i chunk token? hsent⟩
      exact fun _ => ⟨chunk, .several hseveral hmeasured hshared hpool hcut, rfl⟩
    · exact stages_of_ne (by simp [hlists r hlist])

theorem requests_runSinglePut (source' : Source) (n : Nat) :
    ∃ rs, (u.runSinglePut source' n).2.2.service = Service.after u.service rs ∧
      ∀ r ∈ rs, Stages source u c r := by
  obtain ⟨times, r, hput, hsent, -⟩ :=
    sendWhole_requests ((u.enter .sequential).settings.cutter (some n)) source'
      ((u.enter .sequential).session ((u.enter .sequential).settings.progressTotal (some n)))
  rw [service_session] at hsent
  refine ⟨List.replicate times r, Eq.trans ?_ hsent, fun q hmem => stages_of_ne ?_⟩
  · rw [runSinglePut]
    split
    · rename_i hrun
      rw [hrun]
      rfl
    · rename_i hrun
      rw [hrun]
      rfl
  · rw [List.eq_of_mem_replicate hmem, hput]
    exact nofun

/-- Every block that a call stages is the block of a chunk that is cut for it. -/
theorem requests_call (hkind : u.settings.blobType = .block) (source : Source) (c : Call) :
    ∃ rs, (u.call source c).2.2.service = Service.after u.service rs ∧
      ∀ r ∈ rs, Stages source u c r := by
  rcases call_cases source u c with ⟨rule, u', hrefused, hsame⟩ | ⟨ending, hsettled, hway⟩
  · rw [hrefused]
    exact ⟨[], hsame, nofun⟩
  · rw [hsettled, service_settle]
    obtain ⟨rs, hsent, hstages⟩ : ∃ rs, ending.2.2.service = Service.after u.service rs ∧
        ∀ r ∈ rs, Stages source (u.enter .splitting) c r := by
      cases hway with
      | unmeasured => exact ⟨[], rfl, nofun⟩
      | misfit => exact ⟨[], rfl, nofun⟩
      | unseekable => exact ⟨[], rfl, nofun⟩
      | whole => exact requests_runSinglePut (u := u.enter .splitting) _ _
      | chunks hmeasured halone =>
          exact requests_runSequential (u := u.enter .splitting) hkind halone hmeasured
      | workers hmeasured hseveral =>
          exact requests_runParallel (u := u.enter .splitting) hkind hseveral hmeasured
    refine ⟨rs, hsent, fun r hmem hblock => ?_⟩
    obtain ⟨chunk, hcut, hsame⟩ := hstages r hmem hblock
    exact ⟨chunk, hcut.of_enter, hsame⟩

end Upload

/-- The id of a block says at which offset it is, and no block at another offset has it. So of the
chunks that are cut for one call no two have the same id, and each that is sent, be it once more,
is sent under its own. -/
theorem blockId_identifies :
    (∀ offset : UInt64, Identifies (blockId offset.toNat) offset.toNat) ∧
    (∀ m n : UInt64, blockId m.toNat = blockId n.toNat → m = n) ∧
    ∀ {σ : Type} [Service σ] {u : Upload (Relay σ)}, u.settings.blobType = .block →
      ∀ (source : Source) (c : Upload.Call),
        (∀ a b, u.Cut source c a → u.Cut source c b → blockId a.offset = blockId b.offset →
          a = b) ∧
        ∃ sent, (u.call source c).2.2.service.exchanges = u.service.exchanges ++ sent ∧
          ∀ x ∈ sent, x.request.method = .putBlock → ∃ chunk, u.Cut source c chunk ∧
            x.request =
              .putBlock (blockId chunk.offset) (u.settings.envelope.body chunk.payload) := by
  refine ⟨fun offset => identifies_blockId offset.toNat_lt,
    fun m n hsame => UInt64.toNat_inj.1 (blockId_injective hsame), fun {σ _ u} hkind source c =>
      ⟨?_, ?_⟩⟩
  · intro a b ha hb hsame
    exact ha.eq_of_offset_eq hkind hb (blockId_injective hsame)
  · obtain ⟨rs, hservice, hstages⟩ := Upload.requests_call hkind source c
    obtain ⟨sent, hrecorded, rfl, -⟩ := Relay.exchanges_after u.service rs
    refine ⟨sent, by rw [hservice, hrecorded], fun x hmem => ?_⟩
    exact hstages x.request (List.mem_map_of_mem hmem)

/-- Three bytes are sent in two blocks, and the second block once more. -/
def stutteringUpload : Upload (Relay Blob) where
  settings := { blobType := .block, chunkSize := 2, maxRetries := 1 }
  service := { service := {}, faults := [{ offset := some 2, error := .transport "reset" }] }

theorem stutteringUpload_identifies :
    Identifies (blockId 18446744073709551615) 18446744073709551615 ∧
    (stutteringUpload.call { data := [1, 2, 3] } .stream).2.2.service.exchanges.map
      (·.request.method) = [.putBlock, .putBlock, .putBlock, .putBlockList] ∧
    ∀ x ∈ (stutteringUpload.call { data := [1, 2, 3] } .stream).2.2.service.exchanges,
      x.request.method = .putBlock → ∃ chunk,
        stutteringUpload.Cut { data := [1, 2, 3] } .stream chunk ∧
        x.request = .putBlock (blockId chunk.offset) ⟨chunk.payload, none, none⟩ := by
  obtain ⟨hidentifies, -, huploads⟩ := blockId_identifies
  obtain ⟨-, sent, hrecorded, hnamed⟩ :=
    huploads (u := stutteringUpload) rfl { data := [1, 2, 3] } .stream
  refine ⟨hidentifies 18446744073709551615, by decide +kernel, fun x hmem => ?_⟩
  rw [hrecorded] at hmem
  exact hnamed x hmem

end BlobUpload
