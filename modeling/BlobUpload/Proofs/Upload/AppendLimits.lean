import BlobUpload.Proofs.Upload.AppendFaults
import Mathlib.Data.Nat.Find
import Mathlib.Order.Bounds.Basic

/-! # Uploads to append blobs that nobody else writes

Such a blob grows by one chunk after another, up to the first one that the size limit does not
allow. The position that an append states is then always the end of the blob, so the limit is all
that an append can fail of. -/

namespace BlobUpload

namespace Blob

/-- There is room for each of the first `k` chunks behind those before it. -/
def HasRoomFor (b : Blob) (maxSize : Option Nat) (cs : List Chunk) (k : Nat) : Prop :=
  ∀ j, 1 ≤ j → j ≤ k → b.HasRoom maxSize ((cs.take j).flatMap Chunk.payload).length

variable {b : Blob} {maxSize : Option Nat} {cs : List Chunk}

open Classical in
/-- Some chunk is the last one for which there is room. -/
theorem exists_greatest_hasRoomFor (b : Blob) (maxSize : Option Nat) (cs : List Chunk) :
    ∃ k, IsGreatest {k | k ≤ cs.length ∧ b.HasRoomFor maxSize cs k} k := by
  have hnothing : b.HasRoomFor maxSize cs 0 := fun j hone hzero => by omega
  exact ⟨Nat.findGreatest (b.HasRoomFor maxSize cs) cs.length,
    ⟨Nat.findGreatest_le _, Nat.findGreatest_spec (Nat.zero_le _) hnothing⟩,
    fun k ⟨hfew, hroom⟩ => Nat.le_findGreatest hfew hroom⟩

/-- For the chunk behind the last one for which there is room the limit is too low. -/
theorem full_of_greatest {k : Nat}
    (hgreatest : IsGreatest {k | k ≤ cs.length ∧ b.HasRoomFor maxSize cs k} k)
    (hmore : k < cs.length) :
    ∃ limit, maxSize = some limit ∧
      limit < b.content.length + ((cs.take (k + 1)).flatMap Chunk.payload).length := by
  by_contra henough
  have hroom : b.HasRoomFor maxSize cs (k + 1) := fun j hone hleast limit hknown => by
    rcases Nat.lt_or_eq_of_le hleast with hless | rfl
    · exact hgreatest.1.2 j hone (Nat.le_of_lt_succ hless) limit hknown
    · exact Nat.not_lt.1 fun hfull => henough ⟨limit, hknown, hfull⟩
  exact absurd (hgreatest.2 ⟨hmore, hroom⟩) (Nat.not_succ_le_self k)

theorem hasRoom_take {k : Nat} (hroom : b.HasRoomFor maxSize cs k) (hsome : cs.take k ≠ []) :
    b.HasRoom maxSize ((cs.take k).flatMap Chunk.payload).length := by
  refine hroom k (Nat.pos_of_ne_zero fun hnone => hsome ?_) (Nat.le_refl k)
  rw [hnone, List.take_zero]

end Blob

/-- A limit is reported as such, not as a position that does not fit. -/
theorem Rejection.message_tooLarge_ne (limit expected actual : Nat) :
    (tooLarge limit).message ≠ (appendPosition expected actual).message := by
  change "MaxBlobSizeConditionNotMet: limit " ++ toString limit ≠
    "AppendPositionConditionNotMet: expected " ++ toString expected ++ ", blob is " ++
      toString actual
  intro hsame
  have hheads := congrArg (fun text : String => text.toList.head?) hsame
  simp only [String.toList_append, List.head?_append] at hheads
  cases hheads

namespace Upload

/-- The ending of an upload of whose chunks the blob takes the first `k`. -/
structure Fills (u : Upload Blob) (cs : List Chunk) (k : Nat) (ending : Ending Blob) : Prop where
  content : ending.2.2.service.content = u.service.content ++ (cs.take k).flatMap Chunk.payload
  /-- If these are all of them, the upload ends well, and has nothing to commit. -/
  whole : k = cs.length →
    ending.1 = .ok ⟨Token.appends u.service.content.length cs,
      (cs.flatMap Chunk.payload).length, cs.length, none⟩ ∧
    ending.2.2.service.calls = { u.service.calls with
      appendBlock := u.service.calls.appendBlock + cs.length }
  /-- If not, it fails because of the limit, after one more request. -/
  part : ∀ c, cs[k]? = some c →
    c.offset = ((cs.take k).flatMap Chunk.payload).length ∧
    (∃ limit, u.settings.maxSize = some limit ∧
      ending.1 = .error (.condition c.offset (Rejection.tooLarge limit).message)) ∧
    ending.2.2.service.calls = { u.service.calls with
      appendBlock := u.service.calls.appendBlock + (k + 1) }

theorem Fills.settle {u : Upload Blob} {cs : List Chunk} {k : Nat} {ending : Ending Blob}
    (h : Fills u cs k ending) : Fills u cs k (settle ending) := by
  refine ⟨?_, ?_, ?_⟩
  · simpa only [service_settle] using h.content
  · simpa only [service_settle, result_settle] using h.whole
  · simpa only [service_settle, result_settle] using h.part

/-- A phase makes no difference to what the blob takes. -/
theorem Fills.of_enter {u : Upload Blob} {cs : List Chunk} {k : Nat} {ending : Ending Blob}
    {phase : Phase} (h : Fills (u.enter phase) cs k ending) : Fills u cs k ending :=
  ⟨h.content, h.whole, h.part⟩

section

variable {u : Upload Blob} {source : Source} {cs : List Chunk}

theorem appends_session (hkind : u.settings.blobType = .append)
    (hadmits : u.service.Admits u.settings.leaseId) (total : Option Nat) :
    (u.session total).Appends u.settings.envelope u.settings.maxSize := by
  refine ⟨⟨none, ?_, nofun⟩, by rwa [service_session]⟩
  rw [writer_session]
  exact Settings.writer_of_append hkind

/-- The chunk behind those that the limit allows for is turned down. -/
theorem fills_of_full {total : Option Nat} {k : Nat} (hkind : u.settings.blobType = .append)
    (hadmits : u.service.Admits u.settings.leaseId) (hcalm : u.Undisturbed)
    (hconsecutive : Chunk.Consecutive 0 cs)
    (hgreatest : IsGreatest
      {k | k ≤ cs.length ∧ u.service.HasRoomFor u.settings.maxSize cs k} k)
    (hmore : k < cs.length) (source : Source) :
    Fills u cs k (u.conclude (sendEach (cs.map .ok) (u.session total)).1 source
      (sendEach (cs.map .ok) (u.session total)).2) := by
  obtain ⟨limit, hlimited, hfull⟩ := Blob.full_of_greatest hgreatest hmore
  have happends := appends_session hkind hadmits total
  have hservice := service_session total u
  rw [hlimited] at happends
  have hsplit : cs = cs.take k ++ cs[k] :: cs.drop (k + 1) := by
    rw [← List.drop_eq_getElem_cons hmore, List.take_append_drop]
  have hupTo : (cs.take (k + 1)).flatMap Chunk.payload =
      (cs.take k).flatMap Chunk.payload ++ cs[k].payload := by
    rw [List.take_succ_eq_append_getElem hmore, List.flatMap_append, List.flatMap_singleton]
  rw [hupTo, List.length_append, ← hservice] at hfull
  obtain ⟨t, hsent, hcontent, hcalls⟩ := sendEach_append_of_full happends (hcalm.session total)
    (cs.drop (k + 1)) (fun hsome => hlimited ▸ hservice ▸ Blob.hasRoom_take hgreatest.1.2 hsome)
    hfull
  rw [← hsplit] at hsent
  rw [List.length_take_of_le (Nat.le_of_lt hmore)] at hcalls
  rw [hsent]
  refine ⟨hservice ▸ hcontent, fun hall => absurd hall (Nat.ne_of_lt hmore), fun c hget => ?_⟩
  obtain rfl : cs[k] = c := Option.some.inj ((List.getElem?_eq_getElem hmore).symm.trans hget)
  rw [hsplit] at hconsecutive
  exact ⟨hconsecutive.offset_eq.trans (Nat.zero_add _), ⟨limit, hlimited, rfl⟩, hservice ▸ hcalls⟩

/-- If the limit allows for all chunks, they are appended. -/
theorem fills_of_room {total : Option Nat} (hkind : u.settings.blobType = .append)
    (hadmits : u.service.Admits u.settings.leaseId) (hcalm : u.Undisturbed)
    (hallowed : u.service.HasRoomFor u.settings.maxSize cs cs.length) (source : Source) :
    Fills u cs cs.length (u.conclude (sendEach (cs.map .ok) (u.session total)).1 source
      (sendEach (cs.map .ok) (u.session total)).2) := by
  have hservice := service_session total u
  have hroom := Blob.hasRoom_take hallowed
  rw [List.take_length, ← hservice] at hroom
  obtain ⟨t, hwritten, ⟨⟨next, hwriter, -⟩, -⟩, hafter⟩ :=
    (appends_session hkind hadmits total).writes cs hroom
  have hkind' : t.writer.blobType ≠ .block := by rw [hwriter]; exact nofun
  obtain ⟨hcontent, hcalls, -⟩ := (u.session total).service.extendAll_frame cs
  rw [(hwritten.sendEach (hcalm.session total)).1,
    conclude_of_committed (Session.commit_of_ne_block hkind' _)]
  refine ⟨?_, fun _ => ⟨?_, ?_⟩, fun c hbeyond => ?_⟩
  · rw [List.take_length, ← hservice, ← hcontent, ← hafter]
    rfl
  · rw [hwritten.completed, hwritten.length_eq, completed_session, Nat.zero_add, hservice]
  · rw [← hservice, ← hcalls, ← hafter]
    rfl
  · rw [List.getElem?_eq_none (Nat.le_refl _)] at hbeyond
    cases hbeyond

theorem runSequential_fills {length : Option Nat} {k : Nat} (hkind : u.settings.blobType = .append)
    (hadmits : u.service.Admits u.settings.leaseId) (hcalm : u.Undisturbed)
    (hanswers : ((u.settings.cutter length).toList source).1 = cs.map .ok)
    (hgreatest : IsGreatest
      {k | k ≤ cs.length ∧ u.service.HasRoomFor u.settings.maxSize cs k} k) :
    Fills u cs k (u.runSequential source length) := by
  have hconsecutive := Cutter.consecutive_toList (u.settings.cutter length) source
  rw [hanswers, Chunk.ofAnswers_map_ok] at hconsecutive
  rw [runSequential_eq, hanswers]
  rcases Nat.lt_or_eq_of_le hgreatest.1.1 with hmore | rfl
  · exact (fills_of_full (u := u.enter .sequential) hkind hadmits (hcalm.enter _) hconsecutive
      hgreatest hmore _).of_enter
  · exact (fills_of_room (u := u.enter .sequential) hkind hadmits (hcalm.enter _) hgreatest.1.2
      _).of_enter

/-- A valid upload to an append blob that nobody else writes, and that nothing disturbs, leaves
behind the chunks that the limit allows for, in their order. If these are all chunks it ends well;
if not it fails because of the limit, after the request for the first chunk that the limit does not
allow. No append ever meets the blob at another length than it states. -/
theorem upload_append_alone (hidle : u.life.current = .idle) (hkind : u.settings.blobType = .append)
    (hvalid : u.settings.validate = .ok ()) (hadmits : u.service.Admits u.settings.leaseId)
    (hcalm : u.Undisturbed) (hbehaved : source.WellBehaved) (c : Call) :
    ∃ cs k, u.CutsInto source c cs ∧
      IsGreatest {k | k ≤ cs.length ∧ u.service.HasRoomFor u.settings.maxSize cs k} k ∧
      Fills u cs k (u.call source c) ∧
      ∀ offset expected actual, (u.call source c).1 ≠
        .error (.condition offset (Rejection.appendPosition expected actual).message) := by
  obtain ⟨cs, k, hcut, hgreatest, hfills⟩ : ∃ cs k, u.CutsInto source c cs ∧
      IsGreatest {k | k ≤ cs.length ∧ u.service.HasRoomFor u.settings.maxSize cs k} k ∧
      Fills u cs k (u.call source c) := by
    rcases call_append hidle hkind hvalid source c with
      ⟨e, source', hmeasured, -⟩ | ⟨length, source', hmeasured, hrun⟩
    · exact absurd hbehaved.seeks (seekErrors_of_measure hmeasured)
    · have hmeasure := hmeasured
      obtain ⟨seeks, rfl, -⟩ := of_measure hmeasured
      have hdelivers : ({ source with seeks } : Source).script.Delivers := hbehaved.delivers
      obtain ⟨cs, hanswers, -⟩ := u.settings.toList_cutter hdelivers length
      obtain ⟨k, hgreatest⟩ := u.service.exists_greatest_hasRoomFor u.settings.maxSize cs
      rw [hrun]
      exact ⟨cs, k, ⟨length, _, hmeasure, hanswers⟩, hgreatest,
        (runSequential_fills (u := u.enter .splitting) hkind hadmits (hcalm.enter .splitting)
          hanswers hgreatest).of_enter.settle⟩
  refine ⟨cs, k, hcut, hgreatest, hfills, fun offset expected actual hmoved => ?_⟩
  rcases Nat.lt_or_eq_of_le hgreatest.1.1 with hmore | hall
  · obtain ⟨-, ⟨limit, -, hfailed⟩, -⟩ := hfills.part _ (List.getElem?_eq_getElem hmore)
    have hsame := hfailed.symm.trans hmoved
    injection hsame with hsame
    injection hsame with _ hsame
    exact Rejection.message_tooLarge_ne limit expected actual hsame
  · cases (hfills.whole hall).1.symm.trans hmoved

end

/-- An upload of chunks of two bytes, behind one byte, that may not grow beyond four. -/
def cappedUpload : Upload Blob where
  settings := { blobType := .append, chunkSize := 2, maxSize := some 4 }
  service := .ofContent [9]

theorem cappedUpload_stops :
    (cappedUpload.call (.hesitant [1, 2, 3, 4, 5]) .stream).1 =
        .error (.condition 2 (Rejection.tooLarge 4).message) ∧
      (cappedUpload.call (.hesitant [1, 2, 3, 4, 5]) .stream).2.2.service.content = [9, 1, 2] ∧
      (cappedUpload.call (.hesitant [1, 2, 3, 4, 5]) .stream).2.2.service.calls =
        { appendBlock := 2 } := by
  have hbehaved := Source.wellBehaved_hesitant [1, 2, 3, 4, 5]
  obtain ⟨cs, k, ⟨length, source', hmeasured, hanswers⟩, hgreatest, hfills, -⟩ :=
    upload_append_alone (u := cappedUpload) rfl rfl rfl (.inl rfl) ⟨rfl, fun _ h => by cases h⟩
      hbehaved .stream
  cases hmeasured
  have hplain : (cappedUpload.settings.cutter none).cipher = none := rfl
  have hpieces := Cutter.toList_plain hbehaved.delivers hplain rfl
  obtain rfl : cs = [⟨0, [1, 2], false⟩, ⟨2, [3, 4], false⟩, ⟨4, [5], true⟩] :=
    map_ok_injective (hanswers.symm.trans hpieces)
  obtain rfl : k = 1 := by
    refine Nat.le_antisymm (Nat.not_lt.1 fun htwo => ?_) (hgreatest.2 ⟨by decide, ?_⟩)
    · exact absurd (hgreatest.1.2 2 (by decide) htwo 4 rfl) (by decide)
    · intro j hone hleast limit hsame
      obtain rfl : j = 1 := Nat.le_antisymm hleast hone
      cases hsame
      decide
  obtain ⟨-, ⟨limit, hlimited, hfailed⟩, hcalls⟩ := hfills.part _ rfl
  cases hlimited
  exact ⟨hfailed, hfills.content, hcalls⟩

end Upload

end BlobUpload
