import BlobUpload.Proofs.Upload.AppendFaults
import BlobUpload.Proofs.Upload.Blocks

/-! # Encrypted uploads

An encrypted upload cuts and encrypts as it reads. Whether the pieces are staged, appended or sent
by one request, they are the encryption of the source as a whole, and decrypt to it. -/

namespace BlobUpload

theorem sendWhole_of_chunks {k : Cutter} {source : Source} {s : Session Blob} {cs : List Chunk}
    (hanswers : (k.toList source).1 = cs.map .ok) (hadmits : s.service.Admits s.settings.leaseId)
    (hcalm : s.Undisturbed) :
    ∃ source', sendWhole k source s = (.ok (etagOf (s.service.revision + 1)), source',
      { s with service := s.service.put (cs.flatMap Chunk.payload) }.advance
        (cs.flatMap Chunk.payload).length) := by
  have hjoined : (gather k source).1 = .ok (cs.flatMap Chunk.payload) := by
    rw [gather_eq_joinAll, hanswers, joinAll_map_ok]
  have hput : s.deliver 0 (.putBlob (s.settings.envelope.body (cs.flatMap Chunk.payload))) =
      (.ok (etagOf (s.service.revision + 1)),
        { s with service := s.service.put (cs.flatMap Chunk.payload) }) := by
    rw [Session.deliver, deliver_of_answered (Blob.answer_putBlob hadmits _)]
  refine ⟨(gather k source).2, ?_⟩
  rw [sendWhole, show gather k source = (_, (gather k source).2) from Prod.ext hjoined rfl]
  simp only [Session.checkAbort_of_undisturbed hcalm, hput]

namespace Upload

/-- The ending of an upload that has written these bytes, behind what an append blob held before. -/
structure Writes (u : Upload Blob) (written : Bytes) (ending : Ending Blob) : Prop where
  result : ∃ summary, ending.1 = .ok summary ∧ summary.bytesSent = written.length
  content : ending.2.2.service.content =
    (if u.settings.blobType = .append then u.service.content else []) ++ written

theorem Writes.settle {u : Upload Blob} {written : Bytes} {ending : Ending Blob}
    (h : Writes u written ending) : Writes u written (settle ending) := by
  refine ⟨?_, ?_⟩
  · simpa only [result_settle] using h.result
  · simpa only [service_settle] using h.content

/-- A phase makes no difference to what is written. -/
theorem Writes.of_enter {u : Upload Blob} {written : Bytes} {ending : Ending Blob} {phase : Phase}
    (h : Writes (u.enter phase) written ending) : Writes u written ending := ⟨h.result, h.content⟩

variable {u : Upload Blob} {source : Source} {cs : List Chunk}

theorem runSinglePut_writes {n : Nat} (hkind : u.settings.blobType = .block)
    (hadmits : u.service.Admits u.settings.leaseId) (hcalm : u.Undisturbed)
    (hanswers : ((u.settings.cutter (some n)).toList source).1 = cs.map .ok) :
    Writes u (cs.flatMap Chunk.payload) (u.runSinglePut source n) := by
  have hcalm' := (hcalm.enter .sequential).session
    ((u.enter .sequential).settings.progressTotal (some n))
  have hadmits' : ((u.enter .sequential).session
      ((u.enter .sequential).settings.progressTotal (some n))).service.Admits
        ((u.enter .sequential).session
          ((u.enter .sequential).settings.progressTotal (some n))).settings.leaseId := by
    rw [service_session, settings_session]
    exact hadmits
  have hanswers' : (((u.enter .sequential).settings.cutter (some n)).toList source).1 =
      cs.map .ok := hanswers
  obtain ⟨source', hsent⟩ := sendWhole_of_chunks hanswers' hadmits' hcalm'
  have happend : u.settings.blobType ≠ .append := by rw [hkind]; exact nofun
  simp only [runSinglePut, hsent]
  refine ⟨⟨_, rfl, ?_⟩, ?_⟩
  · rw [Session.completed_advance]
    simp only [completed_session, Nat.zero_add]
  · rw [if_neg happend, List.nil_append]
    exact congrArg Blob.content (Session.service_advance _ _)

theorem runSequential_writes_blocks {length : Option Nat} (hkind : u.settings.blobType = .block)
    (hadmits : u.service.Admits u.settings.leaseId) (hcalm : u.Undisturbed)
    (hanswers : ((u.settings.cutter length).toList source).1 = cs.map .ok)
    (hnonempty : cs.flatMap Chunk.payload ≠ []) :
    Writes u (cs.flatMap Chunk.payload) (u.runSequential source length) := by
  have hending := runSequential_of_chunks hkind hadmits hcalm hanswers
  have happend : u.settings.blobType ≠ .append := by rw [hkind]; exact nofun
  refine ⟨⟨_, hending.result, rfl⟩, ?_⟩
  rw [if_neg happend, List.nil_append]
  exact (hending.committed hnonempty).1

theorem runSequential_writes_appends {length : Option Nat} (hkind : u.settings.blobType = .append)
    (hunlimited : u.settings.maxSize = none) (hadmits : u.service.Admits u.settings.leaseId)
    (hcalm : u.Undisturbed)
    (hanswers : ((u.settings.cutter length).toList source).1 = cs.map .ok) :
    Writes u (cs.flatMap Chunk.payload) (u.runSequential source length) := by
  have hcalm' := (hcalm.enter .sequential).session (u.settings.progressTotal length)
  obtain ⟨reports, abort, hsession⟩ :=
    session_eq (u.settings.progressTotal length) (u.enter .sequential)
  have hwriter : u.settings.writer = .append u.settings.envelope none none := by
    rw [Settings.writer_of_append hkind, hunlimited]
  rw [runSequential_eq, hanswers]
  rw [hsession] at hcalm' ⊢
  obtain ⟨tokens, t, hrun, hcontent, htype, hcompleted⟩ :=
    sendEach_append_of_admits hwriter hadmits (fun p h => by cases h) hcalm' cs
  have hkind' : t.writer.blobType ≠ .block := by rw [htype]; exact nofun
  rw [hrun, conclude_of_committed (Session.commit_of_ne_block hkind' tokens)]
  refine ⟨⟨_, rfl, hcompleted.trans (Nat.zero_add _)⟩, ?_⟩
  rw [if_pos hkind]
  exact hcontent

/-- What an upload that nothing disturbs writes with a single worker is the encoding of the bytes
it is asked for. -/
theorem call_writes (hidle : u.life.current = .idle) (hkind : u.settings.blobType ≠ .page)
    (hchunkSize : 0 < u.settings.chunkSize) (halone : u.settings.parallelism = 1)
    (hwindow : 0 < u.settings.windowCapacity) {key : ContentKey}
    (hencryption : u.settings.encryption = some key) (hunlimited : u.settings.maxSize = none)
    (hadmits : u.service.Admits u.settings.leaseId) (hcalm : u.Undisturbed)
    (hbehaved : source.WellBehaved) (c : Call) :
    Writes u (key.stream.ciphertext (u.settings.excerpt source)) (u.call source c) := by
  have hvalid := Settings.validate_of_alone hkind hchunkSize halone hwindow
  have hsingle := Settings.isParallel_of_alone halone
  obtain ⟨ending, hsettled, hway⟩ := way_call hidle hvalid source c
  rw [hsettled]
  refine Writes.settle ?_
  have hencoded : u.settings.encoded (u.settings.excerpt source) =
      key.stream.ciphertext (u.settings.excerpt source) := by rw [Settings.encoded, hencryption]
  have hnonempty := key.stream.ciphertext_ne_nil (u.settings.excerpt source)
  have hcalm := hcalm.enter .splitting
  rw [← hencoded] at hnonempty ⊢
  cases hway with
  | unmeasured hmeasured => exact absurd hbehaved.seeks (seekErrors_of_measure hmeasured)
  | misfit hbroken => cases (Settings.lengthViolation?_of_ne_page hkind _).symm.trans hbroken
  | unseekable hseveral => cases hsingle.symm.trans hseveral
  | workers _ hseveral => cases hsingle.symm.trans hseveral
  | @whole _ _ n _ hmeasured hput =>
      obtain ⟨seeks, rfl, hscope⟩ := of_measure hmeasured
      obtain ⟨hblock, rfl⟩ := Settings.of_singlePutLength? hput
      have hdelivers : ({ source with seeks } : Source).script.Delivers := hbehaved.delivers
      obtain ⟨cs, hanswers, hjoined⟩ := u.settings.toList_cutter hdelivers (some n)
      have hsame : cs.flatMap Chunk.payload = u.settings.encoded (u.settings.excerpt source) :=
        hjoined.trans (congrArg u.settings.encoded hscope)
      rw [← hsame]
      exact (runSinglePut_writes (u := u.enter .splitting) hblock hadmits hcalm hanswers).of_enter
  | @chunks _ length _ hmeasured =>
      obtain ⟨seeks, rfl, hscope⟩ := of_measure hmeasured
      have hdelivers : ({ source with seeks } : Source).script.Delivers := hbehaved.delivers
      obtain ⟨cs, hanswers, hjoined⟩ := u.settings.toList_cutter hdelivers length
      have hsame : cs.flatMap Chunk.payload = u.settings.encoded (u.settings.excerpt source) :=
        hjoined.trans (congrArg u.settings.encoded hscope)
      rw [← hsame] at hnonempty ⊢
      cases htype : u.settings.blobType with
      | block =>
          exact (runSequential_writes_blocks (u := u.enter .splitting) htype hadmits hcalm hanswers
            hnonempty).of_enter
      | page => exact absurd htype hkind
      | append =>
          exact (runSequential_writes_appends (u := u.enter .splitting) htype hunlimited hadmits
            hcalm hanswers).of_enter

/-- An encrypted upload that nothing disturbs ends well, and what it has written decrypts to the
bytes that it was asked for. Nothing at all is written as one block of padding. -/
theorem upload_encrypted (hidle : u.life.current = .idle) (hkind : u.settings.blobType ≠ .page)
    (hchunkSize : 0 < u.settings.chunkSize) (halone : u.settings.parallelism = 1)
    (hwindow : 0 < u.settings.windowCapacity) {key : ContentKey}
    (hencryption : u.settings.encryption = some key) (hunlimited : u.settings.maxSize = none)
    (hadmits : u.service.Admits u.settings.leaseId) (hcalm : u.Undisturbed)
    (hbehaved : source.WellBehaved) (c : Call) :
    ∃ summary written,
      (u.call source c).1 = .ok summary ∧
      (u.call source c).2.2.service.content =
        (if u.settings.blobType = .append then u.service.content else []) ++ written ∧
      summary.bytesSent = written.length ∧
      written.length = Padding.paddedLength (u.settings.excerpt source).length ∧
      encryptedLength (u.settings.excerpt source).length = Offset.wrap written.length ∧
      key.decrypt written = .ok (u.settings.excerpt source) ∧
      (u.settings.excerpt source = [] → written.length = cipherBlockSize) := by
  obtain ⟨⟨summary, hresult, hsent⟩, hcontent⟩ :=
    call_writes hidle hkind hchunkSize halone hwindow hencryption hunlimited hadmits hcalm
      hbehaved c
  have hlength : (key.stream.ciphertext (u.settings.excerpt source)).length =
      Padding.paddedLength (u.settings.excerpt source).length := by
    rw [CipherStream.length_ciphertext]
    exact congrArg Padding.paddedLength (Nat.zero_add _)
  refine ⟨summary, _, hresult, hcontent, hsent, hlength, congrArg Offset.wrap hlength.symm,
    key.decrypt_ciphertext _, fun hempty => ?_⟩
  rw [hlength, hempty]
  rfl

/-- Five bytes behind the two that an append blob holds already, two bytes at a time. -/
theorem upload_encrypted_behind_content :
    let key : ContentKey := ⟨⟨⟨⟨0, 1, 2, 3⟩, ⟨4, 5, 6, 7⟩, ⟨8, 9, 10, 11⟩, ⟨12, 13, 14, 15⟩⟩,
      ⟨⟨0, 1, 2, 3⟩, ⟨4, 5, 6, 7⟩, ⟨8, 9, 10, 11⟩, ⟨12, 13, 14, 15⟩⟩⟩,
      ⟨⟨1, 0, 0, 0⟩, ⟨2, 0, 0, 0⟩, ⟨3, 0, 0, 0⟩, ⟨4, 0, 0, 0⟩⟩⟩
    ∃ written, key.decrypt written = .ok [1, 2, 3, 4, 5] ∧
      (call (.hesitant [1, 2, 3, 4, 5])
        { settings := { blobType := .append, chunkSize := 2, encryption := some key }
          service := { content := [8, 9] } : Upload Blob } .stream).2.2.service.content =
        [8, 9] ++ written := by
  intro key
  have hcalm : Undisturbed
      { settings := { blobType := .append, chunkSize := 2, encryption := some key }
        service := { content := [8, 9] } : Upload Blob } := ⟨rfl, fun _ h => by cases h⟩
  obtain ⟨summary, written, -, hcontent, -, -, -, hdecrypt, -⟩ :=
    upload_encrypted rfl (by decide) Nat.two_pos rfl (by decide : 0 < defaultWindowCapacity) rfl rfl
      (.inl rfl) hcalm (Source.wellBehaved_hesitant [1, 2, 3, 4, 5]) .stream
  exact ⟨written, hdecrypt, hcontent⟩

end Upload

end BlobUpload
