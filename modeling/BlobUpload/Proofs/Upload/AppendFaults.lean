import BlobUpload.Proofs.Session.AppendRetries
import BlobUpload.Proofs.Upload.Dispatch

/-! # Uploads to append blobs through faults

An upload that ends well has appended every chunk, in the order of the source. Each but the first is
there once. -/

namespace BlobUpload

theorem firstPayload_pieces (k : Cutter) (data : Bytes) :
    firstPayload (k.pieces data) = data.take k.chunkSize := by
  by_cases hnone : data = []
  · rw [hnone, Cutter.pieces_nil, List.take_nil]
    rfl
  rcases Nat.lt_or_ge data.length k.chunkSize with hshort | hfull
  · rw [Cutter.pieces_of_short hnone hshort, List.take_of_length_le (Nat.le_of_lt hshort)]
    rfl
  · let next : Cutter :=
      { k with offset := k.offset + k.chunkSize, remaining := k.remaining.map (· - k.chunkSize) }
    rw [show k.pieces data = _ :: next.pieces (data.drop k.chunkSize) from
      Cutter.pieces_of_full hfull rfl rfl rfl]
    rfl

theorem Chunk.Consecutive.payload_ne_nil {offset : Nat} {cs : List Chunk}
    (h : Consecutive offset cs) : ∀ c ∈ cs, c.payload ≠ [] := by
  induction cs generalizing offset with
  | nil => simp
  | cons c cs ih =>
      intro d hd
      rcases List.mem_cons.1 hd with rfl | hd
      · exact h.2.1
      · exact ih h.2.2 d hd

/-- A chunk begins where the payloads before it end. -/
theorem Chunk.Consecutive.offset_eq {offset : Nat} {as bs : List Chunk} {c : Chunk}
    (h : Consecutive offset (as ++ c :: bs)) :
    c.offset = offset + (as.flatMap Chunk.payload).length := by
  induction as generalizing offset with
  | nil => exact h.1
  | cons a as ih =>
      obtain ⟨rfl, -, hrest⟩ := h
      rw [ih hrest, Chunk.stop, List.flatMap_cons, List.length_append, Nat.add_assoc]
      rfl

namespace Upload

/-- A valid upload to an append blob sends chunk by chunk, if its source can be measured. -/
theorem call_append {σ : Type} [Service σ] {u : Upload σ} (hidle : u.life.current = .idle)
    (hkind : u.settings.blobType = .append) (hvalid : u.settings.validate = .ok ())
    (source : Source) (c : Call) :
    (∃ e source', u.measure source c = (.error e, source') ∧
      u.call source c = settle (.error (.source 0 e), source', u.enter .splitting)) ∨
    ∃ length source', u.measure source c = (.ok length, source') ∧
      u.call source c = settle ((u.enter .splitting).runSequential source' length) := by
  have hpage : u.settings.blobType ≠ .page := by rw [hkind]; exact nofun
  obtain ⟨-, -, -, halone⟩ := Settings.of_validate hvalid
  have hsingle := Settings.isParallel_of_alone (halone hkind)
  obtain ⟨ending, hsettled, hway⟩ := way_call hidle hvalid source c
  cases hway with
  | unmeasured hmeasured => exact .inl ⟨_, _, hmeasured, hsettled⟩
  | misfit hbroken => cases (Settings.lengthViolation?_of_ne_page hpage _).symm.trans hbroken
  | unseekable hseveral => cases hsingle.symm.trans hseveral
  | workers _ hseveral => cases hsingle.symm.trans hseveral
  | whole _ hput => exact nomatch hkind.symm.trans (Settings.of_singlePutLength? hput).1
  | chunks hmeasured => exact .inr ⟨_, _, hmeasured, hsettled⟩

/-- Whatever chunks the cutter makes, if the upload ends well they have been appended. -/
theorem runSequential_append {u : Upload (Relay Blob)} {P : Request → Prop} {source : Source}
    {length : Option Nat} {summary : Summary} {cs : List Chunk}
    (hkind : u.settings.blobType = .append)
    (hanswers : ((u.settings.cutter length).toList source).1 = cs.map .ok)
    (hlose : Fault.LoseOnly P u.service.faults)
    (hdone : (u.runSequential source length).1 = .ok summary) :
    summary.chunkCount = cs.length ∧
    ∃ e, (u.runSequential source length).2.2.service.service.content =
        u.service.service.content ++
          ((List.replicate e (firstPayload cs)).flatten ++ cs.flatMap Chunk.payload) ∧
      (u.runSequential source length).2.2.service.service.calls.appendBlock =
        u.service.service.calls.appendBlock + (e + cs.length) ∧
      e ≤ u.settings.maxRetries ∧
      (e ≠ 0 → P (.appendBlock (u.settings.envelope.body (firstPayload cs)) none
        u.settings.maxSize)) := by
  have hconsecutive := Cutter.consecutive_toList (u.settings.cutter length) source
  rw [hanswers, Chunk.ofAnswers_map_ok] at hconsecutive
  have hwriter := writer_session (u.settings.progressTotal length) (u.enter .sequential)
  have hservice := service_session (u.settings.progressTotal length) (u.enter .sequential)
  have hsettings := settings_session (u.settings.progressTotal length) (u.enter .sequential)
  rw [runSequential_eq, hanswers] at hdone ⊢
  generalize (u.enter .sequential).session (u.settings.progressTotal length) = s at *
  rw [← show s.service = u.service from hservice] at hlose ⊢
  generalize hout : sendEach (cs.map .ok) s = sent at *
  have happended := fun tokens (hok : sent.1 = .ok tokens) =>
    sendEach_append (hwriter.trans (Settings.writer_of_append hkind)) hconsecutive.payload_ne_nil
      hlose (hout.trans (Prod.ext hok rfl))
  obtain ⟨hfinal, hended⟩ := of_conclude_uncommittable (s := sent.2) (fun tokens hok => by
    obtain ⟨⟨next, hlast⟩, -⟩ := happended tokens hok
    rw [hlast]
    exact nofun) (sendAll (u.settings.cutter length) source s).2.1 (u.enter .sequential)
  obtain ⟨hok, hcount⟩ := hended summary hdone
  obtain ⟨-, hlength, e, hcontent, hcalls, hfew, hlost⟩ := happended summary.tokens hok
  rw [hfinal]
  exact ⟨hcount.trans hlength, e, hcontent, hcalls, hsettings ▸ hfew, fun h => (hlost h).2⟩

/-- An upload of chunks of two bytes whose first append loses its answer. -/
def lossyAppend : Upload (Relay Blob) where
  settings := { blobType := .append, chunkSize := 2 }
  service :=
    { service := .ofContent [7], faults := [{ error := .transport "lost", passedOn := true }] }

theorem call_lossyAppend :
    (lossyAppend.call { data := [1, 2, 3] } .stream).1 =
        .ok ⟨[.append 5, .append 6], 3, 2, none⟩ ∧
      (lossyAppend.call { data := [1, 2, 3] } .stream).2.2.service.service.content =
        [7, 1, 2, 1, 2, 3] := by
  have hdelivers : ({ data := [1, 2, 3] } : Source).script.Delivers := Script.delivers_free
  obtain ⟨source', hrun⟩ :=
    runSequential_of_plain (u := lossyAppend.enter .splitting) hdelivers rfl none
  rw [call_stream_of_alone rfl rfl rfl rfl, show lossyAppend.settings.sourceLength = none from rfl,
    hrun]
  exact ⟨rfl, rfl⟩

/-- The first append states no position, so sent again it is carried out again. -/
theorem lossyAppend_repeats_first_chunk :
    (lossyAppend.call { data := [1, 2, 3] } .stream).1 =
        .ok ⟨[.append 5, .append 6], 3, 2, none⟩ ∧
      (lossyAppend.call { data := [1, 2, 3] } .stream).2.2.service.service.content ≠
        lossyAppend.service.service.content ++
          lossyAppend.settings.excerpt { data := [1, 2, 3] } := by
  refine ⟨call_lossyAppend.1, ?_⟩
  rw [call_lossyAppend.2]
  decide

/-- An upload to an append blob that ends well, over a source that delivers, has appended all its
chunks in their order, whatever faults it met. The first chunk is there once more for every lost
answer to it, and every other chunk once. -/
theorem upload_append_of_ok {u u' : Upload (Relay Blob)} {source source' : Source} {c : Call}
    {summary : Summary} (hkind : u.settings.blobType = .append) (hdelivers : source.script.Delivers)
    (hdone : u.call source c = (.ok summary, source', u')) :
    ∃ cs e, u.CutsInto source c cs ∧ summary.chunkCount = cs.length ∧
      cs.flatMap Chunk.payload = u.settings.encoded (u.settings.excerpt source) ∧
      (u.settings.encryption = none →
        firstPayload cs = (u.settings.excerpt source).take u.settings.chunkSize ∧
        cs.length = ((u.settings.excerpt source).length + (u.settings.chunkSize - 1)) /
          u.settings.chunkSize) ∧
      u'.service.service.content = u.service.service.content ++
        ((List.replicate e (firstPayload cs)).flatten ++ cs.flatMap Chunk.payload) ∧
      u'.service.service.calls.appendBlock =
        u.service.service.calls.appendBlock + (e + cs.length) ∧
      e ≤ u.settings.maxRetries ∧
      (e ≠ 0 → ∃ f ∈ u.service.faults, f.passedOn = true ∧ ∃ n, f.hits n
        (.appendBlock (u.settings.envelope.body (firstPayload cs)) none u.settings.maxSize) =
          true) := by
  obtain ⟨hidle, hvalid⟩ := of_call_ok hdone
  obtain ⟨hchunkSize, -, -, hsingle⟩ := Settings.of_validate hvalid
  obtain ⟨ending, hsettled, hway⟩ := way_call hidle hvalid source c
  obtain ⟨hresult, phase, hafter⟩ := settle_eq ending
  rw [← hsettled, hdone] at hresult hafter
  cases hway with
  | unmeasured => cases hresult
  | misfit => cases hresult
  | unseekable => cases hresult
  | whole _ hput => exact nomatch hkind.symm.trans (Settings.of_singlePutLength? hput).1
  | workers _ hseveral =>
      have hseveral : decide (1 < u.settings.parallelism) = true := hseveral
      rw [hsingle hkind] at hseveral
      cases hseveral
  | @chunks _ length measured hmeasure =>
      have hlose : Fault.LoseOnly
          (fun r => ∃ f ∈ u.service.faults, f.passedOn = true ∧ ∃ n, f.hits n r = true)
          u.service.faults := fun f hf hlost n r hhits => ⟨f, hf, hlost, n, hhits⟩
      obtain ⟨seeks, rfl, -⟩ := of_measure hmeasure
      have hdelivers' : ({ source with seeks } : Source).script.Delivers := hdelivers
      obtain ⟨cs, hanswers, -⟩ := u.settings.toList_cutter hdelivers' length
      have hcut : u.CutsInto source c cs := ⟨length, _, hmeasure, hanswers⟩
      obtain ⟨hcount, e, hcontent, hcalls, hfew, hlost⟩ :=
        runSequential_append (u := u.enter .splitting) hkind hanswers hlose hresult.symm
      rw [show u' = _ from hafter]
      refine ⟨cs, e, hcut, hcount, hcut.flatMap_payload hdelivers, fun hplain => ?_, hcontent,
        hcalls, hfew, hlost⟩
      obtain ⟨length', hpieces⟩ := hcut.eq_pieces hdelivers hplain
      have hsize : (u.settings.cutter length').chunkSize = u.settings.chunkSize :=
        Nat.max_eq_left hchunkSize
      rw [hpieces, firstPayload_pieces, Cutter.length_pieces, Span.count, Cutter.max_chunkSize,
        hsize]
      exact ⟨rfl, rfl⟩

theorem upload_append_of_lossyAppend :
    ∃ e, (lossyAppend.call { data := [1, 2, 3] } .stream).2.2.service.service.content =
        [7] ++ ((List.replicate e [1, 2]).flatten ++ [1, 2, 3]) ∧
      (lossyAppend.call { data := [1, 2, 3] } .stream).2.2.service.service.calls.appendBlock =
        0 + (e + 2) := by
  have hdelivers : ({ data := [1, 2, 3] } : Source).script.Delivers := Script.delivers_free
  obtain ⟨cs, e, -, -, hjoined, hplain, hcontent, hcalls, -⟩ := upload_append_of_ok
    (u := lossyAppend) (c := .stream) rfl hdelivers (Prod.ext call_lossyAppend.1 rfl)
  obtain ⟨hfirst, hcount⟩ := hplain rfl
  rw [hfirst, hjoined] at hcontent
  rw [hcount] at hcalls
  exact ⟨e, hcontent, hcalls⟩

end Upload

end BlobUpload
