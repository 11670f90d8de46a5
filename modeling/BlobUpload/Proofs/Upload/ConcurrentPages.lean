import BlobUpload.Proofs.Service.SharedPages
import BlobUpload.Proofs.Upload.Dispatch

/-! # Uploads to page blobs that others write to

Others may request what they like between the requests of a single worker that sends pages. If the
upload ends well, they have changed neither content nor ETag from its first write to its last. -/

namespace BlobUpload

namespace Upload

/-- From the first write of an upload on, all its rounds up to the last one, which writes as well,
find the blob as the round before has left it. Together they lay these bytes over the blob that the
first one has met. -/
structure WritesAlone (data : Bytes) (first : Round) (more : List Round) : Prop where
  begins : first.Writes
  untouched : ∀ x ∈ more, x.Untouched
  ends : ∃ last ∈ (first :: more).getLast?, last.Writes ∧
    last.own.after.content = first.met.content.overlay 0 data

variable {u : Upload SharedBlob} {source : Source}

theorem writesAlone_of_sendEach {s t : Session SharedBlob} {e : Envelope}
    {ifMatch : Option String} (hwriter : s.writer = .page e true ifMatch) (hdrops : s.service.Drops)
    {cs : List Chunk} (hconsecutive : Chunk.Consecutive 0 cs) {tokens : List Token}
    (hsent : sendEach (cs.map .ok) s = (.ok tokens, t)) :
    t.writer.blobType = .page ∧ tokens.length = cs.length ∧
      ∃ rs, t.service = Service.after s.service rs ∧ (cs ≠ [] → ∃ before first more,
        s.service.rounds rs = before ++ first :: more ∧ (∀ x ∈ before, ¬x.Writes) ∧
        WritesAlone (cs.flatMap Chunk.payload) first more ∧
        ∀ etag, ifMatch = some etag → etag = first.met.etag) := by
  cases cs with
  | nil =>
      cases hsent
      exact ⟨by rw [hwriter]; rfl, rfl, [], rfl, fun hsome => absurd rfl hsome⟩
  | cons c cs =>
      obtain ⟨hoffset, -, hnext⟩ := hconsecutive
      rw [List.map_cons] at hsent
      obtain ⟨token, s', rest, hbegun, hsent', rfl⟩ := of_sendEach_cons hsent
      have hwriter' : (s.checkAbort c.offset).2.writer = .page e true ifMatch := hwriter
      obtain ⟨hlinks, rs, before, first, hafter, hrounds, hquiet, hwrote, hown, hcontent, htold,
        -⟩ :=
        Session.send_shared hwriter' hdrops hbegun
      rw [hoffset] at hcontent
      have hstop : c.stop = c.payload.length := by
        rw [Chunk.stop, hoffset, Nat.zero_add]
        rfl
      obtain ⟨hlinks', hlength, hcontent', rs', hafter', huntouched, hlast⟩ :=
        hlinks.sendEach (hstop ▸ hnext) hcontent hsent'
      obtain ⟨x, hfound, hwrote', hown'⟩ := hlast first hwrote hown
      have hservice : s'.service = Service.after s.service rs := hafter
      refine ⟨by rw [hlinks'.writer]; rfl, congrArg (· + 1) hlength, rs ++ rs', ?_, fun _ =>
        ⟨before, first, s'.service.rounds rs', ?_, hquiet,
          ⟨hwrote, huntouched, x, hfound, hwrote', ?_⟩, htold⟩⟩
      · rw [hafter', hservice, Service.after_append]
      · rw [SharedBlob.rounds_append, ← hservice, show s.service.rounds rs = _ from hrounds,
          List.append_assoc]
        rfl
      · rw [hown', hcontent', List.flatMap_cons]

/-- Whatever chunks the cutter makes, if the upload ends well they have been written with nobody
else writing in between. -/
theorem runSequential_writesAlone {length : Option Nat} {summary : Summary}
    (hkind : u.settings.blobType = .page) (hsingle : u.settings.isParallel = false)
    (hdrops : u.service.Drops) (hdone : (u.runSequential source length).1 = .ok summary) :
    ∃ cs rs, ((u.settings.cutter length).toList source).1 = cs.map .ok ∧
      summary.chunkCount = cs.length ∧
      (u.runSequential source length).2.2.service = Service.after u.service rs ∧
      (cs ≠ [] → ∃ before first more, u.service.rounds rs = before ++ first :: more ∧
        (∀ x ∈ before, ¬x.Writes) ∧ WritesAlone (cs.flatMap Chunk.payload) first more ∧
        ∀ etag, u.settings.ifMatch = some etag → etag = first.met.etag) := by
  have hconsecutive := Cutter.consecutive_toList (u.settings.cutter length) source
  have hwriter := writer_session (u.settings.progressTotal length) (u.enter .sequential)
  have hservice := service_session (u.settings.progressTotal length) (u.enter .sequential)
  have hpages : u.settings.writer = .page u.settings.envelope true u.settings.ifMatch := by
    rw [Settings.writer_of_page hkind, hsingle]
    rfl
  rw [runSequential_eq] at hdone ⊢
  generalize (u.enter .sequential).session (u.settings.progressTotal length) = s at *
  rw [← show s.service = u.service from hservice] at hdrops ⊢
  rcases hsent : sendEach ((u.settings.cutter length).toList source).1 s with ⟨e | tokens, t⟩
  · rw [hsent] at hdone
    cases hdone
  · obtain ⟨cs, hanswers⟩ := exists_chunks_of_sendEach hsent
    rw [hsent] at hdone
    rw [hanswers] at hsent hconsecutive ⊢
    rw [Chunk.ofAnswers_map_ok] at hconsecutive
    obtain ⟨htype, hcount, rs, hafter, halone⟩ :=
      writesAlone_of_sendEach (hwriter.trans hpages) hdrops hconsecutive hsent
    obtain ⟨hfinal, hended⟩ := of_conclude_uncommittable
      (fun tokens' (_ : Except.ok tokens = .ok tokens') => by rw [htype]; exact nofun)
      (sendAll (u.settings.cutter length) source s).2.1 (u.enter .sequential)
    obtain ⟨hsame, hcounted⟩ := hended summary hdone
    cases hsame
    exact ⟨cs, rs, rfl, hcounted.trans hcount, hfinal.trans hafter, halone⟩

/-- An upload to a page blob by a single worker that ends well has not lost the update of anybody
else, whatever others request between its requests, as long as no request of its own is carried out
without an answer. From its first write on to its last nobody changes content or ETag, all that it
sends lies over the content that the first write has met, and if it is told an ETag, that is the one
that the first write has met. -/
theorem upload_pages_shared {c : Call} {summary : Summary} (hkind : u.settings.blobType = .page)
    (hsingle : u.settings.isParallel = false)
    (hdrops : ∀ f ∈ u.service.relay.faults, f.passedOn = false)
    (hdone : (u.call source c).1 = .ok summary) :
    ∃ cs rs, u.CutsInto source c cs ∧ summary.chunkCount = cs.length ∧
      (source.script.Delivers → cs.flatMap Chunk.payload = u.settings.excerpt source) ∧
      (u.call source c).2.2.service = Service.after u.service rs ∧
      (cs ≠ [] → ∃ before first more, u.service.rounds rs = before ++ first :: more ∧
        (∀ x ∈ before, ¬x.Writes) ∧ WritesAlone (cs.flatMap Chunk.payload) first more ∧
        ∀ etag, u.settings.ifMatch = some etag → etag = first.met.etag) := by
  obtain ⟨hidle, hvalid⟩ := of_call_ok (Prod.ext hdone rfl)
  obtain ⟨-, hplain, -⟩ := Settings.of_validate_page hvalid hkind
  obtain ⟨ending, hsettled, hway⟩ := way_call hidle hvalid source c
  rw [hsettled, result_settle] at hdone
  rw [hsettled, service_settle]
  cases hway with
  | unmeasured => cases hdone
  | misfit => cases hdone
  | unseekable => cases hdone
  | whole _ hput => exact nomatch hkind.symm.trans (Settings.of_singlePutLength? hput).1
  | workers _ hseveral => cases hsingle.symm.trans hseveral
  | @chunks _ length source' hmeasured _ =>
      have hdrops' : u.service.Drops := fun f hmem hlost => nomatch (hdrops f hmem).symm.trans hlost
      obtain ⟨cs, rs, hanswers, hcount, hafter, halone⟩ :=
        runSequential_writesAlone (u := u.enter .splitting) hkind hsingle hdrops' hdone
      have hcut : u.CutsInto source c cs := ⟨length, source', hmeasured, hanswers⟩
      refine ⟨cs, rs, hcut, hcount, fun hdelivers => ?_, hafter, halone⟩
      rw [hcut.flatMap_payload hdelivers, Settings.encoded, hplain]

/-- Two pages are sent to a blob that others append to before the first write, whose first request
gets lost. Between the writes somebody stages a block. -/
def busyUpload : Upload SharedBlob where
  settings := { blobType := .page, chunkSize := pageSize }
  service :=
    { relay := { service := .ofContent [7], faults := [{ error := .transport "lost" }] }
      others := [[.appendBlock ⟨[8], none, none⟩ none none],
        [.appendBlock ⟨[9], none, none⟩ none none], [.putBlock "block" ⟨[5], none, none⟩]] }

def busySource : Source := { data := List.replicate (2 * pageSize) 3 }

theorem call_busyUpload : ∃ summary, (busyUpload.call busySource .stream).1 = .ok summary := by
  have hsent : (busyUpload.streamed busySource).1 = .ok [.page (etagOf 4), .page (etagOf 5)] := by
    decide +kernel
  have hdelivers : busySource.script.Delivers := Script.delivers_free
  obtain ⟨summarize, hresult, -⟩ := call_stream_of_uncommittable (u := busyUpload) rfl (by decide)
    rfl rfl hdelivers rfl (by decide +kernel)
  rw [hresult, hsent]
  exact ⟨_, rfl⟩

/-- Neither the lost request nor what the others do before and in between makes a difference. -/
theorem busyUpload_writesAlone : ∃ rs before first more,
    (busyUpload.call busySource .stream).2.2.service = Service.after busyUpload.service rs ∧
    busyUpload.service.rounds rs = before ++ first :: more ∧
    WritesAlone busySource.data first more := by
  obtain ⟨summary, hdone⟩ := call_busyUpload
  obtain ⟨cs, rs, -, -, hjoined, hafter, halone⟩ :=
    upload_pages_shared (u := busyUpload) rfl rfl (by decide) hdone
  have hexcerpt : cs.flatMap Chunk.payload = busySource.data := hjoined Script.delivers_free
  have hsome : cs ≠ [] := by
    rintro rfl
    cases hexcerpt
  obtain ⟨before, first, more, hrounds, -, hwrites, -⟩ := halone hsome
  exact ⟨rs, before, first, more, hafter, hrounds, hexcerpt ▸ hwrites⟩

end Upload

end BlobUpload
