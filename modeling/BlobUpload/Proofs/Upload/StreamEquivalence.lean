import BlobUpload.Proofs.Session.ErrorOrigin
import BlobUpload.Proofs.Session.Lockstep
import BlobUpload.Proofs.Upload.FaultTransparency
import BlobUpload.Proofs.Upload.Lifecycle

/-! # Measured and unmeasured uploads

A source whose length was measured is cut by a count that runs out, one that can only be read by the
read that comes back short or empty. Both make the same chunks, but for the mark of the last one,
so an upload by a single worker sends the same requests and ends the same, however it is called. -/

namespace BlobUpload

/-! ## Cutting with and without a count -/

namespace Cutter

/-- Encrypting cutters with the same bytes in their scope answer the same, whether these end by
the count or by the source. -/
theorem toList_of_scope {k : Cutter} {stream : CipherStream} {left : Option Nat} {s s' : Source}
    (hcipher : k.cipher = some stream) (hfresh : stream.finalized = false)
    (hunfinished : k.finished = false) (hdelivers : s.script.Delivers)
    (hdelivers' : s'.script.Delivers)
    (hsame : k.scope s.rest = ({ k with remaining := left } : Cutter).scope s'.rest) :
    (k.toList s).1 = (({ k with remaining := left } : Cutter).toList s').1 := by
  obtain ⟨outs, final, used, hfeeds, hanswers, -⟩ :=
    exists_feeds (Source.holds_of_delivers hdelivers) hcipher hfresh hunfinished
  obtain ⟨outs', final', used', hfeeds', hanswers', -⟩ :=
    exists_feeds (k := { k with remaining := left }) (Source.holds_of_delivers hdelivers') hcipher
      hfresh hunfinished
  rw [← hsame] at hfeeds'
  obtain ⟨rfl, rfl, -⟩ := hfeeds.unique hfeeds'
  rw [hanswers, hanswers']

/-- Without a cipher only the mark of the last piece depends on the count. -/
theorem patches_pieces (k : Cutter) (left : Option Nat) (data : Bytes) :
    (({ k with remaining := left } : Cutter).pieces data).map Chunk.patch =
      (k.pieces data).map Chunk.patch := by
  rw [pieces, pieces, List.map_map, List.map_map]
  rfl

/-- Over delivering sources, cutters with the same bytes in their scope write the same. -/
theorem patches_toList {k : Cutter} {s s' : Source} (left : Option Nat) (hfresh : k.Fresh)
    (hunfinished : k.finished = false) (hdelivers : s.script.Delivers)
    (hdelivers' : s'.script.Delivers)
    (hsame : k.scope s.rest = ({ k with remaining := left } : Cutter).scope s'.rest) :
    (k.toList s).1.map (Except.map Chunk.patch) =
      (({ k with remaining := left } : Cutter).toList s').1.map (Except.map Chunk.patch) := by
  by_cases hplain : k.cipher = none
  · have hforget (cs : List Chunk) : (cs.map (Except.ok (ε := UploadError))).map
        (Except.map Chunk.patch) = (cs.map Chunk.patch).map .ok := by
      rw [List.map_map, List.map_map]
      rfl
    rw [toList_plain hdelivers hplain hunfinished,
      toList_plain (k := { k with remaining := left }) hdelivers' hplain hunfinished, ← hsame,
      hforget, hforget, patches_pieces k left]
  · obtain ⟨stream, hcipher⟩ := Option.ne_none_iff_exists'.1 hplain
    rw [toList_of_scope hcipher (hfresh hunfinished stream hcipher) hunfinished hdelivers hdelivers'
      hsame]

end Cutter

namespace Upload

variable {σ τ : Type} {R : σ → τ → Prop} {u : Upload σ}

/-! ## Endings that agree -/

/-- Both end the same, with services that are related. -/
structure Agree (R : σ → τ → Prop) (ending : Ending σ) (ending' : Ending τ) : Prop where
  result : ending.1 = ending'.1
  service : R ending.2.2.service ending'.2.2.service

theorem Agree.settle {ending : Ending σ} {ending' : Ending τ} (hagree : Agree R ending ending') :
    Agree R (settle ending) (settle ending') := by
  refine ⟨?_, ?_⟩
  · rw [result_settle, result_settle, hagree.result]
  · rw [service_settle, service_settle]
    exact hagree.service

theorem inStep_session {service : τ} (hrelated : R u.service service)
    (hcounts : ∀ watch, u.watch = some watch → watch.CountsBytes) (total total' : Option Nat) :
    (u.session total).InStep R ((u.serve service).session total') :=
  Session.InStep.report (.intro hcounts rfl hrelated)

variable [Service σ] [Service τ]

theorem agree_conclude {s : Session σ} {t : Session τ} (hinStep : s.InStep R t)
    (hsimilar : Service.Similar R) (sent : Except UploadError (List Token))
    (source source' : Source) (u : Upload σ) (v : Upload τ) :
    Agree R (u.conclude sent source s) (v.conclude sent source' t) := by
  cases sent with
  | error e => exact ⟨rfl, hinStep.service⟩
  | ok tokens =>
      obtain ⟨hsame, hinStep'⟩ := hinStep.commit hsimilar tokens
      rcases hcommitted : s.commit tokens with ⟨e | commit, s'⟩
      · rcases hcommitted' : t.commit tokens with ⟨e' | commit', t'⟩
        · rw [hcommitted, hcommitted'] at hsame hinStep'
          cases hsame
          rw [conclude_of_uncommitted hcommitted, conclude_of_uncommitted hcommitted']
          exact ⟨rfl, hinStep'.service⟩
        · rw [hcommitted, hcommitted'] at hsame
          cases hsame
      · rcases hcommitted' : t.commit tokens with ⟨e' | commit', t'⟩
        · rw [hcommitted, hcommitted'] at hsame
          cases hsame
        · rw [hcommitted, hcommitted'] at hsame hinStep'
          cases hsame
          rw [conclude_of_committed hcommitted, conclude_of_committed hcommitted',
            hinStep'.completed]
          exact ⟨rfl, hinStep'.service⟩

/-- Single workers who cut their sources into the same patches agree. -/
theorem agree_runSequential {service : τ} {source source' : Source} {length length' : Option Nat}
    (hsimilar : Service.Similar R) (hrelated : R u.service service)
    (hcounts : ∀ watch, u.watch = some watch → watch.CountsBytes)
    (hsame : ((u.settings.cutter length).toList source).1.map (Except.map Chunk.patch) =
      ((u.settings.cutter length').toList source').1.map (Except.map Chunk.patch)) :
    Agree R (u.runSequential source length) ((u.serve service).runSequential source' length') := by
  have hinStep : ((u.enter .sequential).session (u.settings.progressTotal length)).InStep R
      (((u.serve service).enter .sequential).session (u.settings.progressTotal length')) :=
    inStep_session hrelated hcounts _ _
  obtain ⟨hsent, hinStep'⟩ :=
    hinStep.sendEach hsimilar ((u.settings.cutter length).toList source).1
  rw [runSequential_eq, runSequential_eq, settings_serve, ← sendEach_congr hsame, ← hsent]
  exact agree_conclude hinStep' hsimilar _ _ _ _ _

/-! ## However an upload is called -/

/-- What a single worker sends of a well-behaved source does not depend on whether the source can be
sought: the requests that the relay records, the service behind it and the result are the same. -/
theorem upload_eq_uploadStream {σ : Type} [Service σ] {u : Upload (Relay σ)} {source : Source}
    (halone : u.settings.parallelism = 1) (hchunked : u.settings.singlePutThreshold = none)
    (hunknown : u.settings.sourceLength = none)
    (hpages : u.settings.blobType = .page → source.rest.length % pageSize = 0)
    (hbehaved : source.WellBehaved)
    (hcounts : ∀ watch, u.watch = some watch → watch.CountsBytes) (schedule : List Pool.Action) :
    (u.upload source schedule).1 = (u.uploadStream source).1 ∧
      (u.upload source schedule).2.2.service = (u.uploadStream source).2.2.service := by
  change (u.call source (.seekable schedule)).1 = (u.call source .stream).1 ∧
    (u.call source (.seekable schedule)).2.2.service = (u.call source .stream).2.2.service
  by_cases hidle : u.life.current = .idle
  · cases hvalid : u.settings.validate with
    | error e =>
        rw [call_of_invalid hidle hvalid, call_of_invalid hidle hvalid]
        exact ⟨rfl, rfl⟩
    | ok _ =>
        have hsingle := Settings.isParallel_of_alone halone
        have hwhole := Settings.singlePutLength?_of_none hchunked
        obtain ⟨seeks, hmeasured⟩ := u.measure_of_seeks hbehaved.seeks schedule
        rw [hunknown, Option.getD_none] at hmeasured
        have hfits : u.misfit? (.seekable schedule) (some source.rest.length) = none := by
          by_cases hkind : u.settings.blobType = .page
          · exact Settings.lengthViolation?_of_pages (hpages hkind)
          · exact Settings.lengthViolation?_of_ne_page hkind _
        have hscope : (u.settings.cutter (some source.rest.length)).scope source.rest =
            (u.settings.cutter none).scope source.rest := List.take_length
        have hdelivers : ({ source with seeks } : Source).script.Delivers := hbehaved.delivers
        have hpatches := Cutter.patches_toList (k := u.settings.cutter (some source.rest.length))
          none (u.settings.fresh_cutter _) rfl hdelivers hbehaved.delivers hscope
        rw [call_of_chunked hidle hvalid hsingle hmeasured (hwhole _), hfits,
          call_stream_of_alone hidle hvalid hsingle (hwhole _), hunknown]
        have hagree := (agree_runSequential (u := u.enter .splitting) Service.similar_eq rfl hcounts
          hpatches).settle
        exact ⟨hagree.result, hagree.service⟩
  · rw [call_of_run hidle, call_of_run hidle]
    exact ⟨rfl, rfl⟩

/-- An upload that is aborted behind four bytes, over a service that loses one request. -/
def meteredUpload : Upload (Relay Blob) where
  settings := { blobType := .block, chunkSize := 2, maxRetries := 1 }
  service :=
    { service := .ofContent [7], faults := [{ offset := some 0, error := .transport "reset" }] }
  watch := some (.abortingAt 4)

/-- Six bytes behind one that was read before. -/
def offsetSource : Source := { Source.hesitant [9, 1, 2, 3, 4, 5, 6] with position := 1 }

/-- Both send the first chunk twice and the second one once, and are aborted before the third. -/
theorem upload_eq_uploadStream_metered :
    (meteredUpload.upload offsetSource).1 = .error (.aborted 4) ∧
      (meteredUpload.uploadStream offsetSource).1 = .error (.aborted 4) ∧
      (meteredUpload.upload offsetSource).2.2.service.exchanges.length = 3 ∧
      (meteredUpload.upload offsetSource).2.2.service.exchanges =
        (meteredUpload.uploadStream offsetSource).2.2.service.exchanges := by
  have hbehaved : offsetSource.WellBehaved :=
    ⟨(Source.wellBehaved_hesitant [9, 1, 2, 3, 4, 5, 6]).delivers, rfl⟩
  have hcounts : ∀ watch, meteredUpload.watch = some watch → watch.CountsBytes := by
    rintro _ hsame
    cases hsame
    exact Watch.countsBytes_abortingAt 4
  have haborted : (meteredUpload.upload offsetSource).1 = .error (.aborted 4) := by decide +kernel
  obtain ⟨hresult, hservice⟩ :=
    upload_eq_uploadStream (u := meteredUpload) rfl rfl rfl nofun hbehaved hcounts []
  exact ⟨haborted, hresult ▸ haborted, by decide +kernel, congrArg Relay.exchanges hservice⟩

end Upload

end BlobUpload
