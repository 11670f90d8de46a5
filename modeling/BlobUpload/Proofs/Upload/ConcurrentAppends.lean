import BlobUpload.Proofs.Service.SharedAppends
import BlobUpload.Proofs.Upload.AppendFaults

/-! # Uploads to append blobs that others append to

Whatever the others append, and however the upload ends, its chunks make up one range of the blob.
An append of somebody else between two of them makes the next one fail. -/

namespace BlobUpload

namespace Upload

variable {u : Upload SharedBlob} {source : Source}

/-- What an upload has done to a shared blob: its landed chunks are one range, the first of those
that were cut, and all of them if it ends well. -/
structure Occupies (u : Upload SharedBlob) (source : Source) (c : Call)
    (ending : Ending SharedBlob) : Prop where
  range : ∃ before, ending.2.2.service.Contiguous u.settings.maxSize before ∧
    ∀ front x back, ending.2.2.service.landings = front ++ x :: back →
      x.token = .append (before.length + ((front ++ [x]).flatMap Landing.payload).length)
  front : ∀ length source', u.measure source c = (.ok length, source') →
    ending.2.2.service.landings.map Landing.payload <+:
      (Chunk.ofAnswers ((u.settings.cutter length).toList source').1).map Chunk.payload
  whole : ∀ summary, ending.1 = .ok summary →
    summary.tokens = ending.2.2.service.landings.map Landing.token ∧
    (∃ cs, u.CutsInto source c cs ∧
      ending.2.2.service.landings.map Landing.payload = cs.map Chunk.payload) ∧
    (source.script.Delivers →
      ending.2.2.service.landed = u.settings.encoded (u.settings.excerpt source))

theorem Occupies.settle {c : Call} {ending : Ending SharedBlob} (h : Occupies u source c ending) :
    Occupies u source c (settle ending) := by
  refine ⟨?_, ?_, ?_⟩
  · simpa only [service_settle] using h.range
  · simpa only [service_settle] using h.front
  · simpa only [service_settle, result_settle] using h.whole

/-- An upload that fails before its first request has landed nothing. -/
theorem occupies_of_untouched {c : Call} {ending : Ending SharedBlob}
    (hfresh : u.service.past = []) (hfailed : ∃ e, ending.1 = .error e)
    (hsame : ending.2.2.service = u.service) : Occupies u source c ending := by
  have hnone : ending.2.2.service.landings = [] := by rw [hsame, SharedBlob.landings, hfresh]; rfl
  have hrange := SharedBlob.contiguous_of_nil hnone u.settings.maxSize
  obtain ⟨e, hfailed⟩ := hfailed
  refine ⟨⟨[], hrange, fun _ _ _ => hrange.token⟩, fun _ _ _ => ?_, fun summary hdone => ?_⟩
  · rw [hnone]
    exact List.nil_prefix
  · cases hfailed.symm.trans hdone

theorem runSequential_occupies {c : Call} {length : Option Nat} {source' : Source}
    (hkind : u.settings.blobType = .append) (hfresh : u.service.past = [])
    (honly : u.service.AppendOnly) (hmeasured : u.measure source c = (.ok length, source')) :
    Occupies u source c (u.runSequential source' length) := by
  have hnone : u.service.landings = [] := by rw [SharedBlob.landings, hfresh]; rfl
  have hsession := service_session (u.settings.progressTotal length) (u.enter .sequential)
  have hshares : ((u.enter .sequential).session (u.settings.progressTotal length)).Shares
      u.settings.envelope u.settings.maxSize := by
    refine ⟨.none, (writer_session _ _).trans (Settings.writer_of_append hkind), ?_⟩
    rw [hsession]
    exact ⟨honly, [], SharedBlob.contiguous_of_nil hnone _, .inl ⟨rfl, hnone⟩⟩
  obtain ⟨⟨next, hwriter, -, before, hrange, -⟩, xs, hlandings, hfront, hwhole⟩ :=
    hshares.sendEach ((u.settings.cutter length).toList source').1
  rw [hsession, show (u.enter .sequential).service.landings = [] from hnone,
    List.nil_append] at hlandings
  rw [runSequential_eq]
  generalize sendEach ((u.settings.cutter length).toList source').1
    ((u.enter .sequential).session (u.settings.progressTotal length)) = sent
    at hwriter hrange hlandings hwhole ⊢
  obtain ⟨hservice, hdone⟩ := of_conclude_uncommittable (s := sent.2)
    (fun tokens (_ : sent.1 = .ok tokens) => by rw [hwriter]; rintro ⟨⟩)
    (sendAll (u.settings.cutter length) source'
      ((u.enter .sequential).session (u.settings.progressTotal length))).2.1 (u.enter .sequential)
  refine ⟨⟨before, by rw [hservice]; exact hrange, fun _ _ _ hsplit => ?_⟩,
    fun length' source'' hmeasured' => ?_, fun summary hok => ?_⟩
  · rw [hservice] at hsplit
    exact hrange.token hsplit
  · cases hmeasured.symm.trans hmeasured'
    rw [hservice, hlandings]
    exact hfront
  · obtain ⟨htokens, cs, hanswers, hpayloads⟩ := hwhole _ (hdone summary hok).1
    rw [hservice, hlandings]
    have hcut : u.CutsInto source c cs := ⟨length, source', hmeasured, hanswers⟩
    refine ⟨htokens, ⟨cs, hcut, hpayloads⟩, fun hdelivers => ?_⟩
    rw [SharedBlob.landed, hlandings, ← hcut.flatMap_payload hdelivers, List.flatMap_def, hpayloads,
      List.flatMap_def]

/-- What an upload appends to a blob that others append to is one range of the blob, whatever they
append between its requests, and wherever it ends. It begins at the length that the blob had at the
first append, each token tells where its chunk ends in it, and no append has exceeded the limit. If
the upload ends well, all that it was to send is in that range. -/
theorem upload_append_shared (hkind : u.settings.blobType = .append) (hfresh : u.service.past = [])
    (hdrops : ∀ f ∈ u.service.relay.faults, f.passedOn = false)
    (hothers : ∀ rs ∈ u.service.others, ∀ r ∈ rs, r.method = .appendBlock) (source : Source)
    (c : Call) : Occupies u source c (u.call source c) := by
  have honly : u.service.AppendOnly :=
    ⟨fun f hmem hlost => (nomatch (hdrops f hmem).symm.trans hlost), hothers⟩
  by_cases hstarted : u.life.current = .idle ∧ u.settings.validate = .ok ()
  · rcases call_append hstarted.1 hkind hstarted.2 source c with
      ⟨e, source', -, hrun⟩ | ⟨length, source', hmeasured, hrun⟩
    · rw [hrun]
      exact (occupies_of_untouched hfresh ⟨_, rfl⟩ rfl).settle
    · have hending := runSequential_occupies (u := u.enter .splitting) hkind hfresh honly hmeasured
      rw [hrun]
      exact Occupies.settle ⟨hending.range, hending.front, hending.whole⟩
  · obtain ⟨rule, u', hrun, hsame⟩ := call_of_unstarted hstarted source c
    rw [hrun]
    exact occupies_of_untouched hfresh ⟨_, rfl⟩ hsame

/-- An upload of chunks of two bytes whose first request gets lost. Somebody else appends one byte
before it, and another one before the second chunk. -/
def crowdedUpload : Upload SharedBlob where
  settings := { blobType := .append, chunkSize := 2 }
  service :=
    { relay := { service := .ofContent [7], faults := [{ error := .transport "lost" }] }
      others := [[.appendBlock ⟨[8], none, none⟩ none none], [],
        [.appendBlock ⟨[9], none, none⟩ none none]] }

theorem call_crowdedUpload :
    (crowdedUpload.call { data := [1, 2, 3, 4] } .stream).1 =
        .error (.condition 2 (Rejection.appendPosition 4 5).message) ∧
      (crowdedUpload.call { data := [1, 2, 3, 4] } .stream).2.2.service.content =
        [7, 8, 1, 2, 9] ∧
      (crowdedUpload.call { data := [1, 2, 3, 4] } .stream).2.2.service.landed = [1, 2] := by
  have hdelivers : ({ data := [1, 2, 3, 4] } : Source).script.Delivers := Script.delivers_free
  obtain ⟨source', hrun⟩ :=
    runSequential_of_plain (u := crowdedUpload.enter .splitting) hdelivers rfl none
  rw [call_stream_of_alone rfl rfl rfl rfl,
    show crowdedUpload.settings.sourceLength = none from rfl, hrun]
  exact ⟨rfl, rfl, rfl⟩

theorem crowdedUpload_occupies :
    ∃ before, before ++ [1, 2] <+: [7, 8, 1, 2, 9] ∧
      (crowdedUpload.call { data := [1, 2, 3, 4] } .stream).2.2.service.Contiguous none before := by
  have hothers : ∀ rs ∈ crowdedUpload.service.others, ∀ r ∈ rs, r.method = .appendBlock := by decide
  obtain ⟨before, hrange, -⟩ := (upload_append_shared (u := crowdedUpload) rfl rfl
    (by decide) hothers { data := [1, 2, 3, 4] } .stream).range
  obtain ⟨-, hcontent, hlanded⟩ := call_crowdedUpload
  exact ⟨before, hlanded ▸ hcontent ▸ hrange.content, hrange⟩

end Upload

end BlobUpload
