import BlobUpload.Proofs.Pool.ByteConservation
import BlobUpload.Proofs.Upload.Aborts
import BlobUpload.Proofs.Upload.SinglePut
import BlobUpload.Proofs.Upload.Workers

/-! # What an upload reports

Whatever the source and the service do, and however an upload ends, it reports nothing at all or it
reports before the first chunk and once behind each that is acknowledged, however many requests that
took. What has been reported in the end is what was sent, and all that was announced if the source
holds nothing back. -/

namespace BlobUpload

/-- Only chunks are gathered to the end. -/
theorem exists_chunks_of_gather {k : Cutter} {source : Source} {payload : Bytes}
    (hgathered : (gather k source).1 = .ok payload) :
    ∃ cs : List Chunk, (k.toList source).1 = cs.map .ok ∧ payload = cs.flatMap Chunk.payload := by
  rw [gather_eq_joinAll] at hgathered
  rcases chunks_or_error (k.toList source).1 with ⟨cs, hanswers⟩ | ⟨cs, e, rest, hanswers⟩
  · rw [hanswers, joinAll_map_ok] at hgathered
    exact ⟨cs, hanswers, (Except.ok.inj hgathered).symm⟩
  · rw [hanswers, joinAll_of_error] at hgathered
    cases hgathered

/-! ## What is announced -/

namespace Settings

variable {s : Settings}

theorem progressTotal_encoded (s : Settings) {data : Bytes}
    (hfits : s.isEncrypted = true → data.length + cipherBlockSize < UInt64.size) :
    s.progressTotal (some data.length) = some (s.encoded data).length := by
  rw [isEncrypted] at hfits
  rw [progressTotal, isEncrypted, encoded]
  cases hkey : s.encryption with
  | none => rfl
  | some key =>
      rw [hkey] at hfits
      simp only [Option.isSome_some, if_true, Option.map_some, CipherStream.length_ciphertext]
      rw [encryptedLength_of_lt (hfits rfl)]
      exact congrArg (fun n => some (Padding.paddedLength n)) (Nat.zero_add _).symm

/-- Several workers encrypt nothing. -/
theorem progressTotal_of_several (hvalid : s.validate = .ok ()) (hseveral : s.isParallel = true)
    (length : Option Nat) : s.progressTotal length = length := by
  have hnone := violation?_of_validate hvalid
  rw [progressTotal, if_neg]
  intro hencrypted
  rw [violation?, hencrypted, hseveral] at hnone
  split at hnone
  · cases hnone
  split at hnone
  · cases hnone
  split at hnone
  · cases hnone
  · cases hnone

/-- The sums that an upload of `n` bytes needs fit into 64 bits: the offsets that several workers
seek and the length that an encryption leads to. -/
structure Representable (s : Settings) (source : Source) (n : Nat) : Prop where
  windows : s.isParallel = true → source.position + n < UInt64.size
  padding : s.isEncrypted = true → n + cipherBlockSize < UInt64.size

/-- What is cut to the end of a generous source is as long as was announced. -/
theorem progressTotal_of_cut {source : Source} {n : Nat} {cs : List Chunk}
    (hfits : s.isEncrypted = true → n + cipherBlockSize < UInt64.size)
    (hgenerous : source.Generous) (hlong : n ≤ source.rest.length)
    (hanswers : ((s.cutter (some n)).toList source).1 = cs.map .ok) :
    s.progressTotal (some n) = some (sumOver Chunk.length cs) := by
  obtain ⟨ds, hanswers', hjoined⟩ := s.toList_cutter source.wellBehaved_mended.delivers (some n)
  rw [Cutter.toList_mended hgenerous hanswers] at hanswers'
  have hscope : (s.cutter (some n)).scope source.mended.rest = source.rest.take n := rfl
  have hlength : (source.rest.take n).length = n := List.length_take_of_le hlong
  rw [← hlength] at hfits
  rw [← Upload.map_ok_injective hanswers', hscope] at hjoined
  rw [← length_flatMap_payload, hjoined, ← progressTotal_encoded s hfits, hlength]

end Settings

namespace Upload

/-- How many bytes of its source a call is to send, if that is known or can be measured. -/
def Call.length? (settings : Settings) (source : Source) : Call → Option Nat
  | .stream => settings.sourceLength
  | .seekable _ => some (settings.sourceLength.getD source.rest.length)

variable {σ : Type} {u : Upload (Relay σ)} {source : Source} {c : Call} {length : Option Nat}
  {as cs : List Chunk} {ending : Ending (Relay σ)} {watch : Watch}

theorem length?_of_measure {σ : Type} {u : Upload σ} {source' : Source}
    (hmeasured : u.measure source c = (.ok length, source')) :
    c.length? u.settings source = length := by
  cases c with
  | stream =>
      cases hmeasured
      rfl
  | seekable schedule =>
      obtain ⟨-, -, hlength⟩ := of_measure_seekable hmeasured
      exact hlength.symm

/-! ## Accounts of an ending -/

/-- An upload that fails before it sends anything, and reports nothing. -/
structure Silent (u : Upload (Relay σ)) (ending : Ending (Relay σ)) : Prop where
  failed : ∃ e, ending.1 = .error e
  reports : ending.2.2.reports = u.reports
  service : ending.2.2.service = u.service

/-- An upload of `length` bytes of the source, if their number is known, during which the chunks
`as` are acknowledged, in this order, and the chunks `cs` are reported, in that order. -/
structure Accounted (u : Upload (Relay σ)) (source : Source) (length : Option Nat)
    (as cs : List Chunk) (ending : Ending (Relay σ)) : Prop where
  /-- All reports carry the same total. -/
  reports : ending.2.2.reports = u.reports ++ ⟨0, u.settings.progressTotal length⟩ ::
    reportsOf (u.settings.progressTotal length) 0 cs
  acknowledged : ending.2.2.service.acknowledged =
    u.service.acknowledged ++ as.map Chunk.payload
  /-- Each acknowledged chunk is reported once. -/
  perm : cs.Perm as
  /-- A single worker reports chunks in the order in which they are acknowledged. -/
  inOrder : u.settings.isParallel = false → cs = as
  last : ∀ summary, ending.1 = .ok summary → ending.2.2.reports.getLast? =
    some ⟨summary.bytesSent, u.settings.progressTotal length⟩
  bytesSent : ∀ summary, ending.1 = .ok summary → summary.bytesSent = sumOver Chunk.length as
  chunkCount : ∀ summary, ending.1 = .ok summary → summary.chunkCount = cs.length
  /-- If the source has all the bytes and keeps none back, the total is reached. What is to be sent
  ends within 64 bits, where several workers find it and with the padding of an encryption. -/
  reached : ∀ summary, ending.1 = .ok summary → ∀ n, length = some n → n ≤ source.rest.length →
    source.Generous → u.settings.Representable source n →
      u.settings.progressTotal length = some summary.bytesSent

/-- What a session has counted accounts for the ending to which it leads. -/
theorem Accounted.of_counts (hwatched : u.watch = some watch) {t : Session (Relay σ)}
    (hcounts : (u.session (u.settings.progressTotal length)).Counts as cs t) (hperm : cs.Perm as)
    (hinOrder : u.settings.isParallel = false → cs = as)
    (hreports : ending.2.2.reports = t.reports) (hservice : ending.2.2.service = t.service)
    (hdone : ∀ summary, ending.1 = .ok summary →
      summary.bytesSent = t.completed ∧ summary.chunkCount = cs.length)
    (hreached : ∀ summary, ending.1 = .ok summary → ∀ n, length = some n →
      n ≤ source.rest.length → source.Generous → u.settings.Representable source n →
        u.settings.progressTotal length = some (sumOver Chunk.length cs)) :
    Accounted u source length as cs ending := by
  have hcompleted := hcounts.completed
  rw [completed_session, Nat.zero_add] at hcompleted
  have hreported := hreports.trans hcounts.reports
  rw [session_of_watched hwatched, List.append_assoc] at hreported
  have hacknowledged := hcounts.acknowledged
  rw [service_session] at hacknowledged
  refine ⟨hreported, (congrArg Relay.acknowledged hservice).trans hacknowledged, hperm, hinOrder,
    fun summary hok => ?_, fun summary hok => ?_, fun summary hok => (hdone summary hok).2,
    fun summary hok n hknown hlong hgenerous hsums => ?_⟩
  · rw [hreported, (hdone summary hok).1, hcompleted]
    change (_ ++ ⟨0, _⟩ :: reportsOf _ 0 cs).getLast? = _
    rw [List.getLast?_append, getLast?_reportsOf, Nat.zero_add]
    rfl
  · rw [(hdone summary hok).1, hcompleted, sumOver_perm _ hperm]
  · rw [hreached summary hok n hknown hlong hgenerous hsums, (hdone summary hok).1, hcompleted]

variable [Service σ]

/-- Concluding counts no further chunk. -/
theorem counts_conclude (sent : Except UploadError (List Token)) (source : Source)
    (s : Session (Relay σ)) (u : Upload (Relay σ)) :
    ∃ t, s.Counts [] [] t ∧ (u.conclude sent source s).2.2.reports = t.reports ∧
      (u.conclude sent source s).2.2.service = t.service ∧
      ∀ summary, (u.conclude sent source s).1 = .ok summary → sent = .ok summary.tokens ∧
        summary.bytesSent = t.completed ∧ summary.chunkCount = summary.tokens.length := by
  cases sent with
  | error e => exact ⟨s, .refl s, rfl, rfl, nofun⟩
  | ok tokens =>
      refine ⟨(s.commit tokens).2, Session.counts_commit s tokens, ?_⟩
      rcases hcommitted : s.commit tokens with ⟨e | commit, t⟩
      · rw [conclude_of_uncommitted hcommitted]
        exact ⟨rfl, rfl, nofun⟩
      · rw [conclude_of_committed hcommitted]
        refine ⟨rfl, rfl, fun summary hok => ?_⟩
        cases hok
        exact ⟨rfl, rfl, rfl⟩

/-! ## Each way -/

theorem accounted_runSequential (hwatched : u.watch = some watch) (source : Source)
    (length : Option Nat) :
    ∃ cs, Accounted u source length cs cs (u.runSequential source length) := by
  rw [runSequential_eq]
  have hwatched' : ((u.enter .sequential).session (u.settings.progressTotal length)).watch =
      some watch := (watch_session _ _).trans hwatched
  obtain ⟨cs, hcounts, hall⟩ :=
    Session.counts_sendEach hwatched' ((u.settings.cutter length).toList source).1
  obtain ⟨t, hconcluded, hreports, hservice, hdone⟩ := counts_conclude
    (sendEach ((u.settings.cutter length).toList source).1
      ((u.enter .sequential).session (u.settings.progressTotal length))).1
    (sendAll (u.settings.cutter length) source
      ((u.enter .sequential).session (u.settings.progressTotal length))).2.1
    (sendEach ((u.settings.cutter length).toList source).1
      ((u.enter .sequential).session (u.settings.progressTotal length))).2 (u.enter .sequential)
  have hcounts' := hcounts.trans hconcluded
  rw [List.append_nil] at hcounts'
  refine ⟨cs, .of_counts hwatched hcounts' (.refl cs) (fun _ => rfl) hreports hservice
    (fun summary hok => ?_) fun summary hok n hknown hlong hgenerous hsums => ?_⟩
  · obtain ⟨hsent, hbytes, hcount⟩ := hdone summary hok
    exact ⟨hbytes, hcount.trans (hall _ hsent).2⟩
  · obtain ⟨hsent, -⟩ := hdone summary hok
    subst hknown
    exact Settings.progressTotal_of_cut hsums.padding hgenerous hlong (hall _ hsent).1

theorem accounted_runSinglePut (hwatched : u.watch = some watch) (source : Source) (n : Nat) :
    ∃ cs, Accounted u source (some n) cs cs (u.runSinglePut source n) := by
  have hwatched' : ((u.enter .sequential).session (u.settings.progressTotal (some n))).watch =
      some watch := (watch_session _ _).trans hwatched
  obtain ⟨cs, hcounts, hall⟩ :=
    Session.counts_sendWhole hwatched' (u.settings.cutter (some n)) source
  refine ⟨cs, ?_⟩
  have hsame : (u.enter .sequential).settings = u.settings := rfl
  rw [runSinglePut, hsame]
  rcases hput : sendWhole (u.settings.cutter (some n)) source
    ((u.enter .sequential).session (u.settings.progressTotal (some n))) with ⟨e | etag, source', t⟩
  · rw [hput] at hcounts
    exact .of_counts hwatched hcounts (.refl cs) (fun _ => rfl) rfl rfl (by rintro _ ⟨⟩)
      (by rintro _ ⟨⟩)
  · rw [hput] at hcounts hall
    obtain ⟨payload, hgathered, rfl⟩ := hall etag rfl
    refine .of_counts hwatched hcounts (.refl _) (fun _ => rfl) rfl rfl (fun summary hok => ?_)
      fun _ _ m hknown hlong hgenerous hsums => ?_
    · cases hok
      exact ⟨rfl, rfl⟩
    · cases hknown
      obtain ⟨ds, hanswers, rfl⟩ := exists_chunks_of_gather hgathered
      rw [Settings.progressTotal_of_cut hsums.padding hgenerous hlong hanswers,
        ← length_flatMap_payload]
      rfl

theorem accounted_runParallel {n : Nat} (hwatched : u.watch = some watch)
    (hvalid : u.settings.validate = .ok ()) (hseveral : u.settings.isParallel = true)
    (schedule : List Pool.Action) (source : Source) :
    Silent u (u.runParallel schedule source n) ∨
      ∃ as cs, Accounted u source (some n) as cs (u.runParallel schedule source n) := by
  rw [runParallel]
  rcases hshared : CommonSource.ofSource source with ⟨e | common, source'⟩
  · exact .inl ⟨⟨_, rfl⟩, rfl, rfl⟩
  obtain rfl := CommonSource.of_ofSource hshared
  have hwatched' : ((u.enter .parallel).session (some n)).watch = some watch :=
    (watch_session _ _).trans hwatched
  have hsteady : ((u.enter .parallel).session (some n)).writer.Steady := by
    rw [writer_session]
    exact steady_of_several hvalid hseveral
  have hparallelism : 0 < ((u.enter .parallel).session (some n)).settings.parallelism := by
    rw [settings_session]
    exact Nat.zero_lt_of_lt (of_decide_eq_true hseveral)
  obtain ⟨as, cs, hcounts, hperm, hall⟩ :=
    Pool.counts_run hwatched' hsteady hparallelism source.shared n schedule
  have htotal : u.settings.progressTotal (some n) = some n :=
    Settings.progressTotal_of_several hvalid hseveral _
  simp only
  generalize hran : (Pool.ofSession ((u.enter .parallel).session (some n)) source.shared n).run
    schedule = p at *
  obtain ⟨t, hconcluded, hreports, hservice, hdone⟩ :=
    counts_conclude p.outcome p.common.source p.session (u.enter .parallel)
  have hcounts' := hcounts.trans hconcluded
  rw [List.append_nil, List.append_nil] at hcounts'
  rw [← htotal] at hcounts'
  refine .inr ⟨as, cs, .of_counts hwatched hcounts' hperm (fun halone => ?_) hreports hservice
    (fun summary hok => ?_) fun summary hok m hknown hlong hgenerous hsums => ?_⟩
  · cases hseveral.symm.trans halone
  · obtain ⟨houtcome, hbytes, hcount⟩ := hdone summary hok
    exact ⟨hbytes, hcount.trans (hall _ houtcome).symm⟩
  · cases hknown
    obtain ⟨houtcome, -⟩ := hdone summary hok
    have hreached : p.session.completed = (source.rest.take n).length := by
      rw [← hran] at houtcome ⊢
      exact Pool.completed_run hsteady hparallelism (hgenerous.of_same rfl rfl)
        (hsums.windows hseveral) (completed_session _ _) houtcome
    have hcompleted := hcounts.completed
    rw [completed_session, Nat.zero_add, hreached] at hcompleted
    rw [htotal, ← hcompleted]
    exact congrArg some (List.length_take_of_le hlong).symm

/-! ## However an upload is called -/

omit [Service σ] in
theorem Silent.settle (hsilent : Silent u ending) : Silent u (settle ending) := by
  obtain ⟨hsame, phase, hlater⟩ := settle_eq ending
  exact ⟨hsame ▸ hsilent.failed, by rw [hlater]; exact hsilent.reports, by
    rw [hlater]; exact hsilent.service⟩

omit [Service σ] in
theorem Accounted.settle (haccounted : Accounted u source length as cs ending) :
    Accounted u source length as cs (settle ending) := by
  obtain ⟨hsame, phase, hlater⟩ := settle_eq ending
  obtain ⟨hreports, hacknowledged, hperm, hinOrder, hlast, hbytesSent, hchunkCount,
    hreached⟩ := haccounted
  rw [← hsame] at hlast hbytesSent hchunkCount hreached
  have hreported : (Upload.settle ending).2.2.reports = ending.2.2.reports := by rw [hlater]; rfl
  refine ⟨hreported.trans hreports, ?_, hperm, hinOrder, ?_, hbytesSent, hchunkCount, hreached⟩
  · rw [service_settle]
    exact hacknowledged
  · rw [hreported]
    exact hlast

omit [Service σ] in
/-- What an upload that has started, and has measured its source, accounts for. -/
theorem Accounted.of_entered {next : Phase} {seeks : Nat}
    (haccounted : Accounted (u.enter next) { source with seeks } length as cs ending) :
    Accounted u source length as cs ending where
  reports := haccounted.reports
  acknowledged := haccounted.acknowledged
  perm := haccounted.perm
  inOrder := haccounted.inOrder
  last := haccounted.last
  bytesSent := haccounted.bytesSent
  chunkCount := haccounted.chunkCount
  reached summary hok n hknown hlong hgenerous hsums :=
    haccounted.reached summary hok n hknown hlong hgenerous ⟨hsums.windows, hsums.padding⟩

theorem accounted_of_way (hwatched : u.watch = some watch) (hvalid : u.settings.validate = .ok ())
    (hway : Way source (u.enter .splitting) c ending) :
    Silent u ending ∨ ∃ as cs, Accounted u source (c.length? u.settings source) as cs ending := by
  have hknown {length : Option Nat} {source' : Source}
      (hmeasured : (u.enter .splitting).measure source c = (.ok length, source')) :
      c.length? u.settings source = length := length?_of_measure (u := u.enter .splitting) hmeasured
  cases hway with
  | unmeasured => exact .inl ⟨⟨_, rfl⟩, rfl, rfl⟩
  | misfit => exact .inl ⟨⟨_, rfl⟩, rfl, rfl⟩
  | unseekable => exact .inl ⟨⟨_, rfl⟩, rfl, rfl⟩
  | whole hmeasured hput =>
      obtain ⟨-, rfl⟩ := Settings.of_singlePutLength? hput
      rw [hknown hmeasured]
      obtain ⟨seeks, rfl, -⟩ := of_measure hmeasured
      obtain ⟨cs, haccounted⟩ :=
        accounted_runSinglePut (u := u.enter .splitting) hwatched { source with seeks } _
      exact .inr ⟨cs, cs, haccounted.of_entered⟩
  | chunks hmeasured halone =>
      rw [hknown hmeasured]
      obtain ⟨seeks, rfl, -⟩ := of_measure hmeasured
      obtain ⟨cs, haccounted⟩ :=
        accounted_runSequential (u := u.enter .splitting) hwatched { source with seeks } _
      exact .inr ⟨cs, cs, haccounted.of_entered⟩
  | @workers schedule n source' hmeasured hseveral =>
      rw [hknown hmeasured]
      obtain ⟨seeks, rfl, -⟩ := of_measure hmeasured
      rcases accounted_runParallel (u := u.enter .splitting) (n := n) hwatched hvalid hseveral
        schedule { source with seeks } with hsilent | ⟨as, cs, haccounted⟩
      · exact .inl ⟨hsilent.failed, hsilent.reports, hsilent.service⟩
      · exact .inr ⟨as, cs, haccounted.of_entered⟩

/-- Whatever its source and its service do, a watched upload fails without a report, or its reports
account for what is acknowledged: one before the first chunk and one behind each, further by its
length, all with the total that is known or measured. If it ends well they account for what is sent,
and the total is reached if the source has so many bytes and keeps none back, unless 64 bits are too
few for the sums. -/
theorem call_accounted (hwatched : u.watch = some watch) (source : Source) (c : Call) :
    Silent u (u.call source c) ∨
      ∃ as cs, Accounted u source (c.length? u.settings source) as cs (u.call source c) := by
  by_cases hidle : u.life.current = .idle
  · cases hvalid : u.settings.validate with
    | error e =>
        rw [call_of_invalid hidle hvalid]
        exact .inl ⟨⟨_, rfl⟩, rfl, rfl⟩
    | ok _ =>
        obtain ⟨ending, hsettled, hway⟩ := way_call hidle hvalid source c
        rw [hsettled]
        rcases accounted_of_way hwatched hvalid hway with hsilent | ⟨as, cs, haccounted⟩
        · exact .inl hsilent.settle
        · exact .inr ⟨as, cs, haccounted.settle⟩
  · rw [call_of_run hidle]
    exact .inl ⟨⟨_, rfl⟩, rfl, rfl⟩

/-- Two workers send five bytes, and the first request for the first two of them is lost. -/
def outrunUpload : Upload (Relay Blob) where
  settings := { blobType := .block, chunkSize := 2, parallelism := 2, maxRetries := 1 }
  service := { service := {}, faults := [{ offset := some 0, error := .transport "reset" }] }
  watch := some .quiet

/-- How it ends if the second worker begins and is outrun by the first one. -/
def outrunEnding : Ending (Relay Blob) :=
  outrunUpload.call { data := [1, 2, 3, 4, 5] } (.seekable [.step 1, .step 1])

theorem outrunUpload_accounted :
    (∃ as cs, Accounted outrunUpload { data := [1, 2, 3, 4, 5] } (some 5) as cs outrunEnding) ∧
      Source.Generous { data := [1, 2, 3, 4, 5] } ∧
      outrunEnding.1.toOption.map Summary.bytesSent = some 5 ∧
      outrunEnding.2.2.service.exchanges.length = 5 ∧
      outrunEnding.2.2.service.acknowledged = [[3, 4], [5], [1, 2]] ∧
      outrunEnding.2.2.reports = [⟨0, some 5⟩, ⟨2, some 5⟩, ⟨3, some 5⟩, ⟨5, some 5⟩] := by
  have hsent : outrunEnding.1.toOption.map Summary.bytesSent = some 5 := by decide +kernel
  refine ⟨?_, Source.generous_of_delivers fun _ => trivial, hsent, by decide +kernel⟩
  rcases call_accounted (u := outrunUpload) rfl { data := [1, 2, 3, 4, 5] }
    (.seekable [.step 1, .step 1]) with hsilent | haccounted
  · obtain ⟨e, hfailed⟩ := hsilent.failed
    rw [show outrunEnding.1 = _ from hfailed] at hsent
    cases hsent
  · exact haccounted

end Upload

end BlobUpload
