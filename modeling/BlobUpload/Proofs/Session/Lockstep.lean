import BlobUpload.Proofs.Service.Faults
import BlobUpload.Proofs.Service.StagedBlocks

/-! # Sessions in step

Two sessions are in step if nothing tells them apart that decides what they send: only the total
that their reports carry may differ, and their services as far as no answer shows it. In step they
send the same chunks, with the same tokens and errors, and stay so. -/

namespace BlobUpload

/-- Whether to abort depends on the bytes that are reported, not on the total. -/
def Watch.CountsBytes (watch : Watch) : Prop :=
  ∀ {reports reports' : List Report},
    reports.map Report.completed = reports'.map Report.completed →
      watch.abortsOn reports = watch.abortsOn reports'

theorem Watch.countsBytes_abortingAt (threshold : Nat) :
    (Watch.abortingAt threshold).CountsBytes := by
  intro reports reports' hsame
  have hlast := congrArg List.getLast? hsame
  rw [List.getLast?_map, List.getLast?_map] at hlast
  simp only [Watch.abortingAt]
  cases h : reports.getLast? <;> cases h' : reports'.getLast? <;> simp_all

section

variable {σ τ : Type} [Service σ] [Service τ] {R : σ → τ → Prop}

/-! ## Services that answer alike -/

/-- Related services give the same answers and stay related. -/
def Service.Similar (R : σ → τ → Prop) : Prop :=
  ∀ {s : σ} {t : τ}, R s t → ∀ r : Request,
    (Service.answer r s).1 = (Service.answer r t).1 ∧
      R (Service.answer r s).2 (Service.answer r t).2

theorem Service.similar_eq : Service.Similar (Eq (α := σ)) := by
  rintro s _ rfl r
  exact ⟨rfl, rfl⟩

/-- A relay without faults answers like the service behind it. -/
theorem Relay.similar_clear :
    Service.Similar fun (relay : Relay σ) (s : σ) => relay.faults = [] ∧ relay.service = s := by
  rintro relay _ ⟨hclear, rfl⟩ r
  rw [Relay.answer_of_clear hclear]
  exact ⟨rfl, rfl, rfl⟩

theorem Service.Similar.answer (hsimilar : Service.Similar R) {s s' : σ} {t : τ} {r : Request}
    {answer : Except ServiceError r.Reply} (hrelated : R s t)
    (hanswered : Service.answer r s = (answer, s')) :
    ∃ t', Service.answer r t = (answer, t') ∧ R s' t' := by
  obtain ⟨hsame, hafter⟩ := hsimilar hrelated r
  rw [hanswered] at hsame hafter
  exact ⟨_, Prod.ext hsame.symm rfl, hafter⟩

theorem Service.Similar.deliver (hsimilar : Service.Similar R) {offset retries sent : Nat}
    {r : Request} {s s' : σ} {t : τ} {answer : Except UploadError r.Reply} (hrelated : R s t)
    (hdelivered : BlobUpload.deliver offset r retries sent s = (answer, s')) :
    ∃ t', BlobUpload.deliver offset r retries sent t = (answer, t') ∧ R s' t' := by
  fun_induction BlobUpload.deliver offset r retries sent s generalizing t with
  | case1 retries sent s reply s₁ hanswered =>
      cases hdelivered
      obtain ⟨t₁, hanswered', hrelated'⟩ := hsimilar.answer hrelated hanswered
      exact ⟨t₁, deliver_of_answered hanswered' retries sent, hrelated'⟩
  | case2 retries sent s message s₁ hanswered =>
      cases hdelivered
      obtain ⟨t₁, hanswered', hrelated'⟩ := hsimilar.answer hrelated hanswered
      exact ⟨t₁, deliver_of_condition hanswered' retries sent, hrelated'⟩
  | case3 sent s cause s₁ hfinal hanswered =>
      cases hdelivered
      obtain ⟨t₁, hanswered', hrelated'⟩ := hsimilar.answer hrelated hanswered
      refine ⟨t₁, ?_, hrelated'⟩
      rw [BlobUpload.deliver, hanswered']
      cases cause with
      | condition message => exact absurd rfl (hfinal message)
      | transport cause => rfl
      | service status message => rfl
  | case4 sent s cause s₁ hfinal hanswered retries ih =>
      obtain ⟨t₁, hanswered', hrelated'⟩ := hsimilar.answer hrelated hanswered
      obtain ⟨t', hdelivered', hrelated''⟩ := ih hrelated' hdelivered
      refine ⟨t', ?_, hrelated''⟩
      rw [BlobUpload.deliver, hanswered', ← hdelivered']
      cases cause with
      | condition message => exact absurd rfl (hfinal message)
      | transport cause => rfl
      | service status message => rfl

/-! ## Sessions -/

/-- The same session with another service, other reports and another total. -/
def Session.recast (service : τ) (reports : List Report) (total : Option Nat) (s : Session σ) :
    Session τ :=
  { settings := s.settings, service, writer := s.writer, watch := s.watch, reports,
    abort := s.abort, total, completed := s.completed }

/-- Nothing that decides what is sent tells the sessions apart. -/
inductive Session.InStep (R : σ → τ → Prop) (s : Session σ) : Session τ → Prop
  | intro {service : τ} {reports : List Report} {total : Option Nat} :
    (∀ watch, s.watch = some watch → watch.CountsBytes) →
    s.reports.map Report.completed = reports.map Report.completed → R s.service service →
    InStep R s (s.recast service reports total)

namespace Session.InStep

variable {s : Session σ} {t : Session τ}

omit [Service σ] [Service τ] in
theorem service (hinStep : s.InStep R t) : R s.service t.service := by
  obtain ⟨-, -, hrelated⟩ := hinStep
  exact hrelated

omit [Service σ] [Service τ] in
theorem completed (hinStep : s.InStep R t) : s.completed = t.completed := by
  obtain ⟨-, -, -⟩ := hinStep
  rfl

omit [Service σ] [Service τ] in
theorem report (hinStep : s.InStep R t) : s.report.InStep R t.report := by
  obtain @⟨service, reports, total, hcounts, hreported, hrelated⟩ := hinStep
  cases hwatched : s.watch with
  | none =>
      rw [Session.report, Session.report, show (s.recast service reports total).watch = none from
        hwatched, hwatched]
      exact .intro hcounts hreported hrelated
  | some watch =>
      have hreported' : List.map Report.completed (s.reports ++ [⟨s.completed, s.total⟩]) =
          List.map Report.completed (reports ++ [⟨s.completed, total⟩]) := by
        rw [List.map_append, List.map_append, hreported]
        rfl
      have haborts := hcounts watch hwatched hreported'
      rw [Session.report, Session.report, show (s.recast service reports total).watch =
        some watch from hwatched, hwatched]
      simp only [Session.recast, haborts]
      exact .intro (fun _ hsame => hcounts _ (hwatched.trans hsame)) hreported' hrelated

omit [Service σ] [Service τ] in
theorem advance (hinStep : s.InStep R t) (n : Nat) : (s.advance n).InStep R (t.advance n) := by
  obtain ⟨hcounts, hreported, hrelated⟩ := hinStep
  exact report (s := { s with completed := s.completed + n }) (.intro hcounts hreported hrelated)

omit [Service σ] [Service τ] in
theorem checkAbort {s' : Session σ} {answer : Except UploadError Unit} {offset : Nat}
    (hinStep : s.InStep R t) (hlooked : s.checkAbort offset = (answer, s')) :
    ∃ t', t.checkAbort offset = (answer, t') ∧ s'.InStep R t' := by
  obtain @⟨service, reports, total, hcounts, hreported, hrelated⟩ := hinStep
  obtain rfl := eq_of_checkAbort hlooked
  have hsame : ((s.recast service reports total).checkAbort offset).1 =
      (s.checkAbort offset).1 := rfl
  exact ⟨({ s with abort := s.abort.look.2 } : Session σ).recast service reports total,
    Prod.ext (hsame.trans (congrArg Prod.fst hlooked)) rfl, .intro hcounts hreported hrelated⟩

theorem send {s' : Session σ} {c : Chunk} {answer : Except UploadError Token}
    (hinStep : s.InStep R t) (hsimilar : Service.Similar R) (hsent : s.send c = (answer, s')) :
    ∃ t', t.send c = (answer, t') ∧ s'.InStep R t' := by
  obtain @⟨service, reports, total, hcounts, hreported, hrelated⟩ := hinStep
  cases hcheck : s.writer.check c with
  | error e =>
      have hcheck' : (s.recast service reports total).writer.check c = .error e := hcheck
      rw [send_of_unfit hcheck] at hsent
      cases hsent
      exact ⟨_, send_of_unfit hcheck', .intro hcounts hreported hrelated⟩
  | ok _ =>
      have hcheck' : (s.recast service reports total).writer.check c = .ok () := hcheck
      rcases hdelivered : BlobUpload.deliver c.offset (s.writer.request c) s.settings.maxRetries 0
        s.service with ⟨answer', service₁⟩
      obtain ⟨service₂, hdelivered', hrelated'⟩ := hsimilar.deliver hrelated hdelivered
      cases answer' with
      | error e =>
          rw [send_of_failed hcheck hdelivered] at hsent
          cases hsent
          exact ⟨_, send_of_failed (s := s.recast service reports total) hcheck' hdelivered',
            .intro hcounts hreported hrelated'⟩
      | ok reply =>
          rw [send_of_delivered hcheck hdelivered] at hsent
          cases hsent
          exact ⟨_, send_of_delivered (s := s.recast service reports total) hcheck' hdelivered',
            advance (s := { s with service := service₁, writer := (s.writer.accept c reply).2 })
              (.intro hcounts hreported hrelated') c.length⟩

theorem sendEach (hinStep : s.InStep R t) (hsimilar : Service.Similar R)
    (answers : List (Except UploadError Chunk)) :
    (BlobUpload.sendEach answers s).1 = (BlobUpload.sendEach answers t).1 ∧
      (BlobUpload.sendEach answers s).2.InStep R (BlobUpload.sendEach answers t).2 := by
  induction answers generalizing s t with
  | nil => exact ⟨rfl, hinStep⟩
  | cons answer answers ih =>
      cases answer with
      | error e => exact ⟨rfl, hinStep⟩
      | ok c =>
          rcases hlooked : s.checkAbort c.offset with ⟨e | _, s₁⟩
          · obtain ⟨t₁, hlooked', hinStep₁⟩ := hinStep.checkAbort hlooked
            rw [BlobUpload.sendEach, hlooked, BlobUpload.sendEach, hlooked']
            exact ⟨rfl, hinStep₁⟩
          · obtain ⟨t₁, hlooked', hinStep₁⟩ := hinStep.checkAbort hlooked
            rcases hsent : s₁.send c with ⟨e | token, s₂⟩
            · obtain ⟨t₂, hsent', hinStep₂⟩ := hinStep₁.send hsimilar hsent
              rw [sendEach_of_failed hlooked hsent, sendEach_of_failed hlooked' hsent']
              exact ⟨rfl, hinStep₂⟩
            · obtain ⟨t₂, hsent', hinStep₂⟩ := hinStep₁.send hsimilar hsent
              obtain ⟨hrest, hinStep₃⟩ := ih hinStep₂
              rw [sendEach_of_sent hlooked hsent, sendEach_of_sent hlooked' hsent', hrest]
              exact ⟨rfl, hinStep₃⟩

theorem commit (hinStep : s.InStep R t) (hsimilar : Service.Similar R) (tokens : List Token) :
    (s.commit tokens).1 = (t.commit tokens).1 ∧
      (s.commit tokens).2.InStep R (t.commit tokens).2 := by
  obtain @⟨service, reports, total, hcounts, hreported, hrelated⟩ := hinStep
  rcases commit_cases s.writer tokens with hnothing | hlist
  · rw [hnothing s rfl, hnothing (s.recast service reports total) rfl]
    exact ⟨rfl, .intro hcounts hreported hrelated⟩
  · obtain ⟨hsame, hrelated'⟩ := hsimilar hrelated
      (.putBlockList (tokens.filterMap Token.blockId?) s.settings.leaseId)
    rw [hlist s rfl, hlist (s.recast service reports total) rfl, hsame]
    exact ⟨rfl, .intro hcounts hreported hrelated'⟩

end Session.InStep

end

/-! ## Chunks that write the same -/

section

variable {σ : Type} [Service σ]

/-- The mark of the last chunk makes no difference to what is sent. -/
theorem Session.send_congr {c d : Chunk} (hsame : c.patch = d.patch) (s : Session σ) :
    s.send c = s.send d := by
  obtain ⟨offset, payload, isLast⟩ := c
  obtain ⟨offset', payload', isLast'⟩ := d
  cases hsame
  obtain ⟨settings, service, writer, watch, reports, abort, total, completed⟩ := s
  have hcheck : writer.check ⟨offset, payload, isLast⟩ =
      writer.check ⟨offset, payload, isLast'⟩ := by cases writer <;> rfl
  rw [send, send, hcheck]
  cases writer.check ⟨offset, payload, isLast'⟩ with
  | error e => rfl
  | ok _ =>
      cases writer with
      | block envelope =>
          dsimp only [Writer.request, Writer.accept, Chunk.length]
          rcases Session.deliver offset (.putBlock _ _) _ with ⟨_ | _, _⟩ <;> rfl
      | page envelope chained ifMatch =>
          dsimp only [Writer.request, Writer.accept, Chunk.length, Chunk.stop]
          rcases Session.deliver offset (.updatePage _ _ _ _) _ with ⟨_ | _, _⟩ <;> rfl
      | append envelope maxSize next =>
          dsimp only [Writer.request, Writer.accept, Chunk.length]
          rcases Session.deliver offset (.appendBlock _ _ _) _ with ⟨_ | _, _⟩ <;> rfl

theorem sendEach_congr {answers answers' : List (Except UploadError Chunk)}
    (hsame : answers.map (Except.map Chunk.patch) = answers'.map (Except.map Chunk.patch))
    (s : Session σ) : sendEach answers s = sendEach answers' s := by
  induction answers generalizing answers' s with
  | nil =>
      rw [List.map_nil, eq_comm, List.map_eq_nil_iff] at hsame
      rw [hsame]
  | cons answer answers ih =>
      cases answers' with
      | nil => cases hsame
      | cons answer' answers' =>
          obtain ⟨hhead, htail⟩ := List.cons.inj hsame
          match answer, answer' with
          | .error e, .error e' =>
              cases hhead
              rfl
          | .error e, .ok d => cases hhead
          | .ok c, .error e => cases hhead
          | .ok c, .ok d =>
              have hpatch : c.patch = d.patch := Except.ok.inj hhead
              have hoffset : c.offset = d.offset := congrArg Prod.fst hpatch
              have hrest := fun s => ih htail s
              simp only [sendEach, hoffset, Session.send_congr hpatch, hrest]

end

end BlobUpload
