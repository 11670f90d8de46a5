import BlobUpload.Proofs.Upload.Dispatch
import BlobUpload.Service.Relay

/-! # The life of an upload

An upload lives through one run. `Lifecycle.Legal` describes the lives in which every phase may
follow the one before it. The first call leaves such a life, which has ended well exactly if the
call has; whatever happens afterwards, every further call is refused and changes nothing. -/

namespace BlobUpload

/-- A life that began idle and in which every phase was allowed to follow the one before. -/
inductive Lifecycle.Legal : Lifecycle → Prop where
  | new : Legal {}
  | advance {life : Lifecycle} {next : Phase} : Legal life →
    life.current.mayAdvanceTo next = true → Legal (life.advance next)

namespace Upload

variable {σ : Type} {u : Upload σ} {source : Source}

/-- An upload that got where it is legally and may still fail. -/
structure Underway (u : Upload σ) : Prop where
  legal : u.life.Legal
  fallible : u.life.current.mayAdvanceTo .failed = true

/-- An ending that may be settled: it ends well only behind a commit. -/
structure Settleable (ending : Ending σ) : Prop where
  underway : ending.2.2.Underway
  committed : ∀ summary, ending.1 = .ok summary → ending.2.2.life.current = .committing

/-- A life that has ended as the result says. -/
structure Settled (result : Except UploadError Summary) (life : Lifecycle) : Prop where
  legal : life.Legal
  done : life.current = .done ↔ ∃ summary, result = .ok summary
  failed : life.current = .failed ↔ ∃ e, result = .error e

/-! ## One phase after another -/

theorem Underway.enter {next : Phase} (hunderway : u.Underway)
    (hallowed : u.life.current.mayAdvanceTo next = true)
    (hfallible : next.mayAdvanceTo .failed = true) : (u.enter next).Underway :=
  ⟨hunderway.legal.advance hallowed, hfallible⟩

theorem Underway.resume (hunderway : u.Underway) (s : Session σ) : (u.resume s).Underway :=
  ⟨hunderway.legal, hunderway.fallible⟩

theorem Underway.settleable_error (hunderway : u.Underway) (e : UploadError) (source : Source) :
    Settleable (.error e, source, u) :=
  ⟨hunderway, nofun⟩

theorem settled_error {life : Lifecycle} (hlegal : life.Legal)
    (hfallible : life.current.mayAdvanceTo .failed = true) (e : UploadError) :
    Settled (.error e) (life.advance .failed) where
  legal := hlegal.advance hfallible
  done := ⟨nofun, nofun⟩
  failed := ⟨fun _ => ⟨e, rfl⟩, fun _ => rfl⟩

/-- An upload is done after a commit, and has failed after anything else. -/
theorem Settleable.settle {ending : Ending σ} (hsettleable : Settleable ending) :
    Settled (settle ending).1 (settle ending).2.2.life := by
  obtain ⟨result, source, u⟩ := ending
  obtain ⟨⟨hlegal, hfallible⟩, hcommitted⟩ := hsettleable
  cases result with
  | error e => exact settled_error hlegal hfallible e
  | ok summary =>
      have hcommitting : u.life.current = .committing := hcommitted summary rfl
      exact {
        legal := hlegal.advance (by rw [hcommitting]; rfl)
        done := ⟨fun _ => ⟨summary, rfl⟩, fun _ => rfl⟩
        failed := ⟨nofun, nofun⟩ }

/-! ## The ways of a run -/

variable [Service σ]

theorem Underway.settleable_conclude {sent : Except UploadError (List Token)} {s : Session σ}
    (hunderway : u.Underway) (hsending : u.life.current.mayAdvanceTo .committing = true) :
    Settleable (u.conclude sent source s) := by
  have hcommitting : (u.enter .committing).Underway := hunderway.enter hsending rfl
  cases sent with
  | error e => exact (hunderway.resume s).settleable_error e source
  | ok tokens =>
      rcases hcommit : s.commit tokens with ⟨e | etag, s'⟩
      · rw [conclude_of_uncommitted hcommit]
        exact (hcommitting.resume s').settleable_error e source
      · rw [conclude_of_committed hcommit]
        exact ⟨hcommitting.resume s', fun _ _ => rfl⟩

theorem Underway.settleable_runSequential (hunderway : u.Underway)
    (hsplitting : u.life.current = .splitting) (length : Option Nat) :
    Settleable (u.runSequential source length) := by
  rw [runSequential_eq]
  exact (hunderway.enter (by rw [hsplitting]; rfl) rfl).settleable_conclude rfl

theorem Underway.settleable_runParallel (hunderway : u.Underway)
    (hsplitting : u.life.current = .splitting) (schedule : List Pool.Action) (length : Nat) :
    Settleable (u.runParallel schedule source length) := by
  rw [runParallel]
  split
  · exact hunderway.settleable_error _ _
  · exact (hunderway.enter (by rw [hsplitting]; rfl) rfl).settleable_conclude rfl

theorem Underway.settleable_runSinglePut (hunderway : u.Underway)
    (hsplitting : u.life.current = .splitting) (length : Nat) :
    Settleable (u.runSinglePut source length) := by
  have hsending : (u.enter .sequential).Underway := hunderway.enter (by rw [hsplitting]; rfl) rfl
  rw [runSinglePut]
  split
  · exact (hsending.resume _).settleable_error _ _
  · exact ⟨(hsending.enter rfl rfl).resume _, fun _ _ => rfl⟩

theorem Way.settleable {c : Call} {ending : Ending σ} (hway : Way source u c ending)
    (hunderway : u.Underway) (hsplitting : u.life.current = .splitting) : Settleable ending := by
  cases hway with
  | unmeasured => exact hunderway.settleable_error _ _
  | misfit => exact hunderway.settleable_error _ _
  | unseekable => exact hunderway.settleable_error _ _
  | whole => exact hunderway.settleable_runSinglePut hsplitting _
  | chunks => exact hunderway.settleable_runSequential hsplitting _
  | workers => exact hunderway.settleable_runParallel hsplitting _ _

/-! ## Calls -/

theorem call_of_invalid {e : UploadError} (hidle : u.life.current = .idle)
    (hinvalid : u.settings.validate = .error e) (source : Source) (c : Call) :
    u.call source c = (.error e, source, (u.enter .splitting).enter .failed) := by
  cases c with
  | seekable schedule => exact start_of_invalid hidle hinvalid
  | stream => exact start_of_invalid hidle hinvalid

theorem call_of_run (hrun : u.life.current ≠ .idle) (source : Source) (c : Call) :
    u.call source c = (.error (.violation (.alreadyRun u.life.current)), source, u) := by
  cases c with
  | seekable schedule => exact if_pos hrun
  | stream => exact if_pos hrun

theorem settled_call (hnew : u.life = {}) (source : Source) (c : Call) :
    Settled (u.call source c).1 (u.call source c).2.2.life := by
  have hidle : u.life.current = .idle := by rw [hnew]
  have hlegal : u.life.Legal := by rw [hnew]; exact .new
  have hsplitting : (u.enter .splitting).Underway := ⟨hlegal.advance (by rw [hidle]; rfl), rfl⟩
  cases hvalid : u.settings.validate with
  | error e =>
      rw [call_of_invalid hidle hvalid]
      exact settled_error hsplitting.legal hsplitting.fallible e
  | ok _ =>
      obtain ⟨ending, hsettled, hway⟩ := way_call hidle hvalid source c
      rw [hsettled]
      exact (hway.settleable hsplitting rfl).settle

/-- A life that is settled is over. -/
theorem Settled.ne_idle {result : Except UploadError Summary} {life : Lifecycle}
    (hsettled : Settled result life) : life.current ≠ .idle := by
  cases result with
  | ok summary => rw [hsettled.done.2 ⟨summary, rfl⟩]; decide
  | error e => rw [hsettled.failed.2 ⟨e, rfl⟩]; decide

/-- What may happen to an upload. -/
inductive Occasion (σ : Type) where
  /-- Somebody calls it. -/
  | called (source : Source) (c : Call)
  /-- Others use its service or raise its abort flag. -/
  | meanwhile (service : σ) (abort : Abort)

/-- An upload after what has happened to it, the first occasion first. -/
def after (u : Upload σ) : List (Occasion σ) → Upload σ
  | [] => u
  | .called source c :: rest => (u.call source c).2.2.after rest
  | .meanwhile service abort :: rest => { u with service, abort }.after rest

/-- Nothing that happens to an upload after its run changes its phase. -/
theorem life_after (hrun : u.life.current ≠ .idle) (occasions : List (Occasion σ)) :
    (u.after occasions).life = u.life := by
  induction occasions generalizing u with
  | nil => rfl
  | cons occasion rest ih =>
      cases occasion with
      | called source c =>
          rw [after, call_of_run hrun]
          exact ih hrun
      | meanwhile service abort => exact ih (u := { u with service, abort }) hrun

/-- The first call of an upload goes through legal phases only and ends as its result says, and an
invalid upload touches neither source nor service. Whatever happens afterwards, each further call is
refused and leaves its source and the upload as they are. -/
theorem lives_once (hnew : u.life = {}) (source : Source) (c : Call) :
    Settled (u.call source c).1 (u.call source c).2.2.life ∧
    (∀ e, u.settings.validate = .error e →
      u.call source c = (.error e, source, (u.enter .splitting).enter .failed)) ∧
    ∀ (occasions : List (Occasion σ)) (source' : Source) (c' : Call),
      let later := (u.call source c).2.2.after occasions
      later.life = (u.call source c).2.2.life ∧
      later.call source' c' =
        (.error (.violation (.alreadyRun later.life.current)), source', later) := by
  have hidle : u.life.current = .idle := by rw [hnew]
  have hsettled := settled_call hnew source c
  refine ⟨hsettled, fun e hinvalid => call_of_invalid hidle hinvalid source c, ?_⟩
  intro occasions source' c'
  have hsame := life_after hsettled.ne_idle occasions
  exact ⟨hsame, call_of_run (by rw [hsame]; exact hsettled.ne_idle) source' c'⟩

/-- Three bytes for one request, over a service that loses its answer. -/
def lostUpload : Upload (Relay Blob) where
  settings := { blobType := .block, chunkSize := 4, maxRetries := 0 }
  service := { service := {}, faults := [{ error := .transport "reset" }] }

/-- The service fails the first call; a second one that finds the service in order is refused and
sends nothing. -/
theorem lives_once_lostUpload :
    let first := lostUpload.call { data := [1, 2, 3] } .stream
    let second := (first.2.2.after [.meanwhile { service := {} } {}]).call
      { data := [4] } (.seekable [])
    first.2.2.life = ⟨.failed, [.sequential, .splitting, .idle]⟩ ∧ first.2.2.life.Legal ∧
      second.1 = .error (.violation (.alreadyRun .failed)) ∧ second.2.1.reads = 0 ∧
      second.2.1.seeks = 0 ∧ second.2.2.service.exchanges = [] := by
  obtain ⟨hsettled, -, hrefused⟩ := lives_once (u := lostUpload) rfl { data := [1, 2, 3] } .stream
  obtain ⟨hsame, hsecond⟩ :=
    hrefused [.meanwhile { service := {} } {}] { data := [4] } (.seekable [])
  have hlife : (lostUpload.call { data := [1, 2, 3] } .stream).2.2.life =
      ⟨.failed, [.sequential, .splitting, .idle]⟩ := by decide +kernel
  refine ⟨hlife, hsettled.legal, ?_⟩
  rw [hsecond, hsame, hlife]
  exact ⟨rfl, rfl, rfl, rfl⟩

end Upload

end BlobUpload
