import BlobUpload.Proofs.Service.Equivalence
import BlobUpload.Proofs.Service.Requests

/-! # Faults that pass

A fault passes if the request that it hits may be sent again and there are retries left. A chunk
that is sent through such faults is written as if there were none: what is sent once more is either
not carried out yet or makes no difference. -/

namespace BlobUpload

/-- The same error, except perhaps for the answer to the last attempt. -/
inductive UploadError.Alike : UploadError → UploadError → Prop
  | same (e : UploadError) : Alike e e
  | exhausted (offset attempts : Nat) (cause cause' : ServiceError) :
    Alike (.retriesExhausted offset attempts cause) (.retriesExhausted offset attempts cause')

/-- Both end well with the same result, or badly with errors that are alike. -/
inductive Matches {α : Type} : Except UploadError α → Except UploadError α → Prop
  | ok (a : α) : Matches (.ok a) (.ok a)
  | error {e e' : UploadError} : e.Alike e' → Matches (.error e) (.error e')

theorem Matches.refl {α : Type} (x : Except UploadError α) : Matches x x := by
  cases x with
  | ok a => exact .ok a
  | error e => exact .error (.same e)

theorem Matches.map {α β : Type} {x y : Except UploadError α} (h : Matches x y) (f : α → β) :
    Matches (x.map f) (y.map f) := by
  cases h with
  | ok a => exact .ok (f a)
  | error hlike => exact .error hlike

namespace Relay

variable {σ : Type} [Service σ]

/-! ## The faults that are met -/

/-- The faults that hit requests which are sent one after another, each with its request. -/
def strikes (relay : Relay σ) : List Request → List (Request × Fault)
  | [] => []
  | r :: rs =>
    ((Fault.strike relay.exchanges.length r relay.faults).1.map (r, ·)).toList ++
      (Service.answer r relay).2.strikes rs

/-- Among requests that are sent one after another only those for data are hit, no request more
often than it is sent again, and none loses its answer that may not be carried out twice. An upload
sends each chunk by a request of its own, which names the block, the first page or, except for the
first append, the length of the blob before it. So `within` counts the faults that hit one chunk. -/
structure Transient (retries : Nat) (relay : Relay σ) (rs : List Request) : Prop where
  retryable : ∀ hit ∈ relay.strikes rs, hit.2.error.isRetryable = true
  data : ∀ hit ∈ relay.strikes rs, hit.1.method ≠ .putBlockList
  lost : ∀ hit ∈ relay.strikes rs, hit.2.passedOn = true →
    hit.1.method = .putBlock ∨ hit.1.method = .putBlob
  within : ∀ r, ((relay.strikes rs).map Prod.fst).count r ≤ retries

/-- Only requests that are hit at all can be hit too often. -/
theorem transient_iff {retries : Nat} {relay : Relay σ} {rs : List Request} :
    relay.Transient retries rs ↔
      (∀ hit ∈ relay.strikes rs, hit.2.error.isRetryable = true ∧ hit.1.method ≠ .putBlockList ∧
        (hit.2.passedOn = true → hit.1.method = .putBlock ∨ hit.1.method = .putBlob)) ∧
      ∀ r ∈ (relay.strikes rs).map Prod.fst,
        ((relay.strikes rs).map Prod.fst).count r ≤ retries := by
  constructor
  · intro h
    exact ⟨fun hit hmem => ⟨h.retryable hit hmem, h.data hit hmem, h.lost hit hmem⟩,
      fun r _ => h.within r⟩
  · rintro ⟨heach, hwithin⟩
    refine ⟨fun hit hmem => (heach hit hmem).1, fun hit hmem => (heach hit hmem).2.1,
      fun hit hmem => (heach hit hmem).2.2, fun r => ?_⟩
    by_cases hmem : r ∈ (relay.strikes rs).map Prod.fst
    · exact hwithin r hmem
    · rw [List.count_eq_zero_of_not_mem hmem]
      exact Nat.zero_le _

instance (retries : Nat) (relay : Relay σ) (rs : List Request) :
    Decidable (relay.Transient retries rs) := decidable_of_iff _ transient_iff.symm

/-- The requests that the relay has recorded since it was `before`. -/
def sentSince (before after : Relay σ) : List Request :=
  (after.exchanges.drop before.exchanges.length).map Exchange.request

theorem sentSince_after (relay : Relay σ) (rs : List Request) :
    relay.sentSince (Service.after relay rs) = rs := by
  obtain ⟨sent, hrecorded, hrequests, -⟩ := exchanges_after relay rs
  rw [sentSince, hrecorded, List.drop_left, hrequests]

theorem strikes_append (relay : Relay σ) (rs rs' : List Request) :
    relay.strikes (rs ++ rs') = relay.strikes rs ++ (Service.after relay rs).strikes rs' := by
  induction rs generalizing relay with
  | nil => rfl
  | cons r rs ih =>
      rw [List.cons_append, strikes, strikes, ih, List.append_assoc]
      rfl

theorem Transient.append {retries : Nat} {relay : Relay σ} {rs rs' : List Request}
    (h : relay.Transient retries (rs ++ rs')) :
    relay.Transient retries rs ∧ (Service.after relay rs).Transient retries rs' := by
  obtain ⟨hretryable, hdata, hlost, hwithin⟩ := h
  simp only [strikes_append, List.mem_append, List.map_append, List.count_append] at *
  refine ⟨⟨fun hit hmem => hretryable hit (.inl hmem), fun hit hmem => hdata hit (.inl hmem),
    fun hit hmem => hlost hit (.inl hmem), fun r => ?_⟩,
    ⟨fun hit hmem => hretryable hit (.inr hmem), fun hit hmem => hdata hit (.inr hmem),
    fun hit hmem => hlost hit (.inr hmem), fun r => ?_⟩⟩
  · exact Nat.le_trans (Nat.le_add_right _ _) (hwithin r)
  · exact Nat.le_trans (Nat.le_add_left _ _) (hwithin r)

/-- Only requests that are sent are hit. -/
theorem mem_of_mem_strikes {relay : Relay σ} {rs : List Request} {hit : Request × Fault}
    (h : hit ∈ relay.strikes rs) : hit.1 ∈ rs := by
  induction rs generalizing relay with
  | nil => cases h
  | cons r rs ih =>
      rw [strikes, List.mem_append] at h
      rcases h with hhead | hlater
      · obtain ⟨f, -, rfl⟩ := Option.map_eq_some_iff.1 (Option.mem_toList.1 hhead)
        exact List.mem_cons_self
      · exact List.mem_cons_of_mem _ (ih hlater)

/-- A fault answers a request, which may be passed on all the same, or the service does. -/
theorem answer_cases (relay : Relay σ) (r : Request) :
    (∃ f, relay.strikes [r] = [(r, f)] ∧ (Service.answer r relay).1 = .error f.error ∧
      (Service.answer r relay).2.service =
        if f.passedOn then (Service.answer r relay.service).2 else relay.service) ∨
    relay.strikes [r] = [] ∧ (Service.answer r relay).1 = (Service.answer r relay.service).1 ∧
      (Service.answer r relay).2.service = (Service.answer r relay.service).2 := by
  change (∃ f, _ ∧ (relay.answer r).1 = _ ∧ (relay.answer r).2.service = _) ∨
    _ ∧ (relay.answer r).1 = _ ∧ (relay.answer r).2.service = _
  rw [answer, resolve, strikes]
  rcases Fault.strike relay.exchanges.length r relay.faults with ⟨_ | f, faults⟩
  · exact .inr ⟨rfl, rfl, rfl⟩
  · exact .inl ⟨f, rfl, rfl, rfl⟩

/-- No list of blocks is hit. -/
theorem Transient.answer_list {retries : Nat} {relay : Relay σ} {r : Request}
    (h : relay.Transient retries [r]) (hlist : r.method = .putBlockList) :
    Service.answer r relay.service =
      ((Service.answer r relay).1, (Service.answer r relay).2.service) := by
  rcases relay.answer_cases r with ⟨f, hhit, -⟩ | ⟨-, hsame, hservice⟩
  · exact absurd hlist (h.data (r, f) (hhit ▸ List.mem_cons_self))
  · exact Prod.ext hsame.symm hservice.symm

end Relay

/-! ## One request until it is answered -/

section

variable {σ : Type} [Service σ]

/-- `L` holds between any two attempts to send the request: what the service refuses, or carries out
although it may be sent again, does not change it. -/
structure Persists (L : σ → Prop) (r : Request) : Prop where
  refused : ∀ s e, L s → (Service.answer r s).1 = .error e → L (Service.answer r s).2
  lost : r.method = .putBlock ∨ r.method = .putBlob → ∀ s, L s → L (Service.answer r s).2

/-- In some state in which `L` holds, the service itself refuses the request for now. -/
def Refuses (L : σ → Prop) (r : Request) : Prop :=
  ∃ s e, L s ∧ (Service.answer r s).1 = .error e ∧ e.isRetryable = true

/-- How a request ends that is sent until it is answered, and in which state of the service behind
the relay, if `L` holds between the attempts. There is a `reason` to give up. -/
inductive Outcome (L : σ → Prop) (r : Request) (offset attempts : Nat) (reason : Prop) :
    Except UploadError r.Reply → σ → Prop
  | answered {s t : σ} {reply : r.Reply} : L s → Service.answer r s = (.ok reply, t) →
    Outcome L r offset attempts reason (.ok reply) t
  | refused {s t : σ} {message : String} : L s →
    Service.answer r s = (.error (.condition message), t) →
    Outcome L r offset attempts reason (.error (.condition offset message)) t
  | exhausted {t : σ} {cause : ServiceError} : L t → reason →
    Outcome L r offset attempts reason (.error (.retriesExhausted offset attempts cause)) t

theorem Outcome.imp {L : σ → Prop} {r : Request} {offset attempts : Nat} {reason reason' : Prop}
    {answer : Except UploadError r.Reply} {t : σ}
    (houtcome : Outcome L r offset attempts reason answer t) (h : reason → reason') :
    Outcome L r offset attempts reason' answer t := by
  cases houtcome with
  | answered hholds hown => exact .answered hholds hown
  | refused hholds hown => exact .refused hholds hown
  | exhausted hholds hgiven => exact .exhausted hholds (h hgiven)

theorem isRetryable_of_ne_condition {e : ServiceError} (h : ∀ message, e ≠ .condition message) :
    e.isRetryable = true := by
  cases e with
  | condition message => exact absurd rfl (h message)
  | _ => rfl

theorem deliver_of_retryable {offset retries sent : Nat} {r : Request} {s t : σ} {e : ServiceError}
    (h : Service.answer r s = (.error e, t)) (hagain : e.isRetryable = true) :
    deliver offset r retries sent s =
      match retries with
      | 0 => (.error (.retriesExhausted offset (sent + 1) e), t)
      | retries + 1 => deliver offset r retries (sent + 1) t := by
  cases e with
  | condition => cases hagain
  | _ => cases retries <;> rw [deliver, h]

section

variable {L : σ → Prop} {r : Request} {relay relay' : Relay σ} {budget : Nat}

/-- One attempt through faults that pass: the service answers, or the request may be sent again. -/
theorem Relay.Transient.attempt (h : relay.Transient budget [r]) (hpersists : Persists L r)
    (hstart : L relay.service) :
    Service.answer r relay.service =
        ((Service.answer r relay).1, (Service.answer r relay).2.service) ∨
    ∃ e, (Service.answer r relay).1 = .error e ∧ e.isRetryable = true ∧
      L (Service.answer r relay).2.service ∧ (relay.strikes [r]).length = 1 := by
  rcases relay.answer_cases r with ⟨f, hhit, hfailed, hservice⟩ | ⟨-, hsame, hservice⟩
  · have hmem : (r, f) ∈ relay.strikes [r] := hhit ▸ List.mem_cons_self
    refine .inr ⟨f.error, hfailed, h.retryable _ hmem, ?_, by rw [hhit]; rfl⟩
    rw [hservice]
    split
    · rename_i hpassed
      exact hpersists.lost (h.lost _ hmem hpassed) _ hstart
    · exact hstart
  · exact .inl (Prod.ext hsame.symm hservice.symm)

/-- An attempt that fails for now was refused by the service itself, or it was hit. -/
theorem Relay.Transient.of_failed {e : ServiceError} (h : relay.Transient budget [r])
    (hpersists : Persists L r) (hstart : L relay.service)
    (hanswered : Service.answer r relay = (.error e, relay'))
    (hagain : ∀ message, e ≠ .condition message) :
    L relay'.service ∧ (Refuses L r ∨ (relay.strikes [r]).length = 1) := by
  rcases h.attempt hpersists hstart with hown | ⟨e, -, -, hkept, hhit⟩
  · rw [hanswered] at hown
    have hfailed := congrArg Prod.fst hown
    have hafter := hpersists.refused _ _ hstart hfailed
    rw [hown] at hafter
    exact ⟨hafter, .inl ⟨_, _, hstart, hfailed, isRetryable_of_ne_condition hagain⟩⟩
  · rw [hanswered] at hkept
    exact ⟨hkept, .inr hhit⟩

end

/-- A request is carried through faults that pass. It is only given up if the service itself has
refused it, or if more attempts are hit than there are retries. -/
theorem deliver_through (offset : Nat) (r : Request) (retries sent : Nat) (relay : Relay σ) :
    ∃ n, (deliver offset r retries sent relay).2 = Service.after relay (List.replicate n r) ∧
      ∀ (L : σ → Prop) budget, Persists L r → L relay.service →
        relay.Transient budget (List.replicate n r) →
        Outcome L r offset (sent + retries + 1)
          (Refuses L r ∨ retries < (relay.strikes (List.replicate n r)).length)
          (deliver offset r retries sent relay).1
          (deliver offset r retries sent relay).2.service := by
  have honce : ∀ {s t : Relay σ} {answer : Except ServiceError r.Reply},
      Service.answer r s = (answer, t) → t = Service.after s (List.replicate 1 r) := by
    intro s t answer hanswered
    rw [List.replicate_one, Service.after_singleton, hanswered]
  fun_induction deliver offset r retries sent relay with
  | case1 retries sent relay reply relay' hanswered =>
      refine ⟨1, honce hanswered, fun L budget hpersists hstart hpasses => ?_⟩
      rcases hpasses.attempt hpersists hstart with hown | ⟨e, hfailed, -⟩
      · rw [hanswered] at hown
        exact .answered hstart hown
      · rw [hanswered] at hfailed
        cases hfailed
  | case2 retries sent relay message relay' hanswered =>
      refine ⟨1, honce hanswered, fun L budget hpersists hstart hpasses => ?_⟩
      rcases hpasses.attempt hpersists hstart with hown | ⟨e, hfailed, hagain, -⟩
      · rw [hanswered] at hown
        exact .refused hstart hown
      · rw [hanswered] at hfailed
        cases hfailed
        cases hagain
  | case3 sent relay cause relay' hagain hanswered =>
      refine ⟨1, honce hanswered, fun L budget hpersists hstart hpasses => ?_⟩
      obtain ⟨hafter, hreason⟩ := hpasses.of_failed hpersists hstart hanswered hagain
      exact .exhausted hafter
        (hreason.imp_right fun hhit => Nat.lt_of_lt_of_eq Nat.zero_lt_one hhit.symm)
  | case4 sent relay cause relay' hagain hanswered retries ih =>
      obtain ⟨n, hservice, houtcome⟩ := ih
      have hnext : Service.after relay [r] = relay' := by rw [Service.after_singleton, hanswered]
      have hsplit : List.replicate (n + 1) r = [r] ++ List.replicate n r := rfl
      refine ⟨n + 1, ?_, fun L budget hpersists hstart hpasses => ?_⟩
      · rw [hsplit, Service.after_append, hnext]
        exact hservice
      rw [hsplit] at hpasses ⊢
      obtain ⟨hfirst, hothers⟩ := hpasses.append
      rw [hnext] at hothers
      obtain ⟨hafter, hreason⟩ := hfirst.of_failed hpersists hstart hanswered hagain
      rw [Relay.strikes_append, List.length_append, hnext,
        show sent + (retries + 1) + 1 = sent + 1 + retries + 1 by omega]
      refine (houtcome L budget hpersists hafter hothers).imp fun hlater => ?_
      rcases hlater, hreason with ⟨hown | hmore, hown' | hhit⟩
      · exact .inl hown
      · exact .inl hown
      · exact .inl hown'
      · exact .inr (by omega)

/-- Faults that pass never hit a request more often than it may be sent again. -/
theorem Relay.Transient.length_strikes_le {relay : Relay σ} {retries n : Nat} {r : Request}
    (h : relay.Transient retries (List.replicate n r)) :
    (relay.strikes (List.replicate n r)).length ≤ retries := by
  have hsame : ∀ q ∈ (relay.strikes (List.replicate n r)).map Prod.fst, r = q := by
    intro q hmem
    obtain ⟨hit, hstruck, rfl⟩ := List.mem_map.1 hmem
    exact (List.eq_of_mem_replicate (mem_of_mem_strikes hstruck)).symm
  have hcount := List.count_eq_length.2 hsame
  rw [List.length_map] at hcount
  exact hcount ▸ h.within r

end

/-! ## One request to a blob -/

namespace Blob

/-- A request that the blob rejects for now is sent as often as it may be, and changes nothing. -/
theorem deliver_of_rejected {r : Request} {b : Blob} {e : ServiceError} (offset retries sent : Nat)
    (hrejected : (Service.answer r b).1 = .error e) (hagain : e.isRetryable = true) :
    ∃ b', deliver offset r retries sent b =
        (.error (.retriesExhausted offset (sent + retries + 1) e), b') ∧ b'.Alike b := by
  have hanswered : Service.answer r b = (.error e, (Service.answer r b).2) := Prod.ext hrejected rfl
  have hkept := alike_of_error hrejected
  induction retries generalizing sent b with
  | zero => exact ⟨_, deliver_of_retryable hanswered hagain, hkept⟩
  | succ retries ih =>
      have hrejected' := (hkept.answer r).1.trans hrejected
      obtain ⟨b', hexhausted, halike⟩ :=
        ih (sent + 1) hrejected' (Prod.ext hrejected' rfl) (alike_of_error hrejected')
      refine ⟨b', ?_, halike.trans hkept⟩
      rw [deliver_of_retryable hanswered hagain]
      simp only [hexhausted]
      rw [show sent + 1 + retries + 1 = sent + (retries + 1) + 1 by omega]

/-- A blob between the attempts of a request, if it was `b` before: as it was, or the block is
staged. -/
def Between (r : Request) (b x : Blob) : Prop :=
  x.Alike b ∨ r.method = .putBlock ∧ x.Alike (Service.answer r b).2

section

variable {r : Request} {b x : Blob}

/-- Between its attempts a request is answered as if it had not been sent yet. -/
theorem Between.answer (h : Between r b x) :
    (Service.answer r x).1 = (Service.answer r b).1 ∧
      (Service.answer r x).2.Alike (Service.answer r b).2 := by
  rcases h with hsame | ⟨hblock, hstaged⟩
  · exact hsame.answer r
  · obtain ⟨hanswer, hafter⟩ := hstaged.answer r
    obtain ⟨hanswer', hafter'⟩ := alike_again hblock b
    exact ⟨hanswer.trans hanswer', hafter.trans hafter'⟩

theorem Between.alike_of_error {e : ServiceError} (h : Between r b x)
    (hrejected : (Service.answer r b).1 = .error e) : x.Alike b := by
  rcases h with hsame | ⟨-, hstaged⟩
  · exact hsame
  · exact hstaged.trans (Blob.alike_of_error hrejected)

theorem persists_between (hchunk : r.method ≠ .putBlob) (b : Blob) : Persists (Between r b) r where
  refused x e h hrejected := by
    have hrejected' := h.answer.1.symm.trans hrejected
    exact .inl ((Blob.alike_of_error hrejected).trans (h.alike_of_error hrejected'))
  lost hagain x h := .inr ⟨hagain.resolve_right hchunk, h.answer.2⟩

/-- A request for a chunk that is sent to a blob through faults that pass ends as it would without
them. -/
theorem deliver_through (offset : Nat) (hchunk : r.method ≠ .putBlob) (retries : Nat)
    (relay : Relay Blob) :
    ∃ n, (deliver offset r retries 0 relay).2 = Service.after relay (List.replicate n r) ∧
      (relay.Transient retries (List.replicate n r) → ∀ b, relay.service.Alike b →
        Matches (deliver offset r retries 0 relay).1 (deliver offset r retries 0 b).1 ∧
        (deliver offset r retries 0 relay).2.service.Alike (deliver offset r retries 0 b).2) := by
  obtain ⟨n, hservice, houtcome⟩ := BlobUpload.deliver_through offset r retries 0 relay
  refine ⟨n, hservice, fun hpasses b halike => ?_⟩
  have houtcome := houtcome _ _ (persists_between hchunk b) (.inl halike) hpasses
  generalize (deliver offset r retries 0 relay).1 = result at houtcome ⊢
  generalize (deliver offset r retries 0 relay).2.service = t at houtcome ⊢
  cases houtcome with
  | answered hbetween hown =>
      obtain ⟨hanswer, hafter⟩ := hbetween.answer
      rw [hown] at hanswer hafter
      rw [deliver_of_answered (t := (Service.answer r b).2) (Prod.ext hanswer.symm rfl)]
      exact ⟨.ok _, hafter⟩
  | refused hbetween hown =>
      obtain ⟨hanswer, hafter⟩ := hbetween.answer
      rw [hown] at hanswer hafter
      rw [deliver_of_condition (t := (Service.answer r b).2) (Prod.ext hanswer.symm rfl)]
      exact ⟨.error (.same _), hafter⟩
  | exhausted hbetween hreason =>
      rcases hreason with ⟨x, e, hheld, hrejected, hagain⟩ | hmore
      · have hrejected' := hheld.answer.1.symm.trans hrejected
        obtain ⟨b', hexhausted, hkept⟩ := deliver_of_rejected offset retries 0 hrejected' hagain
        rw [hexhausted]
        exact ⟨.error (.exhausted _ _ _ _), (hbetween.alike_of_error hrejected').trans hkept.symm⟩
      · exact absurd hpasses.length_strikes_le (Nat.not_le.2 hmore)

end

theorem persists_admits (e : Envelope) (payload : Bytes) :
    Persists (fun b : Blob => b.Admits e.lease) (.putBlob (e.body payload)) where
  refused b failure hadmits hrejected := by
    rw [answer_putBlob hadmits payload] at hrejected
    cases hrejected
  lost _ b hadmits := by
    rw [answer_putBlob hadmits payload]
    exact hadmits

/-- The whole content that is put through faults that pass arrives. -/
theorem deliver_putBlob_through {e : Envelope} (payload : Bytes) (offset retries : Nat)
    (relay : Relay Blob) :
    ∃ n, (deliver offset (.putBlob (e.body payload)) retries 0 relay).2 =
        Service.after relay (List.replicate n (.putBlob (e.body payload))) ∧
      (relay.Transient retries (List.replicate n (.putBlob (e.body payload))) →
        relay.service.Admits e.lease →
        ∃ etag t, deliver offset (.putBlob (e.body payload)) retries 0 relay = (.ok etag, t) ∧
          t.service.content = payload) := by
  obtain ⟨n, hservice, houtcome⟩ :=
    BlobUpload.deliver_through offset (.putBlob (e.body payload)) retries 0 relay
  refine ⟨n, hservice, fun hpasses hadmits => ?_⟩
  have houtcome := houtcome _ _ (persists_admits e payload) hadmits hpasses
  generalize deliver offset (.putBlob (e.body payload)) retries 0 relay = delivered at houtcome ⊢
  obtain ⟨result, t⟩ := delivered
  simp only at houtcome
  generalize hfinal : t.service = b at houtcome
  cases houtcome with
  | answered hadmits hown =>
      rw [answer_putBlob hadmits payload] at hown
      cases hown
      exact ⟨_, t, rfl, congrArg content hfinal⟩
  | refused hadmits hown =>
      rw [answer_putBlob hadmits payload] at hown
      cases hown
  | exhausted hadmits hreason =>
      rcases hreason with ⟨x, failure, hadmits', hrejected, -⟩ | hmore
      · rw [answer_putBlob hadmits' payload] at hrejected
        cases hrejected
      · exact absurd hpasses.length_strikes_le (Nat.not_le.2 hmore)

end Blob

end BlobUpload
