import BlobUpload.Service.Relay

/-! # What a relay can do to a request

A request gets no answer although it was never passed on, or although it was carried out, or it gets
the answer of the service. Faults are used up on the way, but no new ones come. -/

namespace BlobUpload

namespace Fault

/-- Only requests with a property are ever carried out without an answer. -/
def LoseOnly (P : Request → Prop) (faults : List Fault) : Prop :=
  ∀ f ∈ faults, f.passedOn = true → ∀ n r, f.hits n r = true → P r

variable {P : Request → Prop}

theorem LoseOnly.tail {f : Fault} {faults : List Fault} (h : LoseOnly P (f :: faults)) :
    LoseOnly P faults := fun g hg => h g (List.mem_cons_of_mem _ hg)

theorem LoseOnly.cons {f : Fault} {faults : List Fault}
    (hhead : f.passedOn = true → ∀ n r, f.hits n r = true → P r) (htail : LoseOnly P faults) :
    LoseOnly P (f :: faults) := by
  intro g hg
  rcases List.mem_cons.1 hg with rfl | hg
  · exact hhead
  · exact htail g hg

theorem hits_of_used {f : Fault} {n : Nat} {r : Request}
    (h : ({ f with times := f.times - 1 } : Fault).hits n r = true) : f.hits n r = true := by
  simp only [hits, Bool.and_eq_true, decide_eq_true_eq] at h ⊢
  exact ⟨⟨⟨Nat.lt_of_lt_of_le h.1.1.1 (Nat.sub_le _ _), h.1.1.2⟩, h.1.2⟩, h.2⟩

theorem LoseOnly.strike {faults : List Fault} (h : LoseOnly P faults) (n : Nat) (r : Request) :
    LoseOnly P (strike n r faults).2 ∧
      ∀ f, (Fault.strike n r faults).1 = some f → f.passedOn = true → P r := by
  induction faults with
  | nil => exact ⟨h, nofun⟩
  | cons f faults ih =>
      have hhead := h f List.mem_cons_self
      obtain ⟨hrest, hhit⟩ := ih h.tail
      rw [Fault.strike]
      split
      · rename_i hhits
        refine ⟨.cons (fun hlost n r hused => hhead hlost n r (hits_of_used hused)) h.tail, ?_⟩
        intro g hsame hlost
        cases hsame
        exact hhead hlost n r hhits
      · exact ⟨.cons hhead hrest, hhit⟩

end Fault

namespace Relay

variable {σ : Type} [Service σ]

/-- The relay after a request, with the service and the faults that are left. -/
def record (r : Request) (failure : Option ServiceError) (service : σ) (faults : List Fault)
    (relay : Relay σ) : Relay σ :=
  { service, faults, exchanges := relay.exchanges ++ [⟨r, failure⟩] }

/-- What can become of a request. -/
inductive Handles (P : Request → Prop) (r : Request) (relay : Relay σ) :
    Except ServiceError r.Reply → Relay σ → Prop
  | dropped {e : ServiceError} {faults : List Fault} : Fault.LoseOnly P faults →
    Handles P r relay (.error e) (relay.record r (some e) relay.service faults)
  | lost {e : ServiceError} {faults : List Fault} : P r → Fault.LoseOnly P faults →
    Handles P r relay (.error e)
      (relay.record r (some e) (Service.answer r relay.service).2 faults)
  | answered {answer : Except ServiceError r.Reply} {service : σ} {faults : List Fault} :
    Service.answer r relay.service = (answer, service) → Fault.LoseOnly P faults →
    Handles P r relay answer (relay.record r (failure? answer) service faults)

theorem handles_of_answer {P : Request → Prop} {relay relay' : Relay σ} {r : Request}
    {answer : Except ServiceError r.Reply} (h : Fault.LoseOnly P relay.faults)
    (hanswered : Service.answer r relay = (answer, relay')) : Handles P r relay answer relay' := by
  obtain ⟨hrest, hhit⟩ := h.strike relay.exchanges.length r
  suffices hstep : Handles P r relay (relay.answer r).1 (relay.answer r).2 by
    rwa [show relay.answer r = (answer, relay') from hanswered] at hstep
  rw [Relay.answer, resolve]
  rcases hstruck : Fault.strike relay.exchanges.length r relay.faults with ⟨_ | fault, faults⟩
  · rw [hstruck] at hrest
    exact .answered rfl hrest
  · rw [hstruck] at hrest hhit
    cases hlost : fault.passedOn with
    | true =>
        simp only [hlost, if_true]
        exact .lost (hhit fault rfl hlost) hrest
    | false =>
        simp only [hlost, Bool.false_eq_true, if_false]
        exact .dropped hrest

/-- Without faults a request is answered by the service. -/
theorem answer_of_clear {relay : Relay σ} (hclear : relay.faults = []) (r : Request) :
    Service.answer r relay = ((Service.answer r relay.service).1,
      relay.record r (failure? (Service.answer r relay.service).1)
        (Service.answer r relay.service).2 []) := by
  change relay.answer r = _
  rw [answer, resolve, hclear, Fault.strike]
  rfl

end Relay

end BlobUpload
