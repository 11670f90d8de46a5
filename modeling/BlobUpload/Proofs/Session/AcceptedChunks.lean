import BlobUpload.Proofs.Session.SendEquations

/-! # Chunks that are written one after another

`Session.Writes` says that the service takes every chunk of a list at its first request. A session
that nobody disturbs sends such a list to its end, and a list that was sent in part goes on behind
that part. -/

namespace BlobUpload

variable {σ : Type} [Service σ]

/-- The chunks are written one after another, each by its first request, and remembered by these
tokens. -/
inductive Session.Writes : List Chunk → Session σ → List Token → Session σ → Prop
  | nil {s : Session σ} : Writes [] s [] s
  | cons {c : Chunk} {cs : List Chunk} {s t : Session σ} {tokens : List Token} {service : σ}
    {reply : (s.writer.request c).Reply} : s.writer.check c = .ok () →
    Service.answer (s.writer.request c) s.service = (.ok reply, service) →
    Writes cs ({ s with service, writer := (s.writer.accept c reply).2 }.advance c.length) tokens
      t →
    Writes (c :: cs) s ((s.writer.accept c reply).1 :: tokens) t

/-! ## Lists that are sent in parts -/

section

variable {as : List (Except UploadError Chunk)} {s t : Session σ}

/-- After the part that was sent comes the rest. -/
theorem sendEach_append_of_ok {tokens : List Token} (hsent : sendEach as s = (.ok tokens, t))
    (bs : List (Except UploadError Chunk)) :
    sendEach (as ++ bs) s = ((sendEach bs t).1.map (tokens ++ ·), (sendEach bs t).2) := by
  fun_induction sendEach as s generalizing tokens with
  | case1 s =>
      cases hsent
      rw [List.nil_append]
      rcases sendEach bs t with ⟨e | rest, s'⟩ <;> rfl
  | case2 => cases hsent
  | case3 => cases hsent
  | case4 => cases hsent
  | case5 c as s s₁ hclear token s₂ hwritten rest s₃ htail ih =>
      cases hsent
      rw [List.cons_append, sendEach_of_sent hclear hwritten, ih htail]
      rcases sendEach bs t with ⟨e | rest', s'⟩ <;> rfl
  | case6 => cases hsent

end

/-! ## Lists that are written -/

namespace Session

variable {cs : List Chunk} {s t : Session σ} {tokens : List Token}

/-- A session that nobody disturbs sends what the service takes. -/
theorem Writes.sendEach (hwritten : s.Writes cs tokens t) (hcalm : s.Undisturbed) :
    BlobUpload.sendEach (cs.map .ok) s = (.ok tokens, t) ∧ t.Undisturbed := by
  induction hwritten with
  | nil => exact ⟨rfl, hcalm⟩
  | @cons c cs s t tokens service reply hfits hanswered _ ih =>
      have hcalm' : ({ s with service, writer := (s.writer.accept c reply).2 } :
          Session σ).Undisturbed := ⟨hcalm.abort, hcalm.watch⟩
      obtain ⟨hrest, hcalm''⟩ := ih (hcalm'.advance c.length)
      have hclear := checkAbort_of_undisturbed hcalm c.offset
      rw [List.map_cons, sendEach_of_sent hclear (send_of_answered hfits hanswered), hrest]
      exact ⟨rfl, hcalm''⟩

/-- All that is written is counted. -/
theorem Writes.completed (hwritten : s.Writes cs tokens t) :
    t.completed = s.completed + (cs.flatMap Chunk.payload).length := by
  induction hwritten with
  | nil => rfl
  | cons _ _ _ ih =>
      rw [ih, completed_advance, List.flatMap_cons, List.length_append, Nat.add_assoc]
      rfl

theorem Writes.length_eq (hwritten : s.Writes cs tokens t) : tokens.length = cs.length := by
  induction hwritten with
  | nil => rfl
  | cons _ _ _ ih => rw [List.length_cons, ih, List.length_cons]

end Session

end BlobUpload
