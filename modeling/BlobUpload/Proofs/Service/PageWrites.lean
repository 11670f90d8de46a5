import BlobUpload.Proofs.Service.Requests
import BlobUpload.Proofs.Service.StagedBlocks
import BlobUpload.Proofs.Session.AcceptedChunks
import Mathlib.Data.List.Perm.Basic

/-! # Writing pages

A page write puts its payload over what was there before, and leaves the rest of the content as it
was. Writes that do not overlap may come in any order. Page writes that are chained each state the
ETag that the one before has answered, which holds as long as nobody else writes. -/

namespace BlobUpload

/-! ## Writing over bytes -/

namespace Bytes

/-- Where the patch is, there is the patch. Elsewhere there is what was there before, and zero bytes
from its end up to the patch. -/
theorem getElem?_overlay (base patch : Bytes) (start i : Nat) :
    (base.overlay start patch)[i]? =
      if start ≤ i ∧ i < start + patch.length then patch[i - start]?
      else if i < base.length then base[i]?
      else if i < start then some 0 else none := by
  simp only [overlay, List.getElem?_append, List.length_take, List.length_replicate,
    List.getElem?_take, List.getElem?_replicate, List.getElem?_drop]
  by_cases hinside : start ≤ i ∧ i < start + patch.length
  · rw [if_pos hinside, if_neg (by omega), if_neg (by omega), if_pos (by omega)]
    congr 1
    omega
  · rw [if_neg hinside]
    by_cases hbefore : i < start
    · by_cases hshort : i < base.length
      · rw [if_pos (by omega), if_pos hbefore, if_pos hshort]
      · rw [if_neg (by omega), if_pos (by omega), if_pos (by omega), if_neg hshort, if_pos hbefore]
    · rw [if_neg (by omega), if_neg (by omega), if_neg (by omega), if_neg hbefore]
      by_cases hshort : i < base.length
      · rw [if_pos hshort]
        congr 1
        omega
      · rw [if_neg hshort, List.getElem?_eq_none (by omega)]

end Bytes

/-! ## Chunks that are pages -/

/-- The payload is what the pages from `first` to `last` hold. -/
structure Bytes.Fills (payload : Bytes) (first last : Nat) : Prop where
  start : first % pageSize = 0
  stop : (last + 1) % pageSize = 0
  le : first ≤ last
  length : last - first + 1 = payload.length

namespace Chunk

/-- The chunk holds whole pages, at least one, and begins where a page begins. -/
def Paged (c : Chunk) : Prop :=
  c.offset % pageSize = 0 ∧ c.length % pageSize = 0 ∧ c.payload ≠ []

/-- What pages a chunk is written to. -/
theorem Paged.fills {c : Chunk} (hpaged : c.Paged) : c.payload.Fills c.offset (c.stop - 1) := by
  obtain ⟨hoffset, hlength, hsome⟩ := hpaged
  have hpos : 0 < c.length := List.length_pos_iff.2 hsome
  have hstop : c.stop = c.offset + c.length := rfl
  have hlast : c.stop - 1 + 1 = c.stop := by omega
  refine ⟨hoffset, ?_, by omega, ?_⟩
  · rw [hlast, hstop, Nat.add_mod, hoffset, hlength]
    rfl
  · change c.stop - 1 - c.offset + 1 = c.length
    omega

end Chunk

/-- Whole pages are cut into whole pages. -/
theorem Cutter.paged_of_mem_pieces {k : Cutter} {data : Bytes} (hoffset : k.offset % pageSize = 0)
    (hsize : k.chunkSize % pageSize = 0) (hwhole : data.length % pageSize = 0) {c : Chunk}
    (hc : c ∈ k.pieces data) : c.Paged := by
  obtain ⟨i, hinside, hstart, hpayload⟩ := mem_pieces hc
  rw [max_chunkSize] at hstart
  have hstep : pageSize ∣ i * k.chunkSize :=
    Nat.dvd_mul_left_of_dvd (Nat.dvd_of_mod_eq_zero hsize) i
  have hrest : pageSize ∣ data.length - i * k.chunkSize :=
    Nat.dvd_sub (Nat.dvd_of_mod_eq_zero hwhole) hstep
  have hlength : c.length = min k.chunkSize (data.length - i * k.chunkSize) := by
    rw [Chunk.length, hpayload, Bytes.slice_nth, List.take_length, max_chunkSize, List.length_take,
      List.length_drop]
  refine ⟨?_, ?_, ?_⟩
  · rw [hstart]
    exact Nat.mod_eq_zero_of_dvd (Nat.dvd_add (Nat.dvd_of_mod_eq_zero hoffset) hstep)
  · rw [hlength]
    rcases Nat.le_total k.chunkSize (data.length - i * k.chunkSize) with hfull | hlast
    · rwa [Nat.min_eq_left hfull]
    · rw [Nat.min_eq_right hlast]
      exact Nat.mod_eq_zero_of_dvd hrest
  · rw [hpayload, Bytes.slice_nth_ne_nil_iff, List.take_length]
    exact hinside

/-- A writer of pages accepts chunks that are pages. -/
theorem Writer.check_page {c : Chunk} (hpaged : c.Paged) (e : Envelope) (chained : Bool)
    (ifMatch : Option String) : (Writer.page e chained ifMatch).check c = .ok () := by
  obtain ⟨hoffset, hlength, hsome⟩ := hpaged
  have hpos : c.length ≠ 0 := mt List.eq_nil_of_length_eq_zero hsome
  simp only [check, violation?, hoffset, hlength, hpos, ne_eq, not_true_eq_false, if_false,
    decide_false, Bool.or_self, Bool.false_eq_true]

/-! ## A blob whose pages are written -/

namespace Blob

/-- The blob after a request has written over some of its pages. -/
def paint (b : Blob) (patch : Nat × Bytes) : Blob :=
  { b.replace (b.content.overlay patch.1 patch.2) with calls := b.calls.count .updatePage }

def paintAll (b : Blob) (patches : List (Nat × Bytes)) : Blob := patches.foldl paint b

section

variable {b : Blob} {e : Envelope} {c : Chunk}

/-- Of a payload that fills its pages only the ETag is checked. -/
theorem checkPages_of_fills {payload : Bytes} {first last : Nat} (hfills : payload.Fills first last)
    (b : Blob) (ifMatch : Option String) :
    b.checkPages first last payload ifMatch =
      match ifMatch with
      | some expected => if expected ≠ b.etag then .error (.staleETag expected) else .ok ()
      | none => .ok () := by
  obtain ⟨hstart, hstop, hle, hlength⟩ := hfills
  unfold checkPages
  exact (if_neg (by simp [hstart, hstop, hle])).trans (if_neg (not_not_intro hlength))

theorem answer_updatePage_of_check {body : Body} {first last : Nat} {ifMatch : Option String}
    (hchecked : b.check body = .ok ())
    (hpages : b.checkPages first last body.payload ifMatch = .ok ()) :
    Service.answer (.updatePage first last body ifMatch) b =
      (.ok (etagOf (b.revision + 1)), b.paint (first, body.payload)) := by
  have hchecked' : ({ b with calls := b.calls.count .updatePage } : Blob).check body = .ok () :=
    hchecked
  have hpages' : ({ b with calls := b.calls.count .updatePage } : Blob).checkPages first last
      body.payload ifMatch = .ok () := hpages
  simp only [Service.answer, answer, perform, Request.method, hchecked', hpages', bind, Except.bind,
    pure, Except.pure]
  rfl

/-- Whole pages are written if the request states the ETag of the blob, or none. -/
theorem answer_updatePage (hadmits : b.Admits e.lease) (hpaged : c.Paged) {ifMatch : Option String}
    (hcurrent : ∀ etag, ifMatch = some etag → etag = b.etag) :
    Service.answer (.updatePage c.offset (c.stop - 1) (e.body c.payload) ifMatch) b =
      (.ok (etagOf (b.revision + 1)), b.paint c.patch) := by
  refine answer_updatePage_of_check (check_body hadmits c.payload) ?_
  refine (checkPages_of_fills hpaged.fills b ifMatch).trans ?_
  cases ifMatch with
  | none => rfl
  | some etag => exact if_neg (not_not_intro (hcurrent etag rfl))

/-- Pages that state another ETag than that of the blob are turned down, and nothing is written. -/
theorem answer_updatePage_of_stale (hadmits : b.Admits e.lease) (hpaged : c.Paged) {etag : String}
    (hstale : etag ≠ b.etag) :
    Service.answer (.updatePage c.offset (c.stop - 1) (e.body c.payload) (some etag)) b =
      (.error (.condition (Rejection.staleETag etag).message),
        { b with calls := b.calls.count .updatePage }) := by
  have hchecked : ({ b with calls := b.calls.count .updatePage } : Blob).check (e.body c.payload) =
      .ok () := check_body (b := { b with calls := b.calls.count .updatePage }) hadmits c.payload
  have hrefused : ({ b with calls := b.calls.count .updatePage } : Blob).checkPages c.offset
      (c.stop - 1) (e.body c.payload).payload (some etag) = .error (.staleETag etag) :=
    (checkPages_of_fills hpaged.fills _ _).trans (if_pos hstale)
  simp only [Service.answer, answer, perform, Request.method, hchecked, hrefused, bind, Except.bind]
  rfl

end

end Blob

/-! ## A service without faults -/

/-- The ETag that a request states. -/
def Request.ifMatch? : Request → Option String
  | .updatePage _ _ _ ifMatch => ifMatch
  | _ => none

/-- The relay has let through these page writes since it was `start`, and nothing else. -/
structure Relay.HasPainted (start : Relay Blob) (patches : List (Nat × Bytes))
    (sent : List Exchange) (relay : Relay Blob) : Prop where
  service : relay.service = start.service.paintAll patches
  clear : relay.faults = []
  exchanges : relay.exchanges = start.exchanges ++ sent
  length : sent.length = patches.length
  written : ∀ x ∈ sent, x.request.method = .updatePage ∧ x.failure = none

section

variable {relay : Relay Blob} {e : Envelope} {c : Chunk}

theorem Relay.hasPainted_nil (hclear : relay.faults = []) : relay.HasPainted [] [] relay :=
  ⟨rfl, hclear, (List.append_nil _).symm, rfl, nofun⟩

/-- A page write in front of others. -/
theorem Relay.HasPainted.cons {start after : Relay Blob} {patch : Nat × Bytes}
    {patches : List (Nat × Bytes)} {r : Request} {sent : List Exchange}
    (hmethod : r.method = .updatePage) (hpainted :
      (start.record r none (start.service.paint patch) []).HasPainted patches sent after) :
    start.HasPainted (patch :: patches) (⟨r, none⟩ :: sent) after := by
  obtain ⟨hservice, hclear, hexchanges, hlength, hwritten⟩ := hpainted
  refine ⟨hservice, hclear, ?_, congrArg (· + 1) hlength, fun x hx => ?_⟩
  · rw [hexchanges, record, List.append_assoc]
    rfl
  · rcases List.mem_cons.1 hx with rfl | hx
    · exact ⟨hmethod, rfl⟩
    · exact hwritten x hx

/-- Whole pages are written if the request states the ETag of the blob, or none. -/
theorem Relay.answer_updatePage (hclear : relay.faults = [])
    (hadmits : relay.service.Admits e.lease) (hpaged : c.Paged) {ifMatch : Option String}
    (hcurrent : ∀ etag, ifMatch = some etag → etag = relay.service.etag) :
    Service.answer (.updatePage c.offset (c.stop - 1) (e.body c.payload) ifMatch) relay =
      (.ok (etagOf (relay.service.revision + 1)),
        relay.record (.updatePage c.offset (c.stop - 1) (e.body c.payload) ifMatch) none
          (relay.service.paint c.patch) []) := by
  rw [Relay.answer_of_clear hclear, Blob.answer_updatePage hadmits hpaged hcurrent]
  rfl

end

/-! ## A session that writes pages -/

/-- The tokens of so many page writes, one after another. -/
def Token.pages (revision n : Nat) : List Token :=
  (List.range n).map fun i => .page (etagOf (revision + 1 + i))

theorem Token.pages_succ (revision n : Nat) :
    pages revision (n + 1) = .page (etagOf (revision + 1)) :: pages (revision + 1) n := by
  rw [pages, List.range_succ_eq_map, List.map_cons, List.map_map, pages]
  congr 1
  apply List.map_congr_left
  intro i _
  simp only [Function.comp_apply, Nat.succ_eq_add_one, Nat.add_assoc, Nat.add_comm i]

/-- The session writes pages under a lease that meets the one of its blob, the next ones if the blob
has this ETag. -/
structure Session.Pages (e : Envelope) (ifMatch : Option String) (s : Session (Relay Blob)) :
    Prop where
  writer : s.writer = .page e true ifMatch
  clear : s.service.faults = []
  admits : s.service.service.Admits e.lease

namespace Session

variable {s : Session (Relay Blob)} {e : Envelope} {ifMatch : Option String}

/-- Pages are all written if the first request states the ETag of the blob, or none. Each of the
others states the ETag that the one before it has answered. -/
theorem Pages.writes (hpages : s.Pages e ifMatch) {cs : List Chunk} (hpaged : ∀ c ∈ cs, c.Paged)
    (hcurrent : ∀ etag, ifMatch = some etag → cs ≠ [] → etag = s.service.service.etag) :
    ∃ t sent, s.Writes cs (Token.pages s.service.service.revision cs.length) t ∧
      s.service.HasPainted (cs.map Chunk.patch) sent t.service ∧ t.writer.blobType = .page ∧
      sent.map (·.request.ifMatch?) = (ifMatch ::
        (Token.pages s.service.service.revision cs.length).map Token.etag?).take cs.length := by
  induction cs generalizing s ifMatch with
  | nil =>
      exact ⟨s, [], .nil, Relay.hasPainted_nil hpages.clear, by rw [hpages.writer]; rfl, rfl⟩
  | cons c cs ih =>
      obtain ⟨hwriter, hclear, hadmits⟩ := hpages
      have hanswered := Relay.answer_updatePage hclear hadmits (hpaged c List.mem_cons_self)
        fun etag hsame => hcurrent etag hsame (List.cons_ne_nil c cs)
      let s' : Session (Relay Blob) := { s with
        service := s.service.record ((Writer.page e true ifMatch).request c) none
          (s.service.service.paint c.patch) []
        writer := .page e true (some (etagOf (s.service.service.revision + 1))) }
      have hpages' : (s'.advance c.length).Pages e
          (some (etagOf (s.service.service.revision + 1))) :=
        ⟨writer_advance _ _, by rw [service_advance]; rfl, by rw [service_advance]; exact hadmits⟩
      obtain ⟨t, sent, hwritten, hpainted, htype, hlinked⟩ := ih hpages'
        (fun d hd => hpaged d (List.mem_cons_of_mem c hd))
        (fun etag hsame _ => by rw [service_advance, ← Option.some.inj hsame]; rfl)
      rw [service_advance] at hwritten hpainted hlinked
      obtain ⟨settings, service, w, watch, reports, abort, total, completed⟩ := s
      obtain rfl : w = .page e true ifMatch := hwriter
      have hwhole := Writes.cons (c := c)
        (s := ⟨settings, service, .page e true ifMatch, watch, reports, abort, total, completed⟩)
        (Writer.check_page (hpaged c List.mem_cons_self) e true ifMatch) hanswered hwritten
      rw [List.length_cons, Token.pages_succ]
      exact ⟨t, _, hwhole, hpainted.cons rfl, htype, congrArg (ifMatch :: ·) hlinked⟩

end Session

end BlobUpload
