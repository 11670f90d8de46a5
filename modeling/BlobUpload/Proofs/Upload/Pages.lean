import BlobUpload.Proofs.Pool.AcceptedRequests
import BlobUpload.Proofs.Service.PageWrites
import BlobUpload.Proofs.Upload.Dispatch

/-! # Uploads to page blobs

An upload to a page blob that nobody else writes puts its bytes over the front of the blob, and
leaves what lies behind them. Several workers may write their pages in any order. A single worker
chains its writes, so it fails at the first of them if it is told an ETag that the blob does not
have. -/

namespace BlobUpload

namespace Upload

variable {u : Upload (Relay Blob)} {source : Source} {data : Bytes}

/-- What an upload leaves behind that has written these bytes as pages. -/
structure Paints (u : Upload (Relay Blob)) (data : Bytes) (summary : Summary)
    (sent : List Exchange) (relay : Relay Blob) : Prop where
  /-- The bytes take the place of the front of the blob, and nothing behind them changes. -/
  content : relay.service.content = data ++ u.service.service.content.drop data.length
  exchanges : relay.exchanges = u.service.exchanges ++ sent
  count : sent.length = (data.length + (u.settings.chunkSize - 1)) / u.settings.chunkSize
  written : ∀ x ∈ sent, x.request.method = .updatePage ∧ x.failure = none
  /-- The writes of a single worker state the ETag that they were told, and each behind the first
  one the ETag that the one before it has answered. -/
  chained : u.settings.parallelism = 1 →
    summary.tokens = Token.pages u.service.service.revision sent.length ∧
    sent.map (·.request.ifMatch?) =
      (u.settings.ifMatch :: summary.tokens.map Token.etag?).take sent.length
  unchained : u.settings.parallelism ≠ 1 → ∀ x ∈ sent, x.request.ifMatch? = none

/-- A single worker is told an ETag that the blob does not have, and has something to write. -/
def Outdated (u : Upload (Relay Blob)) (data : Bytes) (etag : String) : Prop :=
  u.settings.parallelism = 1 ∧ u.settings.ifMatch = some etag ∧
    etag ≠ u.service.service.etag ∧ data ≠ []

/-- The ending of an upload whose first page write was turned down. -/
structure Refuses (u : Upload (Relay Blob)) (etag : String) (ending : Ending (Relay Blob)) :
    Prop where
  result : ending.1 = .error (.condition 0 (Rejection.staleETag etag).message)
  content : ending.2.2.service.service.content = u.service.service.content
  exchanges : ∃ x, ending.2.2.service.exchanges = u.service.exchanges ++ [x] ∧
    x.request.method = .updatePage

/-- How an upload of pages ends. -/
structure Pages (u : Upload (Relay Blob)) (data : Bytes) (ending : Ending (Relay Blob)) :
    Prop where
  refused : ∀ etag, u.Outdated data etag → Refuses u etag ending
  written : (∀ etag, ¬u.Outdated data etag) → ∃ summary sent, ending.1 = .ok summary ∧
    Paints u data summary sent ending.2.2.service

theorem Pages.settle {ending : Ending (Relay Blob)} (h : Pages u data ending) :
    Pages u data (settle ending) := by
  refine ⟨fun etag houtdated => ?_, fun hcurrent => ?_⟩
  · obtain ⟨hresult, hcontent, hexchanges⟩ := h.refused etag houtdated
    exact ⟨(result_settle ending).trans hresult, by rwa [service_settle], by rwa [service_settle]⟩
  · simpa only [service_settle, result_settle] using h.written hcurrent

/-- How an upload of pages ends does not depend on the phase it is in. -/
theorem Pages.of_enter (next : Phase) {ending : Ending (Relay Blob)}
    (h : Pages (u.enter next) data ending) : Pages u data ending := by
  refine ⟨fun etag houtdated => ?_, fun hcurrent => ?_⟩
  · obtain ⟨hresult, hcontent, hexchanges⟩ := h.refused etag houtdated
    exact ⟨hresult, hcontent, hexchanges⟩
  · obtain ⟨summary, sent, hresult, hpaints⟩ := h.written hcurrent
    obtain ⟨hcontent, hexchanges, hcount, hwritten, hchained, hunchained⟩ := hpaints
    exact ⟨summary, sent, hresult, hcontent, hexchanges, hcount, hwritten, hchained, hunchained⟩

end Upload

end BlobUpload
