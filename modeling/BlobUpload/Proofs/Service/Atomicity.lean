import BlobUpload.Proofs.Service.Effects
import Mathlib.Data.List.Forall2
import Mathlib.Data.List.Induction

/-! # All of a request or nothing

A request that is rejected changes nothing but the count of its method, however far its checks have
come. What a list of blocks commits is told by the requests before it: under each id the payload
that was staged last, unless a commit has come in between. Main statement:
`all_of_request_or_nothing`. -/

namespace BlobUpload

/-- How often one method was called. -/
def Calls.of (c : Calls) : Method → Nat
  | .putBlock => c.putBlock
  | .putBlockList => c.putBlockList
  | .updatePage => c.updatePage
  | .appendBlock => c.appendBlock
  | .putBlob => c.putBlob

theorem Calls.of_count (c : Calls) (m m' : Method) :
    (c.count m).of m' = c.of m' + if m' = m then 1 else 0 := by
  cases m <;> cases m' <;> rfl

/-! ## What was staged last -/

/-- Whatever was staged under `id` before is no longer there: another block was staged under it, or
a commit was carried out. -/
def Exchange.Supersedes (id : String) (x : Exchange) : Prop :=
  x.failure = none ∧ (x.request.commits = true ∨ ∃ body, x.request = .putBlock id body)

/-- The payload was staged under `id`, and nothing has superseded it since. -/
def LastStaged (xs : List Exchange) (id : String) (payload : Bytes) : Prop :=
  ∃ older body newer, xs = older ++ ⟨.putBlock id body, none⟩ :: newer ∧ body.payload = payload ∧
    ∀ x ∈ newer, ¬x.Supersedes id

section

variable {xs : List Exchange} {x : Exchange} {id : String} {payload : Bytes}

theorem not_lastStaged_nil : ¬LastStaged [] id payload := by
  rintro ⟨older, body, newer, heq, -⟩
  exact List.append_ne_nil_of_right_ne_nil older (List.cons_ne_nil _ _) heq.symm

theorem lastStaged_concat :
    LastStaged (xs ++ [x]) id payload ↔
      (∃ body, x = ⟨.putBlock id body, none⟩ ∧ body.payload = payload) ∨
        ¬x.Supersedes id ∧ LastStaged xs id payload := by
  constructor
  · rintro ⟨older, body, newer, heq, hsame, hkept⟩
    rcases List.eq_nil_or_concat newer with rfl | ⟨front, y, rfl⟩
    · obtain ⟨-, hlast⟩ := List.append_inj' heq rfl
      cases hlast
      exact .inl ⟨body, rfl, hsame⟩
    · rw [List.concat_eq_append] at heq hkept
      rw [← List.cons_append, ← List.append_assoc] at heq
      obtain ⟨rfl, hlast⟩ := List.append_inj' heq rfl
      cases hlast
      exact .inr ⟨hkept x (List.mem_append_right _ List.mem_cons_self), older, body, front, rfl,
        hsame, fun z hz => hkept z (List.mem_append_left _ hz)⟩
  · rintro (⟨body, rfl, hsame⟩ | ⟨hlast, older, body, newer, rfl, hsame, hkept⟩)
    · exact ⟨xs, body, [], rfl, hsame, nofun⟩
    · refine ⟨older, body, newer ++ [x], List.append_assoc _ _ _, hsame, fun z hz => ?_⟩
      rcases List.mem_append.1 hz with hold | hnew
      · exact hkept z hold
      · rw [List.mem_singleton.1 hnew]
        exact hlast

end

namespace Blob

variable {b after start : Blob} {r : Request} {id : String}

/-! ## One request -/

/-- What is found under `id` after an exchange is what the exchange has staged, or what was found
before and has not been superseded. -/
def Tracks (id : String) (b after : Blob) (x : Exchange) : Prop :=
  ∀ payload, after.stagedBlock? id = some payload ↔
    (∃ body, x = ⟨.putBlock id body, none⟩ ∧ body.payload = payload) ∨
      ¬x.Supersedes id ∧ b.stagedBlock? id = some payload

theorem tracks_of_kept {x : Exchange} (hkept : ¬x.Supersedes id)
    (hsame : after.stagedBlock? id = b.stagedBlock? id) : Tracks id b after x := by
  intro payload
  rw [hsame]
  refine ⟨fun hfound => .inr ⟨hkept, hfound⟩, ?_⟩
  rintro (⟨body, rfl, -⟩ | ⟨-, hfound⟩)
  · exact absurd ⟨rfl, .inr ⟨body, rfl⟩⟩ hkept
  · exact hfound

theorem tracks_of_cleared (hcommits : r.commits = true) (hnone : after.staged = []) :
    Tracks id b after ⟨r, .none⟩ := by
  intro payload
  rw [stagedBlock?, hnone]
  refine iff_of_false (fun hfound => by cases hfound) ?_
  rintro (⟨body, hsame, -⟩ | ⟨hkept, -⟩)
  · cases hsame
    cases hcommits
  · exact hkept ⟨rfl, .inl hcommits⟩

theorem tracks_of_staged (id' : String) (body : Body) :
    Tracks id b (b.stage (id', body.payload)) ⟨.putBlock id' body, none⟩ := by
  by_cases hsame : id = id'
  · subst hsame
    intro payload
    have hfound : (b.stage (id, body.payload)).stagedBlock? id = some body.payload :=
      List.lookup_cons_self
    rw [hfound, Option.some.injEq]
    refine ⟨fun heq => .inl ⟨body, rfl, heq⟩, ?_⟩
    rintro (⟨body', ⟨⟩, heq⟩ | ⟨hkept, -⟩)
    · exact heq
    · exact absurd ⟨rfl, .inr ⟨body, rfl⟩⟩ hkept
  · refine tracks_of_kept ?_ ?_
    · rintro ⟨-, hcommits | ⟨body', ⟨⟩⟩⟩
      · cases hcommits
      · exact hsame rfl
    · rw [stagedBlock?, stage, List.lookup_cons, beq_false_of_ne hsame]
      rfl

theorem tracks_answer (id : String) (r : Request) (b : Blob) :
    Tracks id b (Service.answer r b).2 ⟨r, Relay.failure? (Service.answer r b).1⟩ := by
  have heffect := effect_answer r b
  generalize (Service.answer r b).1 = answer at heffect
  generalize (Service.answer r b).2 = after at heffect
  cases heffect with
  | rejected => exact tracks_of_kept (fun hgone => nomatch hgone.1) rfl
  | staged => exact tracks_of_staged _ _
  | published => exact tracks_of_cleared rfl rfl
  | painted | extended =>
      refine tracks_of_kept ?_ rfl
      rintro ⟨-, hcommits | ⟨body, hsame⟩⟩
      · cases hcommits
      · cases hsame
  | put => exact tracks_of_cleared rfl rfl

/-! ## Many requests -/

theorem stagedBlock?_after (hfresh : start.staged = []) (rs : List Request) (id : String)
    (payload : Bytes) : (Service.after start rs).stagedBlock? id = some payload ↔
      LastStaged (Service.exchanges start rs) id payload := by
  induction rs using List.reverseRecOn with
  | nil =>
      refine iff_of_false ?_ not_lastStaged_nil
      rw [show Service.after start [] = start from rfl, stagedBlock?, hfresh]
      intro hfound
      cases hfound
  | append_singleton rs r ih =>
      rw [Service.exchanges_concat, Service.after_concat, lastStaged_concat, ← ih]
      exact tracks_answer id r (Service.after start rs) payload

/-! ## Lists of blocks -/

/-- Under these ids these payloads are found. -/
def Finds (b : Blob) : List String → List Bytes → Prop :=
  List.Forall₂ fun id payload => b.stagedBlock? id = some payload

theorem finds_after (hfresh : start.staged = []) (rs : List Request) :
    (Service.after start rs).Finds = List.Forall₂ (LastStaged (Service.exchanges start rs)) :=
  congrArg List.Forall₂
    (funext₂ fun id payload => propext (stagedBlock?_after hfresh rs id payload))

/-- What a list of blocks puts together is what is found under its ids. -/
theorem of_assemble {ids : List String} {content : Bytes} (hjoined : b.assemble ids = .ok content) :
    ∃ payloads, b.Finds ids payloads ∧ content = payloads.flatten := by
  induction ids generalizing content with
  | nil =>
      cases hjoined
      exact ⟨[], List.Forall₂.nil, rfl⟩
  | cons id ids ih =>
      rw [assemble] at hjoined
      split at hjoined
      · cases hjoined
      · rename_i block hfound
        obtain ⟨rest, hjoined', hdone⟩ := of_bind_ok hjoined
        cases hdone
        obtain ⟨payloads, hblocks, rfl⟩ := ih hjoined'
        exact ⟨block :: payloads, List.Forall₂.cons hfound hblocks, rfl⟩

/-- A list of blocks that is committed replaces the content by what is found under its ids. -/
theorem of_committed {ids : List String} {lease : Option String} {etag : String}
    (hcommitted : (Service.answer (.putBlockList ids lease) b).1 = .ok etag) :
    ∃ payloads, b.Finds ids payloads ∧
      (Service.answer (.putBlockList ids lease) b).2.content = payloads.flatten ∧
      (Service.answer (.putBlockList ids lease) b).2.staged = [] := by
  have heffect := effect_answer (.putBlockList ids lease) b
  rw [hcommitted] at heffect
  generalize (Service.answer (.putBlockList ids lease) b).2 = after at heffect
  cases heffect with
  | published _ hjoined =>
      obtain ⟨payloads, hfound, rfl⟩ := of_assemble hjoined
      exact ⟨payloads, hfound, rfl, rfl⟩

/-- Blocks that are found under their ids make a list that can be committed. -/
theorem exists_blocks {ids : List String} {payloads : List Bytes}
    (hfound : b.Finds ids payloads) : ∃ blocks : List (String × Bytes),
      blocks.map Prod.fst = ids ∧ ∀ block ∈ blocks, b.stagedBlock? block.1 = some block.2 := by
  unfold Finds at hfound
  induction hfound with
  | nil => exact ⟨[], rfl, nofun⟩
  | @cons id payload ids payloads hfirst _ ih =>
      obtain ⟨blocks, rfl, hthere⟩ := ih
      exact ⟨(id, payload) :: blocks, rfl, List.forall_mem_cons.2 ⟨hfirst, hthere⟩⟩

/-- A list of blocks is committed just if its lease is met and every block on it is there. -/
theorem committed_iff {ids : List String} {lease : Option String} :
    (∃ etag, (Service.answer (.putBlockList ids lease) b).1 = .ok etag) ↔
      b.Admits lease ∧ ∃ payloads, b.Finds ids payloads := by
  constructor
  · rintro ⟨etag, hcommitted⟩
    obtain ⟨payloads, hfound, -⟩ := of_committed hcommitted
    exact ⟨admits_of_answer_putBlockList (Prod.ext hcommitted rfl), payloads, hfound⟩
  · rintro ⟨hadmits, payloads, hfound⟩
    obtain ⟨blocks, rfl, hthere⟩ := exists_blocks hfound
    rw [answer_putBlockList hadmits hthere]
    exact ⟨_, rfl⟩

/-- A request that is rejected leaves the blob as it was, but that its method was called once more.
A list of blocks is committed just if its lease is met and all its blocks are there, and then the
content is what was staged last under its ids, in their order, and nothing stays staged. -/
theorem all_of_request_or_nothing (hfresh : start.staged = []) (rs : List Request) :
    let b := Service.after start rs
    let lastStaged := List.Forall₂ (LastStaged (Service.exchanges start rs))
    (∀ r e, (Service.answer r b).1 = .error e →
      (Service.answer r b).2 = { b with calls := (Service.answer r b).2.calls } ∧
      ∀ m, (Service.answer r b).2.calls.of m = b.calls.of m + if m = r.method then 1 else 0) ∧
    ∀ ids lease,
      ((∃ etag, (Service.answer (.putBlockList ids lease) b).1 = .ok etag) ↔
        b.Admits lease ∧ ∃ payloads, lastStaged ids payloads) ∧
      ∀ etag, (Service.answer (.putBlockList ids lease) b).1 = .ok etag →
        ∃ payloads, lastStaged ids payloads ∧
          (Service.answer (.putBlockList ids lease) b).2.content = payloads.flatten ∧
          (Service.answer (.putBlockList ids lease) b).2.staged = [] := by
  intro b lastStaged
  have hfinds : b.Finds = lastStaged := finds_after hfresh rs
  refine ⟨fun r e hrefused => ?_, fun ids lease => ⟨?_, fun etag hcommitted => ?_⟩⟩
  · rw [eq_of_error hrefused]
    exact ⟨rfl, Calls.of_count b.calls r.method⟩
  · rw [committed_iff, hfinds]
  · rw [← hfinds]
    exact of_committed hcommitted

/-- Stages three blocks, two of them under one id. -/
def restaging : List Request :=
  [.putBlock "a" { payload := [1] }, .putBlock "b" { payload := [2] },
    .putBlock "a" { payload := [3] }]

theorem all_of_request_or_nothing_restaging :
    (Service.answer (.putBlockList ["b", "c"] none)
      (Service.after ({} : Blob) restaging)).2.calls.of .putBlock = 3 ∧
    ∃ payloads, List.Forall₂ (LastStaged (Service.exchanges ({} : Blob) restaging)) ["b", "a"]
      payloads ∧ payloads.flatten = [2, 3] := by
  obtain ⟨hrejected, hcommitted⟩ :=
    all_of_request_or_nothing (show ({} : Blob).staged = [] from rfl) restaging
  refine ⟨(hrejected (.putBlockList ["b", "c"] none) _ rfl).2 .putBlock, ?_⟩
  obtain ⟨payloads, hlast, hcontent, -⟩ := (hcommitted ["b", "a"] none).2 _ rfl
  exact ⟨payloads, hlast, hcontent.symm⟩

end Blob

end BlobUpload
