import StoreAudit.Proofs.Scan.Interruption

/-!
# The last call on a feed

A feed that has come to its end was asked once more than it had items. If it scans a repository and
a request to stop came before that last call, it does not come to its end: it cannot be told from a
feed without the request until a look finds the request, and then it fails
(`Feed.endsAt_of_ended`).
-/

namespace StoreAudit

open Audit
open Session (Raised)

namespace Feed

/-- The feed scans a repository. -/
def OfRepository (feed : Feed) : Prop := feed ≠ [] ∧ ∀ part ∈ feed, part.OfRepository

/-- Without a request to stop, the last call on the feed, which reports its end, comes after so many
looks at the stop signal. -/
inductive EndsAt : Feed → Session → Nat → Prop
  | ends {feed : Feed} {session after : Session} :
      feed.next session = (.ok none, after) → EndsAt feed session session.signal.polls
  | item {feed rest : Feed} {session after : Session} {item : ScanItem} {looks : Nat} :
      feed.next session = (.ok (some (item, rest)), after) → EndsAt rest after looks →
      EndsAt feed session looks

variable {feed : Feed} {session raised calm : Session} {moment : Nat}

/-- The last call comes after the looks that were taken before. -/
theorem EndsAt.polls_le {looks : Nat} (endsAt : feed.EndsAt session looks) :
    session.signal.polls ≤ looks := by
  induction endsAt with
  | ends => exact Nat.le_refl _
  | @item feed rest session after _ _ asked _ ih =>
      have grows := feed.scanning_next.grows session
      rw [asked] at grows
      exact Nat.le_trans grows ih

/-- A feed of a repository stays one. -/
theorem OfRepository.next (ofRepository : feed.OfRepository) :
    Yields feed.next fun found => ∀ delivered ∈ found, delivered.2.OfRepository := by
  obtain ⟨-, parts⟩ := ofRepository
  induction feed with
  | nil => exact yields_pure nofun
  | cons part rest ih =>
      obtain ⟨ofRepository, others⟩ := List.forall_mem_cons.mp parts
      refine ofRepository.next.bind fun found stays => ?_
      cases found with
      | none => exact ih others
      | some delivered =>
          refine yields_pure fun given same => ?_
          cases same
          exact ⟨List.cons_ne_nil _ _, List.forall_mem_cons.mpr ⟨stays _ rfl, others⟩⟩

/-- A feed that is asked after the request to stop does not report its end. -/
theorem next_ne_end_of_requested (ofRepository : feed.OfRepository)
    (requested : session.signal.requested = true) : (feed.next session).1 ≠ .ok none := by
  obtain ⟨part, rest, rfl⟩ := List.exists_cons_of_ne_nil ofRepository.1
  have first := ofRepository.2 part List.mem_cons_self
  cases waiting : part.heldBack with
  | nil =>
      have fails : ∃ failure, (part.next session).1 = .error failure := by
        rcases Section.fails_of_nothing_heldBack first requested waiting with
          interrupted | ⟨-, -, failure, failed, -⟩
        · exact ⟨_, interrupted⟩
        · exact ⟨failure, failed⟩
      obtain ⟨failure, failed⟩ := fails
      have failed : next (part :: rest) session = (.error failure, (part.next session).2) :=
        bind_apply_of_error (Prod.ext failed rfl)
      rw [failed]
      nofun
  | cons item more =>
      obtain ⟨later, delivered, -⟩ := Section.next_of_heldBack waiting session
      have pulled : next (part :: rest) session = (.ok (some (item, later :: rest)), session) :=
        bind_apply_of_ok delivered
      rw [pulled]
      nofun

/-- **The last call comes before the request.** If a feed comes to its end in spite of a request to
stop, it would have come to it without the request, and when it is asked for the last time, the
request has not come. -/
theorem endsAt_of_ended (ofRepository : feed.OfRepository) (differ : Raised moment raised calm)
    (ended : (feed.contents raised).failure = none) :
    (∃ looks, feed.EndsAt calm looks ∧ looks < moment) ∧ (feed.contents calm).failure = none ∧
      Raised moment (feed.contents raised).after (feed.contents calm).after := by
  -- Until a look finds the request both runs make the same calls, each of which lowers the bound.
  induction size : feed.bound using Nat.strongRecOn generalizing feed raised calm with
  | ind size ih =>
      have heeds := feed.scanning_next.heeds moment raised calm differ
      rcases asked : feed.next raised with ⟨failure | _ | ⟨item, rest⟩, after⟩
      · rw [contents_of_error asked] at ended
        cases ended
      · rw [asked] at heeds
        obtain ⟨same, later, -⟩ := heeds.resolve_left nofun
        have calmAsked : feed.next calm = (.ok none, (feed.next calm).2) := Prod.ext same.symm rfl
        rw [contents_of_end asked, contents_of_end calmAsked]
        refine ⟨⟨_, .ends calmAsked, ?_⟩, rfl, later⟩
        -- A feed that has just reported its end was asked before the request.
        by_contra late
        have requested : raised.signal.requested = true := by
          rw [Session.requested_eq_of_raisedAt differ.comes, differ.polls]
          exact decide_eq_true (Nat.le_of_not_lt late)
        exact next_ne_end_of_requested ofRepository requested (by rw [asked])
      · rw [asked] at heeds
        obtain ⟨same, later, -⟩ := heeds.resolve_left nofun
        have calmAsked : feed.next calm = (.ok (some (item, rest)), (feed.next calm).2) :=
          Prod.ext same.symm rfl
        rw [contents_of_item asked] at ended ⊢
        rw [contents_of_item calmAsked]
        obtain ⟨⟨looks, endsAt, early⟩, calmEnded, last⟩ :=
          ih rest.bound (size ▸ bound_of_next asked) (ofRepository.next _ _ _ asked _ rfl) later
            ended rfl
        exact ⟨⟨looks, .item calmAsked endsAt, early⟩, calmEnded, last⟩

end Feed

end StoreAudit
