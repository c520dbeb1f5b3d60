import Redic.Foundation.EventRun
import Redic.SepticTank.FeedProgress

/-! # Feeding the tank is linearizable

In every run the tank executes the calls in the order in which they were enqueued, each call
returns the result of its own operation, and no interleaving leaves a call without a way to
return.
-/
namespace Redic
open EventRun

variable {S ClientId : Type} [DecidableEq ClientId]

namespace FeedState
variable [KeyStore S] {cap pottyCap : ℕ} {tank : SepticTank S} {s s' : FeedState S ClientId}
  {queue : List FeedMessage} {done pending : List (ClientId × SepticTankOperation)}
  {client : ClientId} {event : FeedEvent ClientId}

theorem feedStart_ordered (hcap : 0 < cap) (tank : SepticTank S) :
    (feedStart cap pottyCap tank : FeedState S ClientId).Ordered cap tank [] [] [] where
  ring := sewerCreate_serves hcap _
  enqueued := rfl
  digested := rfl
  sequential := rfl
  carried := rfl
  waits _ h := absurd h List.not_mem_nil
  nodup := List.nodup_nil
  addresses _ _ _ h := by cases h
  accounts _ := .idle List.not_mem_nil rfl rfl
  answers _ _ _ h := by cases h

omit [DecidableEq ClientId] [KeyStore S] in
theorem map_zipWith_served {digested : List Digested} (hlen : done.length = digested.length) :
    (List.zipWith servedAs done digested).map (fun call => (call.1, call.2.1)) = done := by
  induction done generalizing digested with
  | nil => rfl
  | cons call done ih =>
    cases digested with
    | nil => cases hlen
    | cons first digested =>
      rw [List.zipWith_cons_cons, List.map_cons, ih (Nat.succ.inj hlen)]
      rfl

omit [KeyStore S] in
theorem ofClient_map (calls : List (ClientId × SepticTankOperation × SepticTankResult)) :
    ofClient client (calls.map fun call => (call.1, call.2.1)) =
      (ofClient client calls).map fun call => (call.1, call.2.1) := by
  rw [ofClient, List.filter_map]
  rfl

theorem Ordered.served_calls (h : s.Ordered cap tank queue done pending)
    (hout : client ∉ pending.map Prod.fst) :
    (ofClient client s.served).map (fun call => (call.1, call.2.1)) =
      ofClient client s.enqueued := by
  have hnone : ofClient client pending = [] := by
    apply List.filter_eq_nil_iff.mpr
    intro call hcall heq
    exact hout (List.mem_map.mpr ⟨call, hcall, of_decide_eq_true heq⟩)
  have happend : ofClient client (done ++ pending) = ofClient client done := by
    rw [ofClient, List.filter_append]
    exact (congrArg (_ ++ ·) hnone).trans (List.append_nil _)
  rw [← ofClient_map, h.served_eq, map_zipWith_served h.length_digested, h.enqueued, happend]

theorem Ordered.linearized (h : s.Ordered cap tank queue done pending) : s.Linearized tank where
  order := by
    rw [h.digested, h.enqueued, List.map_append]
    exact List.prefix_append _ _
  sequential := h.sequential
  calls client := (h.accounts client).calls
  own client := (h.accounts client).own
  finished client hidle := by
    have haccount := h.accounts client
    rw [hidle] at haccount
    obtain ⟨hout, hfed, hserved⟩ := haccount
    refine ⟨hserved.symm, ?_⟩
    have hcalls := congrArg (List.map Prod.snd) (h.served_calls hout)
    rw [List.map_map, hserved, ← hfed] at hcalls
    exact hcalls

structure Inv (cap pottyCap : ℕ) (tank : SepticTank S) (s : FeedState S ClientId) : Prop where
  order : ∃ queue done pending, s.Ordered cap tank queue done pending
  lively : s.Lively cap pottyCap
  busy : ∃ active : Finset ClientId, ∀ client, client ∉ active → s.clients client = .idle

theorem feedStart_inv (hcap : 0 < cap) (hpotty : 0 < pottyCap) (tank : SepticTank S) :
    (feedStart cap pottyCap tank : FeedState S ClientId).Inv cap pottyCap tank where
  order := ⟨[], [], [], feedStart_ordered hcap tank⟩
  lively := feedStart_lively hcap hpotty tank
  busy := ⟨∅, fun _ _ => rfl⟩

theorem step_ordered (h : s.Ordered cap tank queue done pending)
    (hs : s.step event = some s') :
    ∃ queue done pending, s'.Ordered cap tank queue done pending := by
  cases event with
  | feed client operation address => exact ⟨_, _, _, h.feed hs⟩
  | send client woken =>
    obtain ⟨queue, pending, h⟩ := h.send hs
    exact ⟨queue, _, pending, h⟩
  | consume woken =>
    obtain ⟨queue, h⟩ := h.consume hs
    exact ⟨queue, _, _, h⟩
  | digest ts₁ ts₂ =>
    obtain ⟨done, pending, h⟩ := h.digest hs
    exact ⟨_, done, pending, h⟩
  | respond woken => exact ⟨_, _, _, h.respond hs⟩
  | receive client woken => exact ⟨_, _, _, h.receive hs⟩
  | finish client => exact ⟨_, _, _, h.finish hs⟩
  | pottyFeed woken => exact ⟨_, _, _, h.pottyFeed hs⟩
  | pottyConsume woken => exact ⟨_, _, _, h.pottyConsume hs⟩
  | wake thread =>
    cases hs
    exact ⟨_, _, _, h.wake thread⟩

theorem step_lively (h : s.Lively cap pottyCap) (hs : s.step event = some s') :
    s'.Lively cap pottyCap := by
  cases event with
  | feed client operation address => exact h.feed hs
  | send client woken => exact h.send hs
  | consume woken => exact h.consume hs
  | digest ts₁ ts₂ => exact h.digest hs
  | respond woken => exact h.respond hs
  | receive client woken => exact h.receive hs
  | finish client => exact h.finish hs
  | pottyFeed woken => exact h.pottyFeed hs
  | pottyConsume woken => exact h.pottyConsume hs
  | wake thread =>
    cases hs
    exact h.wake thread

omit [DecidableEq ClientId] [KeyStore S] in
theorem Extends.refl (s : FeedState S ClientId) : s.Extends s :=
  ⟨List.prefix_rfl, List.prefix_rfl, List.prefix_rfl, List.prefix_rfl⟩

omit [DecidableEq ClientId] [KeyStore S] in
theorem Extends.trans {s'' : FeedState S ClientId} (h : s.Extends s') (h' : s'.Extends s'') :
    s.Extends s'' :=
  ⟨h.fed.trans h'.fed, h.enqueued.trans h'.enqueued, h.digested.trans h'.digested,
    h.returned.trans h'.returned⟩

theorem step_records (hs : s.step event = some s') :
    s.Extends s' ∧ (event.isFeed = false → s'.fed = s.fed) ∧
      ∃ moved : Finset ClientId, ∀ client, client ∉ moved → s'.clients client = s.clients client := by
  have hone (client : ClientId) (phase : FeedPhase) : ∃ moved : Finset ClientId,
      ∀ other, other ∉ moved → Function.update s.clients client phase other = s.clients other := by
    refine ⟨{client}, fun other hother => Function.update_of_ne ?_ _ _⟩
    rintro rfl
    exact hother (Finset.mem_singleton_self other)
  have hnone : ∃ moved : Finset ClientId, ∀ other, other ∉ moved →
      s.clients other = s.clients other := ⟨∅, fun _ _ => rfl⟩
  cases event with
  | feed client operation address =>
    obtain ⟨-, -, rfl⟩ := feed_cases hs
    exact ⟨{ Extends.refl s with fed := List.prefix_append _ _ }, nofun, hone client _⟩
  | send client woken =>
    obtain ⟨_, _, _, -, ⟨-, rfl⟩ | ⟨-, rfl⟩⟩ := send_cases hs
    · exact ⟨{ Extends.refl s with }, fun _ => rfl, hnone⟩
    · exact ⟨{ Extends.refl s with enqueued := List.prefix_append _ _ }, fun _ => rfl, hone client _⟩
  | consume woken =>
    obtain ⟨-, _, ⟨-, rfl⟩ | ⟨_, -, rfl⟩⟩ := consume_cases hs <;>
      exact ⟨{ Extends.refl s with }, fun _ => rfl, hnone⟩
  | digest ts₁ ts₂ =>
    obtain ⟨_, -, rfl⟩ := digest_cases hs
    exact ⟨{ Extends.refl s with digested := List.prefix_append _ _ }, fun _ => rfl, hnone⟩
  | respond woken =>
    obtain ⟨_, _, _, -, ⟨-, rfl⟩ | ⟨_, _, _, -, -, ⟨-, rfl⟩ | ⟨-, rfl⟩⟩⟩ := respond_cases hs <;>
      exact ⟨{ Extends.refl s with }, fun _ => rfl, hnone⟩
  | receive client woken =>
    obtain ⟨_, _, _, _, -, -, ⟨-, rfl⟩ | ⟨_, -, rfl⟩⟩ := receive_cases hs
    · exact ⟨{ Extends.refl s with }, fun _ => rfl, hnone⟩
    · exact ⟨{ Extends.refl s with }, fun _ => rfl, hone client _⟩
  | finish client =>
    obtain ⟨_, _, _, -, rfl⟩ := finish_cases hs
    exact ⟨{ Extends.refl s with returned := List.prefix_append _ _ }, fun _ => rfl, hone client _⟩
  | pottyFeed woken =>
    obtain ⟨_, _, -, ⟨-, rfl⟩ | ⟨-, rfl⟩⟩ := pottyFeed_cases hs <;>
      exact ⟨{ Extends.refl s with }, fun _ => rfl, hnone⟩
  | pottyConsume woken =>
    obtain ⟨_, _, -, rfl⟩ := pottyConsume_cases hs
    exact ⟨{ Extends.refl s with }, fun _ => rfl, hnone⟩
  | wake thread =>
    cases hs
    exact ⟨{ Extends.refl s with }, fun _ => rfl, hnone⟩

theorem Inv.step (h : s.Inv cap pottyCap tank) (hs : s.step event = some s') :
    s'.Inv cap pottyCap tank := by
  obtain ⟨⟨queue, done, pending, hordered⟩, hlively, ⟨active, hactive⟩⟩ := h
  refine ⟨step_ordered hordered hs, step_lively hlively hs, ?_⟩
  obtain ⟨-, -, moved, hmoved⟩ := step_records hs
  refine ⟨active ∪ moved, fun client hclient => ?_⟩
  rw [Finset.mem_union, not_or] at hclient
  rw [hmoved client hclient.2]
  exact hactive client hclient.1

theorem run_inv {events : List (FeedEvent ClientId)} (h : s.Inv cap pottyCap tank)
    (hrun : run FeedState.step s events = some s') : s'.Inv cap pottyCap tank :=
  run_preserves h (fun _ _ _ hinv hs => hinv.step hs) hrun

theorem run_extends {events : List (FeedEvent ClientId)}
    (hrun : run FeedState.step s events = some s') : s.Extends s' :=
  run_preserves (Extends.refl s)
    (fun _ _ _ hextends hs => Extends.trans hextends (step_records hs).1) hrun

/-- Every call in progress can be brought to its end, without any further call. -/
theorem Inv.completes (hcap : 0 < cap) (hpotty : 0 < pottyCap) (h : s.Inv cap pottyCap tank) :
    ∃ rest s', (∀ event ∈ rest, FeedEvent.isFeed event = false) ∧
      run FeedState.step s rest = some s' ∧ (∀ client, s'.clients client = .idle) ∧
      s'.fed = s.fed := by
  obtain ⟨active, hactive⟩ := h.busy
  induction hleft : s.remaining active using Nat.strong_induction_on generalizing s with
  | _ left ih =>
    by_cases hidle : ∀ client, s.clients client = .idle
    · exact ⟨[], s, by simp, rfl, hidle, rfl⟩
    · obtain ⟨client, hbusy⟩ := not_forall.mp hidle
      obtain ⟨queue, done, pending, hordered⟩ := h.order
      obtain ⟨event, s', hfeed, hstep, hless, hothers⟩ :=
        advances_of_busy hordered h.lively hcap hpotty hactive hbusy
      obtain ⟨rest, s'', hrest, hrun, hdone, hfed⟩ := ih _ (hleft ▸ hless) (h.step hstep)
        (fun other hother => (hothers other hother).trans (hactive other hother)) rfl
      refine ⟨event :: rest, s'', ?_, ?_, hdone, hfed.trans ((step_records hstep).2.1 hfeed)⟩
      · intro next hnext
        rcases List.mem_cons.mp hnext with rfl | hnext
        · exact hfeed
        · exact hrest next hnext
      · rw [run, List.foldlM_cons, hstep]
        exact hrun

end FeedState

/-- In every run the tank is a linearizable object, its records only grow, and all calls in
progress can still return. -/
theorem septicTankFeed_linearizable [KeyStore S] (cap pottyCap : ℕ) (hcap : 0 < cap)
    (hpotty : 0 < pottyCap) (tank : SepticTank S) (events : List (FeedEvent ClientId))
    (s : FeedState S ClientId)
    (hrun : run FeedState.step (feedStart cap pottyCap tank) events = some s) :
    s.Linearized tank ∧
      (∀ before s₀, before <+: events →
        run FeedState.step (feedStart cap pottyCap tank) before = some s₀ → s₀.Extends s) ∧
      ∃ rest s', (∀ event ∈ rest, FeedEvent.isFeed event = false) ∧
        run FeedState.step s rest = some s' ∧ (∀ client, s'.clients client = .idle) ∧
        s'.fed = s.fed ∧ s'.Linearized tank := by
  have hinv := FeedState.run_inv (FeedState.feedStart_inv hcap hpotty tank) hrun
  obtain ⟨queue, done, pending, hordered⟩ := hinv.order
  refine ⟨hordered.linearized, ?_, ?_⟩
  · rintro before s₀ ⟨rest, rfl⟩ hbefore
    rw [run, List.foldlM_append, ← run, hbefore] at hrun
    exact FeedState.run_extends hrun
  · obtain ⟨rest, s', hrest, hrest', hidle, hfed⟩ := hinv.completes hcap hpotty
    obtain ⟨queue', done', pending', hordered'⟩ := (FeedState.run_inv hinv hrest').order
    exact ⟨rest, s', hrest, hrest', hidle, hfed, hordered'.linearized⟩

/-- Two clients with a sewer for one message: the second finds it full and is woken by the pump, and
the first calls again at the address of the response sewer it destroyed. -/
theorem septicTankFeed_linearizable_two :
    let ts : Timespec := .atSecond 0 (by decide) (by decide)
    let incr : SepticTankOperation := .incrby ⟨[97], 1⟩
    let start : FeedState FiniteStore Bool := feedStart 1 1 septicTankCreate
    let events : List (FeedEvent Bool) := [.feed true incr 0, .feed false incr 1, .send true none,
      .send false none, .consume (some (.client false)), .send false none, .digest ts ts,
      .respond none, .receive true none, .finish true, .feed true incr 0, .pottyFeed none,
      .consume none, .digest ts ts, .respond none, .receive false none]
    ∃ s, run FeedState.step start events = some s ∧ s.Linearized septicTankCreate ∧
      (∀ before s₀, before <+: events → run FeedState.step start before = some s₀ →
        s₀.Extends s) ∧
      ∃ rest s', (∀ event ∈ rest, FeedEvent.isFeed event = false) ∧
        run FeedState.step s rest = some s' ∧ (∀ client, s'.clients client = .idle) ∧
        s'.fed = s.fed ∧ s'.Linearized septicTankCreate := by
  intro ts incr start events
  have hsome : (run FeedState.step start events).isSome = true := by decide +kernel
  obtain ⟨s, hrun⟩ := Option.isSome_iff_exists.mp hsome
  exact ⟨s, hrun, septicTankFeed_linearizable 1 1 Nat.one_pos Nat.one_pos septicTankCreate events s
    hrun⟩

end Redic
