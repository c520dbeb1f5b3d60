import Mathlib.Algebra.BigOperators.Group.Finset.Basic
import Redic.SepticTank.FeedSteps

/-! # No call is stuck

While a sender waits for space, enough others are on their way to fill the free slots, so some
step that brings a call further is always enabled. A number that says how much is left falls with
each such step.
-/
namespace Redic

variable {S ClientId : Type} [DecidableEq ClientId]

namespace FeedState

def Sends (s : FeedState S ClientId) (thread : SewerThread ClientId) : Prop :=
  ∃ client operation address, thread = .client client ∧
    s.clients client = .sending operation address

def FeedsPotty (s : FeedState S ClientId) (thread : SewerThread ClientId) : Prop :=
  thread = .pump ∧ ∃ mutation, s.pump = .feeding mutation

structure Lively (cap pottyCap : ℕ) (s : FeedState S ClientId) : Prop where
  main : ∃ queue, s.sewer.Serves .pump cap queue ∧ s.sewer.Roomy cap queue s.Sends
  potty : ∃ queue, s.pottySewer.Serves .potty pottyCap queue ∧
    s.pottySewer.Roomy pottyCap queue s.FeedsPotty

section Lively
variable {cap pottyCap : ℕ} {s s' : FeedState S ClientId} {client : ClientId} {address : ℕ}
  {operation : SepticTankOperation} {woken : Option (SewerThread ClientId)}

omit [DecidableEq ClientId] in
theorem feedStart_lively (hcap : 0 < cap) (hpotty : 0 < pottyCap) (tank : SepticTank S) :
    (feedStart cap pottyCap tank : FeedState S ClientId).Lively cap pottyCap where
  main := ⟨[], sewerCreate_serves hcap _, sewerCreate_roomy _ _ _⟩
  potty := ⟨[], sewerCreate_serves hpotty _, sewerCreate_roomy _ _ _⟩

omit [DecidableEq ClientId] in
/-- A step away from both sewers keeps them lively when it takes no sender off its way. -/
theorem Lively.of_same (h : s.Lively cap pottyCap) (hsewer : s'.sewer = s.sewer)
    (hpotty : s'.pottySewer = s.pottySewer) (hsends : ∀ thread, s.Sends thread → s'.Sends thread)
    (hfeeds : ∀ thread, s.FeedsPotty thread → s'.FeedsPotty thread) :
    s'.Lively cap pottyCap := by
  obtain ⟨⟨queue, hserves, hroomy⟩, ⟨queue', hserves', hroomy'⟩⟩ := h
  constructor
  · rw [hsewer]
    exact ⟨queue, hserves, hroomy.congr rfl hsends⟩
  · rw [hpotty]
    exact ⟨queue', hserves', hroomy'.congr rfl hfeeds⟩

omit [DecidableEq ClientId] in
theorem not_feedsPotty (hpump : ∀ mutation, s.pump ≠ .feeding mutation)
    (thread : SewerThread ClientId) : ¬ s.FeedsPotty thread := by
  rintro ⟨-, mutation, hfeeding⟩
  exact hpump mutation hfeeding

theorem sends_update {phase : FeedPhase}
    (hclients : s'.clients = Function.update s.clients client phase)
    (hclient : ∀ operation address, s.clients client ≠ .sending operation address)
    (thread : SewerThread ClientId) (h : s.Sends thread) : s'.Sends thread := by
  obtain ⟨other, operation, address, rfl, hsending⟩ := h
  refine ⟨other, operation, address, rfl, ?_⟩
  rw [hclients, Function.update_of_ne, hsending]
  rintro rfl
  exact hclient operation address hsending

theorem Lively.feed (h : s.Lively cap pottyCap)
    (hs : s.feed client operation address = some s') : s'.Lively cap pottyCap := by
  obtain ⟨hidle, -, rfl⟩ := feed_cases hs
  refine h.of_same rfl rfl ?_ ?_
  · apply sends_update rfl
    rw [hidle]
    intro operation address hsending
    cases hsending
  · exact fun _ hfeeds => hfeeds

theorem Lively.send (h : s.Lively cap pottyCap) (hs : s.send client woken = some s') :
    s'.Lively cap pottyCap := by
  obtain ⟨operation, address, sewer, hsending, hs⟩ := send_cases hs
  obtain ⟨⟨queue, hserves, hroomy⟩, hpotty⟩ := h
  rcases hs with ⟨hsend, rfl⟩ | ⟨hsend, rfl⟩
  · obtain ⟨hfull, hserves', hspace⟩ := hserves.send_waits hsend
    refine ⟨⟨queue, hserves', ?_⟩, hpotty⟩
    exact hroomy.wait ⟨client, operation, address, rfl, hsending⟩ hfull hspace
  · obtain ⟨hawake, hserves', hspace⟩ := hserves.send_done hsend
    refine ⟨⟨_, hserves', hroomy.push hawake hspace (by simp) ?_⟩, hpotty⟩
    rintro thread ⟨other, operation', address', rfl, hother⟩ hne
    refine ⟨other, operation', address', rfl, ?_⟩
    refine (Function.update_of_ne ?_ _ _).trans hother
    rintro rfl
    exact hne rfl

theorem Lively.consume (h : s.Lively cap pottyCap) (hs : s.consume woken = some s') :
    s'.Lively cap pottyCap := by
  obtain ⟨hpump, sewer, hs⟩ := consume_cases hs
  obtain ⟨⟨queue, hserves, hroomy⟩, ⟨queue', hserves', hroomy'⟩⟩ := h
  have hnot := not_feedsPotty (s := s) fun mutation hfeeding => by cases hpump.symm.trans hfeeding
  rcases hs with ⟨hconsume, rfl⟩ | ⟨message, hconsume, rfl⟩
  · obtain ⟨rfl, hserves, hspace⟩ := hserves.consume_waits hconsume
    exact ⟨⟨[], hserves, hroomy.congr hspace fun _ hsends => hsends⟩, ⟨queue', hserves', hroomy'⟩⟩
  · obtain ⟨rest, rfl, hserves, hsignal⟩ := hserves.consume_done hconsume
    refine ⟨⟨rest, hserves, hroomy.pop hsignal rfl⟩, ⟨queue', hserves', ?_⟩⟩
    exact hroomy'.congr rfl fun thread hfeeds => absurd hfeeds (hnot thread)

omit [DecidableEq ClientId] in
theorem Lively.digest [KeyStore S] {ts₁ ts₂ : Timespec} (h : s.Lively cap pottyCap)
    (hs : s.digest ts₁ ts₂ = some s') : s'.Lively cap pottyCap := by
  obtain ⟨message, hpump, rfl⟩ := digest_cases hs
  refine h.of_same rfl rfl ?_ ?_
  · exact fun _ hsends => hsends
  · exact fun thread hfeeds => absurd hfeeds (not_feedsPotty (by rw [hpump]; simp) thread)

theorem Lively.respond (h : s.Lively cap pottyCap) (hs : s.respond woken = some s') :
    s'.Lively cap pottyCap := by
  obtain ⟨message, result, mutation, hpump, hs⟩ := respond_cases hs
  have hnot := not_feedsPotty (s := s) fun mutation hfeeding => by cases hpump.symm.trans hfeeding
  rcases hs with ⟨-, rfl⟩ | ⟨_, _, _, _, _, ⟨-, rfl⟩ | ⟨-, rfl⟩⟩
  all_goals
    refine h.of_same rfl rfl ?_ ?_
    · exact fun _ hsends => hsends
    · exact fun thread hfeeds => absurd hfeeds (hnot thread)

theorem Lively.receive (h : s.Lively cap pottyCap) (hs : s.receive client woken = some s') :
    s'.Lively cap pottyCap := by
  obtain ⟨operation, address, _, _, hawaiting, -, ⟨-, rfl⟩ | ⟨_, -, rfl⟩⟩ := receive_cases hs
  · refine h.of_same rfl rfl ?_ ?_ <;> exact fun _ hthread => hthread
  · refine h.of_same rfl rfl ?_ ?_
    · apply sends_update rfl
      rw [hawaiting]
      intro operation address hsending
      cases hsending
    · exact fun _ hfeeds => hfeeds

theorem Lively.finish (h : s.Lively cap pottyCap) (hs : s.finish client = some s') :
    s'.Lively cap pottyCap := by
  obtain ⟨operation, address, result, hreceived, rfl⟩ := finish_cases hs
  refine h.of_same rfl rfl ?_ ?_
  · apply sends_update rfl
    rw [hreceived]
    intro operation address hsending
    cases hsending
  · exact fun _ hfeeds => hfeeds

theorem Lively.pottyFeed (h : s.Lively cap pottyCap) (hs : s.pottyFeed woken = some s') :
    s'.Lively cap pottyCap := by
  obtain ⟨mutation, sewer, hpump, hs⟩ := pottyFeed_cases hs
  obtain ⟨hmain, ⟨queue, hserves, hroomy⟩⟩ := h
  rcases hs with ⟨hsend, rfl⟩ | ⟨hsend, rfl⟩
  · obtain ⟨hfull, hserves', hspace⟩ := hserves.send_waits hsend
    exact ⟨hmain, ⟨queue, hserves', hroomy.wait ⟨rfl, mutation, hpump⟩ hfull hspace⟩⟩
  · obtain ⟨hawake, hserves', hspace⟩ := hserves.send_done hsend
    refine ⟨hmain, ⟨_, hserves', hroomy.push hawake hspace (by simp) ?_⟩⟩
    rintro thread ⟨rfl, -⟩ hne
    exact absurd rfl hne

theorem Lively.pottyConsume (h : s.Lively cap pottyCap) (hs : s.pottyConsume woken = some s') :
    s'.Lively cap pottyCap := by
  obtain ⟨out, sewer, htimed, rfl⟩ := pottyConsume_cases hs
  obtain ⟨hmain, ⟨queue, hserves, hroomy⟩⟩ := h
  refine ⟨hmain, ?_⟩
  unfold sewerTimedConsume at htimed
  rw [hserves.holds.isEmpty_eq] at htimed
  by_cases hempty : queue.length = 0
  · rw [if_pos (decide_eq_true hempty)] at htimed
    cases htimed
    exact ⟨queue, hserves, hroomy⟩
  · rw [if_neg (by simpa using hempty)] at htimed
    have hne : queue ≠ [] := fun hnil => hempty (hnil ▸ rfl)
    obtain ⟨elem, rest, rfl, -, hserves', hsignal⟩ := hserves.take hne htimed
    exact ⟨rest, hserves', hroomy.pop hsignal rfl⟩

theorem Lively.wake (h : s.Lively cap pottyCap) (thread : SewerThread ClientId) :
    (s.wake thread).Lively cap pottyCap := by
  obtain ⟨⟨queue, hserves, hroomy⟩, ⟨queue', hserves', hroomy'⟩⟩ := h
  exact ⟨⟨queue, hserves.spuriousWake thread, hroomy.spuriousWake thread⟩,
    ⟨queue', hserves'.spuriousWake thread, hroomy'.spuriousWake thread⟩⟩

end Lively

end FeedState

section Remaining

/-- How many steps a call in this phase has before it at most, its way through the pump included. -/
def FeedPhase.rank : FeedPhase → ℕ
  | .idle => 0
  | .received .. => 1
  | .awaiting .. => 2
  | .sending .. => 13

def TankPumpPhase.rank : TankPumpPhase → ℕ
  | .consuming => 0
  | .feeding _ => 3
  | .responding .. => 4
  | .digesting _ => 5

theorem TankPumpPhase.rank_next (mutation : Option SepticTankMutation) :
    (TankPumpPhase.next mutation).rank ≤ 3 := by
  cases mutation <;> simp [next, rank]

open scoped BigOperators

def FeedState.remaining (active : Finset ClientId) (s : FeedState S ClientId) : ℕ :=
  ∑ client ∈ active, (s.clients client).rank + 10 * s.sewer.buffer.len + s.pump.rank +
    s.pottySewer.buffer.len

theorem rank_update {active : Finset ClientId} (clients : ClientId → FeedPhase)
    {client : ClientId} (hclient : client ∈ active) (phase : FeedPhase) :
    ∑ other ∈ active, (Function.update clients client phase other).rank +
        (clients client).rank =
      ∑ other ∈ active, (clients other).rank + phase.rank := by
  have hothers : ∑ other ∈ active.erase client,
        (Function.update clients client phase other).rank =
      ∑ other ∈ active.erase client, (clients other).rank := by
    apply Finset.sum_congr rfl
    intro other hother
    rw [Function.update_of_ne (Finset.ne_of_mem_erase hother)]
  rw [← Finset.add_sum_erase active _ hclient, hothers, Function.update_self,
    ← Finset.add_sum_erase active (fun other => (clients other).rank) hclient]
  omega

namespace FeedState
variable [KeyStore S] {cap pottyCap : ℕ} {tank : SepticTank S} {s : FeedState S ClientId}
  {active : Finset ClientId} {client : ClientId} {operation : SepticTankOperation} {address : ℕ}
  {queue : List FeedMessage} {done pending : List (ClientId × SepticTankOperation)}

/-- A step is enabled that starts no call and leaves less to do. -/
def Advances (active : Finset ClientId) (s : FeedState S ClientId) : Prop :=
  ∃ event s', event.isFeed = false ∧ s.step event = some s' ∧
    s'.remaining active < s.remaining active ∧
    ∀ client, client ∉ active → s'.clients client = s.clients client

def backlog (s : FeedState S ClientId) : ℕ :=
  10 * s.sewer.buffer.len + s.pump.rank + s.pottySewer.buffer.len

theorem Advances.of_client {s' : FeedState S ClientId} {event : FeedEvent ClientId}
    {phase : FeedPhase} (hfeed : event.isFeed = false) (hstep : s.step event = some s')
    (hclient : client ∈ active) (hclients : s'.clients = Function.update s.clients client phase)
    (hless : phase.rank + s'.backlog < (s.clients client).rank + s.backlog) :
    Advances active s := by
  refine ⟨event, s', hfeed, hstep, ?_, ?_⟩
  · have hrank := rank_update s.clients hclient phase
    rw [← hclients] at hrank
    unfold remaining
    unfold backlog at hless
    omega
  · intro other hother
    rw [hclients, Function.update_of_ne]
    rintro rfl
    exact hother hclient

theorem Advances.of_pump {s' : FeedState S ClientId} {event : FeedEvent ClientId}
    (hfeed : event.isFeed = false) (hstep : s.step event = some s')
    (hclients : s'.clients = s.clients) (hless : s'.backlog < s.backlog) : Advances active s := by
  refine ⟨event, s', hfeed, hstep, ?_, ?_⟩
  · unfold remaining
    unfold backlog at hless
    rw [hclients]
    omega
  · exact fun other _ => congrFun hclients other

theorem advances_send (hring : s.sewer.Serves .pump cap queue) (hspace : queue.length < cap)
    (hphase : s.clients client = .sending operation address)
    (hawake : .client client ∉ s.sewer.hasSpace) (hclient : client ∈ active) :
    Advances active s := by
  obtain ⟨woken, sewer, hsend⟩ := hring.send_enabled hspace hawake ⟨operation, some address⟩
  have hlen : sewer.buffer.len = s.sewer.buffer.len + 1 := by
    obtain ⟨-, hserves, -⟩ := hring.send_done hsend
    rw [hserves.holds.len_eq, hring.holds.len_eq, List.length_append, List.length_singleton]
  have hstep : s.step (.send client woken) = some { s with
      sewer := sewer
      clients := Function.update s.clients client (.awaiting operation address)
      enqueued := s.enqueued ++ [(client, operation)] } := by
    rw [step, send, hphase]
    dsimp only
    rw [hsend]
  apply Advances.of_client rfl hstep hclient rfl
  rw [hphase]
  simp only [backlog, FeedPhase.rank, hlen]
  omega

theorem advances_receive {result : SepticTankResult}
    (hphase : s.clients client = .awaiting operation address)
    (hholds : s.ResponseHolds client address [result]) (hclient : client ∈ active) :
    Advances active s := by
  obtain ⟨sewer, hsewer, hserves, -⟩ := hholds
  obtain ⟨woken, sewer', hconsume⟩ := hserves.consume_enabled
  have hstep : s.step (.receive client woken) = some { s with
      responses := Function.update s.responses address (some sewer')
      clients := Function.update s.clients client (.received operation address result) } := by
    rw [step, receive, hphase]
    dsimp only
    rw [hsewer]
    dsimp only
    rw [hconsume]
  apply Advances.of_client rfl hstep hclient rfl
  rw [hphase]
  simp only [backlog, FeedPhase.rank]
  omega

theorem advances_finish {result : SepticTankResult}
    (hphase : s.clients client = .received operation address result) (hclient : client ∈ active) :
    Advances active s := by
  have hstep : s.step (.finish client) = some { s with
      responses := Function.update s.responses address none
      clients := Function.update s.clients client .idle
      returned := s.returned ++ [(client, operation, result)] } := by
    rw [step, finish, hphase]
  apply Advances.of_client rfl hstep hclient rfl
  rw [hphase]
  simp only [backlog, FeedPhase.rank]
  omega

theorem advances_consume {message : FeedMessage}
    (hring : s.sewer.Serves .pump cap (message :: queue)) (hpump : s.pump = .consuming) :
    Advances active s := by
  obtain ⟨woken, sewer, hconsume⟩ := hring.consume_enabled
  have hlen : s.sewer.buffer.len = sewer.buffer.len + 1 := by
    obtain ⟨rest, hqueue, hserves, -⟩ := hring.consume_done hconsume
    cases hqueue
    rw [hserves.holds.len_eq, hring.holds.len_eq, List.length_cons]
  have hstep : s.step (.consume woken) = some { s with
      sewer := sewer
      pump := .digesting message } := by
    rw [step, consume, hpump]
    dsimp only
    rw [hconsume]
  apply Advances.of_pump rfl hstep rfl
  simp only [backlog, hpump, TankPumpPhase.rank, hlen]
  omega

theorem advances_pump (h : s.Ordered cap tank queue done pending) (hlive : s.Lively cap pottyCap)
    (hpotty : 0 < pottyCap) (hpump : s.pump ≠ .consuming) : Advances active s := by
  cases hphase : s.pump with
  | consuming => exact absurd hphase hpump
  | digesting message =>
    let ts : Timespec := .atSecond 0 (by decide) (by decide)
    have hstep : ∃ s', s.step (.digest ts ts) = some s' ∧ s'.clients = s.clients ∧
        s'.backlog < s.backlog := by
      rw [step, digest, hphase]
      refine ⟨_, rfl, rfl, ?_⟩
      simp only [backlog, hphase, TankPumpPhase.rank]
      omega
    obtain ⟨s', hstep, hclients, hless⟩ := hstep
    exact Advances.of_pump rfl hstep hclients hless
  | responding message result mutation =>
    obtain ⟨client, address, -, hclogged, -, sewer, hsewer, hserves, hspace⟩ :=
      h.answers _ _ _ hphase
    have hawake : .pump ∉ sewer.hasSpace := hspace ▸ Finset.notMem_empty _
    obtain ⟨woken, sewer', hsend⟩ := hserves.send_enabled Nat.one_pos hawake result
    have hstep : s.step (.respond woken) = some { s with
        responses := Function.update s.responses address (some sewer')
        pump := .next mutation } := by
      rw [step, respond, hphase]
      dsimp only
      rw [hclogged]
      dsimp only
      rw [hsewer]
      dsimp only
      rw [hsend]
    apply Advances.of_pump rfl hstep rfl
    have hrank : s.pump.rank = 4 := by
      rw [hphase]
      rfl
    have hnext := TankPumpPhase.rank_next mutation
    simp only [backlog]
    omega
  | feeding mutation =>
    obtain ⟨waste, hserves, hroomy⟩ := hlive.potty
    by_cases hspace : waste.length < pottyCap
    · obtain ⟨_, ⟨rfl, -⟩, hawake⟩ := hroomy.exists_awake hspace ⟨rfl, mutation, hphase⟩
      obtain ⟨woken, sewer, hsend⟩ := hserves.send_enabled hspace hawake mutation
      have hlen : sewer.buffer.len = s.pottySewer.buffer.len + 1 := by
        obtain ⟨-, hserves', -⟩ := hserves.send_done hsend
        rw [hserves'.holds.len_eq, hserves.holds.len_eq, List.length_append, List.length_singleton]
      have hstep : s.step (.pottyFeed woken) = some { s with
          pottySewer := sewer
          pump := .consuming } := by
        rw [step, pottyFeed, hphase]
        dsimp only
        rw [hsend]
      apply Advances.of_pump rfl hstep rfl
      simp only [backlog, hphase, TankPumpPhase.rank, hlen]
      omega
    · obtain ⟨woken, out, sewer, htake⟩ := sewerTake_enabled s.pottySewer
      have hne : waste ≠ [] := by
        rintro rfl
        exact hspace hpotty
      obtain ⟨elem, rest, rfl, -, hserves', -⟩ := hserves.take hne htake
      have hlen : s.pottySewer.buffer.len = sewer.buffer.len + 1 := by
        rw [hserves'.holds.len_eq, hserves.holds.len_eq, List.length_cons]
      have hstep : s.step (.pottyConsume woken) = some { s with pottySewer := sewer } := by
        rw [step, pottyConsume, sewerTimedConsume, hserves.holds.isEmpty_eq, if_neg (by simp),
          htake]
        rfl
      apply Advances.of_pump rfl hstep rfl
      simp only [backlog, hlen]
      omega

/-- While some call is in progress, a step is enabled that brings a call further. -/
theorem advances_of_busy (h : s.Ordered cap tank queue done pending)
    (hlive : s.Lively cap pottyCap) (hcap : 0 < cap) (hpotty : 0 < pottyCap)
    (hactive : ∀ client, client ∉ active → s.clients client = .idle)
    (hbusy : s.clients client ≠ .idle) : Advances active s := by
  have hmem {other : ClientId} (hother : s.clients other ≠ .idle) : other ∈ active := by
    by_contra hout
    exact hother (hactive other hout)
  -- what is on its way moves on when the pump does, or when it is taken
  have htaken (hne : s.pump.inHand ++ queue ≠ []) : Advances active s := by
    by_cases hpump : s.pump = .consuming
    · cases queue with
      | nil =>
        rw [hpump] at hne
        exact absurd rfl hne
      | cons message queue => exact advances_consume h.ring hpump
    · exact advances_pump h hlive hpotty hpump
  have haccount := h.accounts client
  generalize hphase : s.clients client = phase at haccount hbusy
  have hclient : client ∈ active := by
    apply hmem
    rw [hphase]
    exact hbusy
  cases haccount with
  | idle => exact absurd rfl hbusy
  | sending =>
    obtain ⟨queue', hserves, hroomy⟩ := hlive.main
    obtain rfl := hserves.holds.unique h.ring.holds
    by_cases hspace : queue'.length < cap
    · obtain ⟨_, ⟨other, operation, address, rfl, hother⟩, hawake⟩ :=
        hroomy.exists_awake hspace ⟨client, _, _, rfl, hphase⟩
      refine advances_send h.ring hspace hother hawake (hmem ?_)
      rw [hother]
      exact FeedPhase.noConfusion
    · apply htaken
      have hlen : 0 < queue'.length := by omega
      exact List.append_ne_nil_of_right_ne_nil _ (List.ne_nil_of_length_pos hlen)
  | queued hisIn =>
    apply htaken
    rw [h.carried]
    rintro hnil
    rw [List.map_eq_nil_iff.mp hnil] at hisIn
    cases hisIn
  | answering _ _ _ _ hpump =>
    apply advances_pump h hlive hpotty
    rw [hpump]
    exact TankPumpPhase.noConfusion
  | answered _ _ _ hholds => exact advances_receive hphase hholds hclient
  | received => exact advances_finish hphase hclient

end FeedState

end Remaining

end Redic
