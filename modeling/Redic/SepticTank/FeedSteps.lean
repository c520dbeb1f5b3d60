import Redic.SepticTank.FeedOrder

/-! # Every step keeps the order

One lemma for each kind of step: which call moves on, and why the others are framed.
-/
namespace Redic.FeedState

variable {S ClientId : Type} [DecidableEq ClientId] [KeyStore S] {cap : ℕ} {tank : SepticTank S}
  {s s' : FeedState S ClientId} {queue : List FeedMessage}
  {done pending : List (ClientId × SepticTankOperation)} {client other : ClientId}
  {address : ℕ} {operation : SepticTankOperation} {woken : Option (SewerThread ClientId)}

/-- A step in which only one client's call and response sewer change. -/
structure ClientStep (s s' : FeedState S ClientId) (client : ClientId) (address : ℕ) : Prop where
  clients : ∀ other, other ≠ client → s'.clients other = s.clients other
  responses : ∀ other, other ≠ address → s'.responses other = s.responses other
  fed : ∀ other, other ≠ client → ofClient other s'.fed = ofClient other s.fed
  enqueued : ∀ other, other ≠ client → ofClient other s'.enqueued = ofClient other s.enqueued
  served : ∀ other, other ≠ client → ofClient other s'.served = ofClient other s.served
  returned : ∀ other, other ≠ client → ofClient other s'.returned = ofClient other s.returned
  pump : s'.pump = s.pump

omit [KeyStore S] in
theorem ClientStep.sameFor {pending' : List (ClientId × SepticTankOperation)}
    (h : ClientStep s s' client address) (hne : other ≠ client)
    (hresponse : ∀ address', (s.clients other).address = some address' → address' ≠ address)
    (hpending : other ∈ pending'.map Prod.fst ↔ other ∈ pending.map Prod.fst) :
    SameFor s s' (pending.map Prod.fst) (pending'.map Prod.fst) other where
  phase := h.clients other hne
  fed := h.fed other hne
  enqueued := h.enqueued other hne
  served := h.served other hne
  returned := h.returned other hne
  pending := hpending
  response address' _ haddress hholds :=
    hholds.congr (h.responses address' (hresponse address' haddress))
  pump _ _ _ _ _ _ := h.pump

theorem Ordered.of_clientStep (h : s.Ordered cap tank queue done pending)
    (hstep : ClientStep s s' client address) (hs' : s' = { s with
      responses := s'.responses, clients := s'.clients, fed := s'.fed, returned := s'.returned })
    (hout : client ∉ pending.map Prod.fst)
    (hothers : ∀ other, other ≠ client → ∀ address',
      (s.clients other).address = some address' → address' ≠ address)
    (haddress : ∀ address', (s'.clients client).address = some address' → address' = address)
    (hanswered : ∀ operation address', s.clients client = .awaiting operation address' →
      ¬ s.ResponseHolds client address' [])
    (haccount : s'.Account (pending.map Prod.fst) client (s'.clients client)) :
    s'.Ordered cap tank queue done pending := by
  have hsame (other : ClientId) (hne : other ≠ client) :
      SameFor s s' (pending.map Prod.fst) (pending.map Prod.fst) other :=
    hstep.sameFor hne (hothers other hne) Iff.rfl
  obtain ⟨hcarried, hwaits⟩ := h.carried_frame hout hstep.clients
  constructor
  · rw [hs']
    exact h.ring
  · rw [hs']
    exact h.enqueued
  · rw [hs']
    exact h.digested
  · rw [hs']
    exact h.sequential
  · rw [hstep.pump, hcarried]
    exact h.carried
  · exact hwaits
  · exact h.nodup
  · intro first second address' hfirst hsecond
    by_cases hone : first = client
    · by_cases htwo : second = client
      · exact hone.trans htwo.symm
      · rw [hstep.clients second htwo] at hsecond
        rw [hone] at hfirst
        exact absurd (haddress address' hfirst) (hothers second htwo address' hsecond)
    · rw [hstep.clients first hone] at hfirst
      by_cases htwo : second = client
      · rw [htwo] at hsecond
        exact absurd (haddress address' hsecond) (hothers first hone address' hfirst)
      · rw [hstep.clients second htwo] at hsecond
        exact h.addresses first second address' hfirst hsecond
  · intro other
    by_cases hne : other = client
    · rw [hne]
      exact haccount
    · exact (h.accounts other).frame (hsame other hne)
  · apply h.answers_frame hstep.pump
    intro other operation address' hphase hholds _
    apply hsame
    rintro rfl
    exact hanswered operation address' hphase hholds

theorem Ordered.feed (h : s.Ordered cap tank queue done pending)
    (hs : s.feed client operation address = some s') :
    s'.Ordered cap tank queue done pending := by
  obtain ⟨hidle, hfree, hs'⟩ := feed_cases hs
  have hphase : s'.clients client = .sending operation address := by
    rw [hs']
    exact Function.update_self _ _ _
  have haccount := h.accounts client
  rw [hidle] at haccount
  obtain ⟨hout, hfed, hserved⟩ := haccount
  have hstep : ClientStep s s' client address := by
    subst hs'
    constructor
    · exact fun other hne => Function.update_of_ne hne _ _
    · exact fun other hne => Function.update_of_ne hne _ _
    · exact fun other hne => ofClient_other hne.symm _ _
    all_goals intros; rfl
  apply h.of_clientStep hstep
  · rw [hs']
  · exact hout
  · intro other _ address' hother heq
    exact h.address_used (heq ▸ hother) hfree
  · intro address' haddress
    rw [hphase] at haddress
    exact (Option.some.inj haddress).symm
  · intro operation address' hawaiting
    rw [hidle] at hawaiting
    cases hawaiting
  · rw [hphase]
    subst hs'
    apply Account.sending hout
    · exact (ofClient_self _ _ _).trans (congrArg (· ++ [(client, operation)]) hfed)
    · exact hserved
    · exact ⟨_, Function.update_self _ _ _, sewerCreate_serves Nat.one_pos _, rfl⟩

theorem Ordered.of_same {queue' : List FeedMessage}
    (h : s.Ordered cap tank queue done pending) (hs' : s' = { s with
      sewer := s'.sewer, responses := s'.responses, pottySewer := s'.pottySewer, pump := s'.pump })
    (hring : s'.sewer.Serves .pump cap queue')
    (hhand : s'.pump.inHand ++ queue' = s.pump.inHand ++ queue)
    (hpump : ∀ message result mutation, s.pump = .responding message result mutation ∨
      s'.pump = .responding message result mutation → s'.pump = s.pump)
    (hresponses : ∀ client address results, (s.clients client).address = some address →
      s.ResponseHolds client address results → s'.ResponseHolds client address results) :
    s'.Ordered cap tank queue' done pending := by
  have hclients : s'.clients = s.clients := by rw [hs']
  have hsame (client : ClientId) :
      SameFor s s' (pending.map Prod.fst) (pending.map Prod.fst) client := by
    constructor
    · rw [hclients]
    · rw [hs']
    · rw [hs']
    · rw [hs']
      rfl
    · rw [hs']
    · exact Iff.rfl
    · exact hresponses client
    · exact fun _ _ _ _ _ hresponding => hpump _ _ _ (Or.inl hresponding)
  have hmessage := messageOf_congr hclients
  constructor
  · exact hring
  · rw [hs']
    exact h.enqueued
  · rw [hs']
    exact h.digested
  · rw [hs']
    exact h.sequential
  · rw [hhand, hmessage]
    exact h.carried
  · rw [hclients]
    exact h.waits
  · exact h.nodup
  · rw [hclients]
    exact h.addresses
  · exact fun client => (h.accounts client).frame (hsame client)
  · intro message result mutation hresponding
    have heq := hpump message result mutation (Or.inr hresponding)
    exact h.answers_frame heq (fun client _ _ _ _ _ => hsame client) message result mutation
      hresponding

theorem Ordered.receive (h : s.Ordered cap tank queue done pending)
    (hs : s.receive client woken = some s') : s'.Ordered cap tank queue done pending := by
  obtain ⟨operation, address, responseSewer, sewer, hawaiting, hresponse, hs⟩ := receive_cases hs
  have haccount := h.accounts client
  have haddress : (s.clients client).address = some address := by
    rw [hawaiting]
    rfl
  obtain ⟨results, hholds⟩ := haccount.response haddress
  obtain ⟨held, hheld, hserves, hspace⟩ := id hholds
  cases hresponse.symm.trans hheld
  rcases hs with ⟨hconsume, hs'⟩ | ⟨result, hconsume, hs'⟩
  · obtain ⟨rfl, hserves', hspace'⟩ := hserves.consume_waits hconsume
    subst hs'
    refine h.of_same rfl h.ring rfl (fun _ _ _ _ => rfl) ?_
    intro other address' results hother hheld'
    by_cases heq : address' = address
    · subst heq
      obtain rfl := h.addresses other client address' hother haddress
      obtain rfl := hheld'.unique hholds
      exact ⟨sewer, Function.update_self _ _ _, hserves', hspace'.trans hspace⟩
    · exact hheld'.congr (Function.update_of_ne heq _ _)
  · obtain ⟨rest, rfl, hserves', hspace'⟩ := hserves.consume_done hconsume
    have hphase : s'.clients client = .received operation address result := by
      rw [hs']
      exact Function.update_self _ _ _
    have hstep : ClientStep s s' client address := by
      subst hs'
      constructor
      · exact fun other hne => Function.update_of_ne hne _ _
      · exact fun other hne => Function.update_of_ne hne _ _
      all_goals intros; rfl
    rw [hawaiting] at haccount
    cases haccount with
    | queued _ _ _ hempty => cases hholds.unique hempty
    | answering _ _ _ hempty => cases hholds.unique hempty
    | answered hout hfed hserved hone =>
      cases hholds.unique hone
      apply h.of_clientStep hstep
      · rw [hs']
      · exact hout
      · intro other hne address' hother
        exact h.address_ne hne haddress hother
      · intro address' hown
        rw [hphase] at hown
        exact (Option.some.inj hown).symm
      · intro operation' address' hphase' hempty
        cases hawaiting.symm.trans hphase'
        cases hholds.unique hempty
      · rw [hphase]
        subst hs'
        refine Account.received hout hfed hserved ?_
        refine ⟨sewer, Function.update_self _ _ _, hserves', ?_⟩
        rw [hspace] at hspace'
        exact pthreadCondSignal_empty hspace'

theorem Ordered.finish (h : s.Ordered cap tank queue done pending)
    (hs : s.finish client = some s') : s'.Ordered cap tank queue done pending := by
  obtain ⟨operation, address, result, hreceived, hs'⟩ := finish_cases hs
  have hphase : s'.clients client = .idle := by
    rw [hs']
    exact Function.update_self _ _ _
  have haddress : (s.clients client).address = some address := by
    rw [hreceived]
    rfl
  have haccount := h.accounts client
  rw [hreceived] at haccount
  cases haccount with
  | received hout hfed hserved hholds =>
    have hstep : ClientStep s s' client address := by
      subst hs'
      constructor
      · exact fun other hne => Function.update_of_ne hne _ _
      · exact fun other hne => Function.update_of_ne hne _ _
      · intros; rfl
      · intros; rfl
      · intros; rfl
      · exact fun other hne => ofClient_other hne.symm _ _
      · rfl
    apply h.of_clientStep hstep
    · rw [hs']
    · exact hout
    · intro other hne address' hother
      exact h.address_ne hne haddress hother
    · intro address' hnone
      rw [hphase] at hnone
      cases hnone
    · intro operation address' hawaiting
      rw [hreceived] at hawaiting
      cases hawaiting
    · rw [hphase]
      subst hs'
      refine Account.idle hout hfed ?_
      exact hserved.trans (ofClient_self _ _ _).symm

theorem Ordered.queue_call (h : s.Ordered cap tank queue done pending)
    {sewer : Sewer FeedMessage (SewerThread ClientId)}
    (hstep : ClientStep s s' client address)
    (hsending : s.clients client = .sending operation address)
    (hphase : s'.clients client = .awaiting operation address) (hserved : s'.served = s.served)
    (hs' : s' = { s with
      sewer := sewer
      clients := Function.update s.clients client (.awaiting operation address)
      enqueued := s.enqueued ++ [(client, operation)] })
    (hserves : sewer.Serves .pump cap (queue ++ [⟨operation, some address⟩])) :
    s'.Ordered cap tank (queue ++ [⟨operation, some address⟩]) done
      (pending ++ [(client, operation)]) := by
  have haccount := h.accounts client
  rw [hsending] at haccount
  cases haccount with
  | sending hout hfed hreturned hholds =>
    obtain ⟨hcarried, hwaits⟩ := h.carried_frame hout hstep.clients
    have haddresses : ∀ other, (s'.clients other).address = (s.clients other).address := by
      intro other
      by_cases hne : other = client
      · rw [hne, hphase, hsending]
        rfl
      · rw [hstep.clients other hne]
    have hsame (other : ClientId) (hne : other ≠ client) : SameFor s s' (pending.map Prod.fst)
        ((pending ++ [(client, operation)]).map Prod.fst) other := by
      apply hstep.sameFor hne
      · intro address' hother
        exact h.address_ne hne (by rw [hsending]; rfl) hother
      · simp [hne]
    constructor
    · rw [hs']
      exact hserves
    · rw [hs', ← List.append_assoc, ← h.enqueued]
    · rw [hs']
      exact h.digested
    · rw [hs']
      exact h.sequential
    · rw [hstep.pump, ← List.append_assoc, h.carried, List.map_append, hcarried, List.map_singleton,
        messageOf, hphase]
      rfl
    · intro call hcall
      rcases List.mem_append.mp hcall with hcall | hcall
      · exact hwaits call hcall
      · rw [List.mem_singleton.mp hcall]
        exact ⟨address, hphase⟩
    · rw [List.map_append, List.map_singleton, ← List.concat_eq_append]
      exact h.nodup.concat hout
    · intro first second address' hfirst hsecond
      rw [haddresses] at hfirst hsecond
      exact h.addresses first second address' hfirst hsecond
    · intro other
      by_cases hne : other = client
      · subst hne
        rw [hphase]
        refine .queued (by simp) ?_ ?_ ?_
        · rw [hs']
          exact hfed.trans (ofClient_self _ _ _).symm
        · rw [hserved, hreturned, hs']
        · apply hholds.congr
          rw [hs']
      · exact (h.accounts other).frame (hsame other hne)
    · apply h.answers_frame hstep.pump
      intro other operation' address' hawaiting _ _
      apply hsame
      rintro rfl
      cases hsending.symm.trans hawaiting

theorem Ordered.send (h : s.Ordered cap tank queue done pending)
    (hs : s.send client woken = some s') :
    ∃ queue' pending', s'.Ordered cap tank queue' done pending' := by
  obtain ⟨operation, address, sewer, hsending, hs⟩ := send_cases hs
  rcases hs with ⟨hsend, hs'⟩ | ⟨hsend, hs'⟩
  · obtain ⟨-, hserves, -⟩ := h.ring.send_waits hsend
    subst hs'
    refine ⟨queue, pending, h.of_same rfl hserves rfl (fun _ _ _ _ => rfl) ?_⟩
    exact fun other address' results _ hheld => hheld.congr rfl
  · obtain ⟨-, hserves, -⟩ := h.ring.send_done hsend
    refine ⟨queue ++ [⟨operation, some address⟩], pending ++ [(client, operation)], ?_⟩
    have hphase : s'.clients client = .awaiting operation address := by
      rw [hs']
      exact Function.update_self _ _ _
    have hserved : s'.served = s.served := by
      rw [h.served_eq, hs', served]
      dsimp only
      rw [h.enqueued, List.append_assoc, zipWith_served h.length_digested]
    have hstep : ClientStep s s' client address := by
      constructor
      · rw [hs']
        exact fun other hne => Function.update_of_ne hne _ _
      · rw [hs']
        exact fun other _ => rfl
      · rw [hs']
        exact fun other _ => rfl
      · rw [hs']
        exact fun other hne => ofClient_other hne.symm _ _
      · rw [hserved]
        exact fun other _ => rfl
      · rw [hs']
        exact fun other _ => rfl
      · rw [hs']
    exact h.queue_call hstep hsending hphase hserved hs' hserves

theorem Ordered.consume (h : s.Ordered cap tank queue done pending)
    (hs : s.consume woken = some s') : ∃ queue', s'.Ordered cap tank queue' done pending := by
  obtain ⟨hpump, sewer, hs⟩ := consume_cases hs
  rcases hs with ⟨hconsume, hs'⟩ | ⟨message, hconsume, hs'⟩
  · obtain ⟨rfl, hserves, -⟩ := h.ring.consume_waits hconsume
    subst hs'
    refine ⟨[], h.of_same rfl hserves rfl (fun _ _ _ _ => rfl) ?_⟩
    exact fun other address' results _ hheld => hheld.congr rfl
  · obtain ⟨rest, rfl, hserves, -⟩ := h.ring.consume_done hconsume
    subst hs'
    refine ⟨rest, h.of_same rfl hserves (by rw [hpump]; rfl) ?_ ?_⟩
    · intro _ _ _ hresponding
      rw [hpump] at hresponding
      rcases hresponding with hresponding | hresponding <;> cases hresponding
    · exact fun other address' results _ hheld => hheld.congr rfl

theorem Ordered.digest {ts₁ ts₂ : Timespec} (h : s.Ordered cap tank queue done pending)
    (hs : s.digest ts₁ ts₂ = some s') :
    ∃ done' pending', s'.Ordered cap tank queue done' pending' := by
  obtain ⟨message, hpump, hs'⟩ := digest_cases hs
  have hcarried := h.carried
  rw [hpump] at hcarried
  cases pending with
  | nil => cases hcarried
  | cons call pending =>
    obtain ⟨client, operation⟩ := call
    obtain ⟨hmessage, hqueue⟩ := List.cons.inj hcarried
    obtain ⟨address, hphase⟩ := h.waits (client, operation) List.mem_cons_self
    rw [messageOf, hphase] at hmessage
    subst hmessage
    obtain ⟨hout, hnodup⟩ := List.nodup_cons.mp h.nodup
    have hclients : s'.clients = s.clients := by rw [hs']
    have hserved : s'.served = s.served ++ [(client, operation,
        (s.tank.digest ⟨operation, ts₁, ts₂⟩).2.1)] := by
      rw [h.served_eq, hs', served]
      dsimp only
      rw [h.enqueued, List.zipWith_append h.length_digested, List.zipWith_cons_cons,
        List.zipWith_nil_right]
      rfl
    have hsame (other : ClientId) (hne : other ≠ client) : SameFor s s'
        (((client, operation) :: pending).map Prod.fst) (pending.map Prod.fst) other := by
      constructor
      · rw [hclients]
      · rw [hs']
      · rw [hs']
      · rw [hserved]
        exact ofClient_other hne.symm _ _
      · rw [hs']
      · simp [hne]
      · intro address' results _ hheld
        apply hheld.congr
        rw [hs']
      · intro _ _ _ _ _ hresponding
        cases hpump.symm.trans hresponding
    have haccount := h.accounts client
    rw [hphase] at haccount
    cases haccount with
    | answering hgone => exact absurd List.mem_cons_self hgone
    | answered hgone => exact absurd List.mem_cons_self hgone
    | queued _ hfed hreturned hholds =>
      have hheld : s'.ResponseHolds client address [] := by
        apply hholds.congr
        rw [hs']
      have hanswer : s'.pump = .responding ⟨operation, some address⟩
          (s.tank.digest ⟨operation, ts₁, ts₂⟩).2.1 (s.tank.digest ⟨operation, ts₁, ts₂⟩).2.2 := by
        rw [hs']
        rfl
      refine ⟨done ++ [(client, operation)], pending, ?_⟩
      constructor
      · rw [hs']
        exact h.ring
      · rw [hs', List.append_assoc]
        exact h.enqueued
      · rw [hs', List.map_append, List.map_append, h.digested]
        rfl
      · rw [hs', List.map_append, List.map_append, List.map_singleton, List.map_singleton,
          SepticTank.digestAll_append, h.sequential]
      · rw [hs']
        exact hqueue
      · rw [hclients]
        exact fun call hcall => h.waits call (List.mem_cons_of_mem _ hcall)
      · exact hnodup
      · rw [hclients]
        exact h.addresses
      · intro other
        by_cases hne : other = client
        · subst hne
          rw [hclients, hphase]
          refine .answering hout ?_ ?_ hheld hanswer
          · rw [hs']
            exact hfed
          · rw [hserved, ofClient_self, hreturned, hs']
        · exact (h.accounts other).frame (hsame other hne)
      · intro message result mutation hresponding
        rw [hs'] at hresponding
        cases hresponding
        exact ⟨client, address, by rw [hclients, hphase], rfl, hout, hheld⟩

theorem Ordered.respond (h : s.Ordered cap tank queue done pending)
    (hs : s.respond woken = some s') : s'.Ordered cap tank queue done pending := by
  obtain ⟨⟨operation, clogged⟩, result, mutation, hpump, hs⟩ := respond_cases hs
  obtain ⟨client, address, hphase, hclogged, hout, hholds⟩ := h.answers _ _ _ hpump
  obtain rfl : clogged = some address := hclogged
  obtain ⟨held, hheld, hserves, hspace⟩ := id hholds
  rcases hs with ⟨hnone, -⟩ | ⟨_, responseSewer, sewer, hsome, hresponse, hs⟩
  · cases hnone
  cases hsome
  cases hresponse.symm.trans hheld
  rcases hs with ⟨hsend, -⟩ | ⟨hsend, hs'⟩
  · obtain ⟨hfull, -⟩ := hserves.send_waits hsend
    exact absurd hfull (by simp)
  obtain ⟨-, hserves', hspace'⟩ := hserves.send_done hsend
  have hclients : s'.clients = s.clients := by rw [hs']
  have haddress : (s.clients client).address = some address := by
    rw [hphase]
    rfl
  have hsame (other : ClientId) (hne : other ≠ client) :
      SameFor s s' (pending.map Prod.fst) (pending.map Prod.fst) other := by
    constructor
    · rw [hclients]
    · rw [hs']
    · rw [hs']
    · rw [hs']
      rfl
    · rw [hs']
    · exact Iff.rfl
    · intro address' results hother hheld'
      apply hheld'.congr
      rw [hs']
      exact Function.update_of_ne (h.address_ne hne haddress hother) _ _
    · intro _ address' _ _ hother hresponding
      cases hpump.symm.trans hresponding
      exact absurd rfl (h.address_ne hne haddress (by rw [hother]; rfl))
  have hmessage := messageOf_congr hclients
  have hhand : s'.pump.inHand = s.pump.inHand := by
    rw [hs', hpump]
    exact TankPumpPhase.inHand_next mutation
  constructor
  · rw [hs']
    exact h.ring
  · rw [hs']
    exact h.enqueued
  · rw [hs']
    exact h.digested
  · rw [hs']
    exact h.sequential
  · rw [hhand, hmessage]
    exact h.carried
  · rw [hclients]
    exact h.waits
  · exact h.nodup
  · rw [hclients]
    exact h.addresses
  · intro other
    by_cases hne : other = client
    · subst hne
      have haccount := h.accounts other
      rw [hphase] at haccount
      rw [hclients, hphase]
      cases haccount with
      | queued hisIn => exact absurd hisIn hout
      | answered _ _ _ hone => cases hholds.unique hone
      | answering _ hfed hserved _ hanswer =>
        cases hpump.symm.trans hanswer
        have hanswered : s'.ResponseHolds other address [result] := by
          refine ⟨sewer, ?_, hserves', hspace'.trans hspace⟩
          rw [hs']
          exact Function.update_self _ _ _
        refine .answered hout ?_ ?_ hanswered
        · rw [hs']
          exact hfed
        · rw [hs']
          exact hserved
    · exact (h.accounts other).frame (hsame other hne)
  · intro _ _ _ hresponding
    rw [hs'] at hresponding
    cases mutation <;> cases hresponding

theorem Ordered.pottyFeed (h : s.Ordered cap tank queue done pending)
    (hs : s.pottyFeed woken = some s') : s'.Ordered cap tank queue done pending := by
  obtain ⟨mutation, sewer, hpump, ⟨-, rfl⟩ | ⟨-, rfl⟩⟩ := pottyFeed_cases hs
  · refine h.of_same rfl h.ring rfl (fun _ _ _ _ => rfl) ?_
    exact fun other address' results _ hheld => hheld.congr rfl
  · refine h.of_same rfl h.ring (by rw [hpump]; rfl) ?_ ?_
    · intro _ _ _ hresponding
      rw [hpump] at hresponding
      rcases hresponding with hresponding | hresponding <;> cases hresponding
    · exact fun other address' results _ hheld => hheld.congr rfl

theorem Ordered.pottyConsume (h : s.Ordered cap tank queue done pending)
    (hs : s.pottyConsume woken = some s') : s'.Ordered cap tank queue done pending := by
  obtain ⟨out, sewer, -, rfl⟩ := pottyConsume_cases hs
  refine h.of_same rfl h.ring rfl (fun _ _ _ _ => rfl) ?_
  exact fun other address' results _ hheld => hheld.congr rfl

theorem Ordered.wake (h : s.Ordered cap tank queue done pending) (thread : SewerThread ClientId) :
    (s.wake thread).Ordered cap tank queue done pending := by
  refine h.of_same rfl (h.ring.spuriousWake thread) rfl (fun _ _ _ _ => rfl) ?_
  rintro other address' results - ⟨sewer, hsewer, hserves, hspace⟩
  refine ⟨sewer.spuriousWake thread, ?_, hserves.spuriousWake thread, ?_⟩
  · exact congrArg (Option.map (·.spuriousWake thread)) hsewer
  · rw [Sewer.spuriousWake, hspace]
    rfl

end Redic.FeedState
