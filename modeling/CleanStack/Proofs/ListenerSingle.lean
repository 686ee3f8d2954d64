import CleanStack.Outbox.PgListener

/-!
# At most one client that relays

The timer is one by its guard, whatever happens. The client is one as long as a
new one is made only when there is none, and the listener has no such guard: it
takes a failure it hears of for the failure of the client it has. A connection
that fails twice, once by its `error` and later by the rejection of `connect`,
has a successor replaced that is alive; and so do a second `start` and one that
follows a `stop` while a connection is still being made.

Without these there is never more than one wired client, and none beside a
reconnection that is due.
-/

namespace CleanStack.Outbox

open CleanStack.Lib

/-- Nobody is wired. -/
def Unwired (s : ListenerState) : Prop := ∀ client ∈ s.clients, client.wired = false

/-- A failure of the client calls for a successor, or leads to none. -/
def Replaces (s : ListenerState) (client : PgListenClient) : Prop :=
  client.wired = true ∨ s.stopping = true ∨ s.timers ≠ [] ∨ Unwired s

/-- A listener is started when it has neither a client nor a reconnection due,
and hears of the failure of a client only while that one is its client, or a
successor is due, or none is wanted. -/
def Orderly (s : ListenerState) : ListenerEvent → Prop
  | .start => Unwired s ∧ s.timers = []
  | .rejected c => ∀ client, s.clients[c]? = some client → Replaces s client
  | .beatAnswered k true => ∀ c client, s.heartbeats[k]? = some c →
      s.clients[c]? = some client → client.disposed = false → Replaces s client
  | _ => True

/-- At most one client relays, at most one reconnection is due, and neither is
there once the listener has been stopped. -/
structure OneLive (s : ListenerState) : Prop where
  relays : ∀ (i j : Nat) ci cj, s.clients[i]? = some ci → s.clients[j]? = some cj →
    ci.relays = true → cj.relays = true → i = j
  timers : s.timers.length ≤ 1
  quiet : s.stopping = true → (∀ client ∈ s.clients, client.relays = false) ∧ s.timers = []

structure Single (s : ListenerState) : Prop where
  timer : s.timers = s.reconnectTimer.toList
  alone : ∀ (i j : Nat) ci cj, s.clients[i]? = some ci → s.clients[j]? = some cj →
    ci.wired = true → cj.wired = true → i = j
  waits : ∀ client ∈ s.clients, client.wired = true → s.reconnectTimer = none
  disposed : ∀ client ∈ s.clients, client.disposed = true → client.wired = false
  flying : ∀ client ∈ s.clients, client.phase = .connecting ∨ client.phase = .querying →
    client.disposed = false → client.wired = true
  heard : ∀ (i : Nat) client, s.clients[i]? = some client → client.wired = true →
    client.phase = .listening → s.listenClient = some i
  adopted : ∀ i, s.listenClient = some i → ∃ client, s.clients[i]? = some client ∧
    client.phase = .listening
  stopped : s.stopping = true → s.reconnectTimer = none ∧ s.listenClient = none

theorem Single.oneLive {s : ListenerState} (hs : Single s) : OneLive s := by
  have hrelays : ∀ {client : PgListenClient}, client.relays = true →
      client.wired = true ∧ client.phase = .listening := by
    intro client h
    simp only [PgListenClient.relays, Bool.and_eq_true, decide_eq_true_eq] at h
    exact ⟨h.1.1, h.2⟩
  refine ⟨fun i j ci cj hi hj hri hrj => ?_, ?_, fun hstop => ⟨fun client hclient => ?_, ?_⟩⟩
  · exact hs.alone i j ci cj hi hj (hrelays hri).1 (hrelays hrj).1
  · rw [hs.timer]
    exact Option.length_toList_le
  · by_contra hnot
    rw [Bool.not_eq_false] at hnot
    obtain ⟨i, hi⟩ := List.mem_iff_getElem?.1 hclient
    have hlisten := hs.heard i client hi (hrelays hnot).1 (hrelays hnot).2
    rw [(hs.stopped hstop).2] at hlisten
    cases hlisten
  · rw [hs.timer, (hs.stopped hstop).1]
    rfl

section Helpers

variable {s t : ListenerState} {c i : Nat} {client other : PgListenClient}

theorem mem_set (h : other ∈ s.clients.set c client) :
    other = client ∨ other ∈ s.clients := by
  rcases List.mem_or_eq_of_mem_set h with hold | hnew
  · exact .inr hold
  · exact .inl hnew

/-- A client that is taken off the wire, or whose connection moves on without
getting to listen, changes nothing for the others. -/
theorem Single.set (hs : Single s) (hc : s.clients[c]? = some client)
    (client' : PgListenClient) (hwired : client'.wired = true → client.wired = true)
    (hdisposed : client'.disposed = true → client'.wired = false)
    (hflying : client'.phase = .connecting ∨ client'.phase = .querying →
      client'.disposed = false → client'.wired = true)
    (hheard : client'.wired = true → client'.phase = .listening → client.phase = .listening)
    (hadopted : s.listenClient = some c → client'.phase = .listening) :
    Single { s with clients := s.clients.set c client' } := by
  have hmem : client ∈ s.clients := List.mem_of_getElem? hc
  refine ⟨hs.timer, fun i j ci cj hi hj hwi hwj => ?_, fun other hother hw => ?_,
    fun other hother => ?_, fun other hother => ?_, fun i other hi hw hphase => ?_,
    fun i hi => ?_, hs.stopped⟩
  · rcases getElem?_set_cases hi with ⟨rfl, rfl⟩ | ⟨-, hiold⟩
    · rcases getElem?_set_cases hj with ⟨rfl, rfl⟩ | ⟨-, hjold⟩
      · rfl
      · exact hs.alone i j client cj hc hjold (hwired hwi) hwj
    · rcases getElem?_set_cases hj with ⟨rfl, rfl⟩ | ⟨-, hjold⟩
      · exact hs.alone i j ci client hiold hc hwi (hwired hwj)
      · exact hs.alone i j ci cj hiold hjold hwi hwj
  · rcases mem_set hother with rfl | hold
    · exact hs.waits client hmem (hwired hw)
    · exact hs.waits other hold hw
  · rcases mem_set hother with rfl | hold
    · exact hdisposed
    · exact hs.disposed other hold
  · rcases mem_set hother with rfl | hold
    · exact hflying
    · exact hs.flying other hold
  · rcases getElem?_set_cases hi with ⟨rfl, rfl⟩ | ⟨-, hold⟩
    · exact hs.heard i client hc (hwired hw) (hheard hw hphase)
    · exact hs.heard i other hold hw hphase
  · obtain ⟨other, hother, hphase⟩ := hs.adopted i hi
    by_cases hic : i = c
    · subst hic
      refine ⟨client', List.getElem?_set_self (List.getElem?_eq_some_iff.1 hc).1, hadopted hi⟩
    · exact ⟨other, (List.getElem?_set_ne (Ne.symm hic)).trans hother, hphase⟩

/-- The listener forgets a client that is off the wire. -/
theorem Single.forget (hs : Single s) {heartbeat : Option Nat}
    (hc : ∀ client, s.clients[c]? = some client → client.wired = false) :
    Single { s with
      listenClient := if s.listenClient = some c then none else s.listenClient
      heartbeat } := by
  refine ⟨hs.timer, hs.alone, hs.waits, hs.disposed, hs.flying,
    fun i other hi hw hphase => ?_, fun i hi => ?_, fun hstop => ?_⟩
  · have hlisten := hs.heard i other hi hw hphase
    have hne : ¬ s.listenClient = some c := by
      intro heq
      rw [hlisten] at heq
      rw [Option.some.inj heq] at hi
      rw [hc other hi] at hw
      cases hw
    exact (if_neg hne).trans hlisten
  · dsimp only at hi
    split at hi
    · cases hi
    · exact hs.adopted i hi
  · refine ⟨(hs.stopped hstop).1, ?_⟩
    dsimp only
    split
    · rfl
    · exact (hs.stopped hstop).2

theorem Single.dispose (hs : Single s) (hc : s.clients[c]? = some client) :
    Single (s.dispose c client) := by
  unfold ListenerState.dispose
  split
  · exact hs
  · have hset := hs.set hc { client with wired := false, disposed := true }
      nofun (fun _ => rfl) (fun _ h => nomatch h) nofun fun hlisten => by
        obtain ⟨other, hother, hphase⟩ := hs.adopted c hlisten
        rw [hc] at hother
        cases hother
        exact hphase
    refine hset.forget fun other hother => ?_
    rcases getElem?_set_cases hother with ⟨-, rfl⟩ | ⟨hne, -⟩
    · rfl
    · exact absurd rfl hne

/-- The only client that could be wired is not any more. -/
theorem unwired_dispose (hs : Single s) (hc : s.clients[c]? = some client)
    (hwired : client.wired = true) : Unwired (s.dispose c client) := by
  have hlive : client.disposed = false := by
    by_contra hnot
    rw [Bool.not_eq_false] at hnot
    rw [hs.disposed client (List.mem_of_getElem? hc) hnot] at hwired
    cases hwired
  intro other hother
  unfold ListenerState.dispose at hother
  rw [hlive] at hother
  obtain ⟨i, hi⟩ := List.mem_iff_getElem?.1 hother
  rcases getElem?_set_cases hi with ⟨-, rfl⟩ | ⟨hne, hold⟩
  · rfl
  · by_contra hnot
    rw [Bool.not_eq_false] at hnot
    exact hne (hs.alone i c other client hold hc hnot hwired)

theorem Single.schedule (hs : Single s)
    (h : s.stopping = true ∨ s.timers ≠ [] ∨ Unwired s) : Single s.scheduleReconnect := by
  unfold ListenerState.scheduleReconnect
  split
  · exact hs
  · next hrunning =>
      split
      · exact hs
      · next htimer =>
          have hnone : s.reconnectTimer = none := by simpa using htimer
          have htimers : s.timers = [] := by
            rw [hs.timer, hnone]
            rfl
          have hunwired : Unwired s := by
            rcases h with hstop | hdue | hunwired
            · exact absurd hstop hrunning
            · exact absurd htimers hdue
            · exact hunwired
          refine ⟨?_, hs.alone, fun other hother hw => ?_, hs.disposed, hs.flying, hs.heard,
            hs.adopted, fun hstop => absurd hstop hrunning⟩
          · rw [htimers]
            rfl
          · rw [hunwired other hother] at hw
            cases hw

theorem Single.connect (hs : Single s)
    (h : s.stopping = true ∨ s.reconnectTimer = none ∧ Unwired s) : Single s.connect := by
  unfold ListenerState.connect
  split
  · exact hs
  · next hrunning =>
      obtain ⟨hnone, hunwired⟩ := h.resolve_left hrunning
      have hnew : ∀ (i : Nat) other, (s.clients ++ [⟨.connecting, true, false⟩])[i]? = some other →
          (i = s.clients.length ∧ other = ⟨.connecting, true, false⟩) ∨
            s.clients[i]? = some other := by
        intro i other hi
        by_cases hlt : i < s.clients.length
        · rw [List.getElem?_append_left hlt] at hi
          exact .inr hi
        · rw [List.getElem?_append_right (Nat.not_lt.1 hlt)] at hi
          obtain ⟨hzero, hother⟩ := List.getElem?_eq_some_iff.1 hi
          rw [List.length_singleton] at hzero
          refine .inl ⟨by omega, ?_⟩
          rw [← hother, List.getElem_singleton]
      have hmem : ∀ other ∈ s.clients ++ [⟨.connecting, true, false⟩],
          other = ⟨.connecting, true, false⟩ ∨ other ∈ s.clients := by
        intro other hother
        rcases List.mem_append.1 hother with hold | hone
        · exact .inr hold
        · exact .inl (List.mem_singleton.1 hone)
      have hold : ∀ (i : Nat) other, s.clients[i]? = some other → other.wired ≠ true := by
        intro i other hi
        rw [hunwired other (List.mem_of_getElem? hi)]
        nofun
      refine ⟨hs.timer, fun i j ci cj hi hj hwi hwj => ?_, fun _ _ _ => hnone,
        fun other hother => ?_, fun other hother => ?_, fun i other hi hw hphase => ?_,
        fun i hi => ?_, hs.stopped⟩
      · rcases hnew i ci hi with ⟨rfl, -⟩ | hiold
        · rcases hnew j cj hj with ⟨rfl, -⟩ | hjold
          · rfl
          · exact absurd hwj (hold j cj hjold)
        · exact absurd hwi (hold i ci hiold)
      · rcases hmem other hother with rfl | hmemold
        · nofun
        · exact hs.disposed other hmemold
      · rcases hmem other hother with rfl | hmemold
        · exact fun _ _ => rfl
        · exact hs.flying other hmemold
      · rcases hnew i other hi with ⟨-, rfl⟩ | hiold
        · cases hphase
        · exact absurd hw (hold i other hiold)
      · obtain ⟨other, hother, hphase⟩ := hs.adopted i hi
        refine ⟨other, ?_, hphase⟩
        rw [List.getElem?_append_left (List.getElem?_eq_some_iff.1 hother).1]
        exact hother

theorem Single.halt (hs : Single s) : Single s.stopped := by
  have hback : ∀ (i : Nat) other, s.stopped.clients[i]? = some other →
      ∃ client, s.clients[i]? = some client ∧
        other = if s.listenClient = some i then { client with wired := false } else client := by
    intro i other hi
    rw [ListenerState.stopped, List.getElem?_mapIdx] at hi
    obtain ⟨client, hclient, rfl⟩ := Option.map_eq_some_iff.1 hi
    exact ⟨client, hclient, rfl⟩
  have hwas : ∀ (i : Nat) other, s.stopped.clients[i]? = some other → other.wired = true →
      s.listenClient ≠ some i ∧ s.clients[i]? = some other := by
    intro i other hi hw
    obtain ⟨client, hclient, rfl⟩ := hback i other hi
    by_cases hlisten : s.listenClient = some i
    · rw [if_pos hlisten] at hw
      cases hw
    · rw [if_neg hlisten]
      exact ⟨hlisten, hclient⟩
  have htimers : s.stopped.timers = [] := by
    rw [ListenerState.stopped, List.filter_eq_nil_iff]
    intro timer htimer
    rw [hs.timer, Option.mem_toList] at htimer
    simp [show s.reconnectTimer = some timer from htimer]
  refine ⟨htimers, fun i j ci cj hi hj hwi hwj => ?_, fun _ _ _ => rfl, fun other hother => ?_,
    fun other hother => ?_, fun i other hi hw hphase => ?_, nofun, fun _ => ⟨rfl, rfl⟩⟩
  · exact hs.alone i j ci cj (hwas i ci hi hwi).2 (hwas j cj hj hwj).2 hwi hwj
  · obtain ⟨i, hi⟩ := List.mem_iff_getElem?.1 hother
    obtain ⟨client, hclient, rfl⟩ := hback i other hi
    intro hdisposed
    split
    · rfl
    · next hlisten =>
        rw [if_neg hlisten] at hdisposed
        exact hs.disposed client (List.mem_of_getElem? hclient) hdisposed
  · obtain ⟨i, hi⟩ := List.mem_iff_getElem?.1 hother
    obtain ⟨client, hclient, rfl⟩ := hback i other hi
    by_cases hlisten : s.listenClient = some i
    · -- The client that is let go has completed its `LISTEN`.
      obtain ⟨client', hclient', hphase⟩ := hs.adopted i hlisten
      rw [hclient] at hclient'
      cases hclient'
      rw [if_pos hlisten]
      intro hflying
      rw [hphase] at hflying
      rcases hflying with h | h
      · cases h
      · cases h
    · rw [if_neg hlisten]
      exact hs.flying client (List.mem_of_getElem? hclient)
  · obtain ⟨hne, hold⟩ := hwas i other hi hw
    exact absurd (hs.heard i other hold hw hphase) hne

theorem Single.adopt (hs : Single s) (hc : s.clients[c]? = some client)
    (hwired : client.wired = true) (hrunning : s.stopping = false) :
    Single (ListenerState.adopt
      { s with clients := s.clients.set c { client with phase := .listening } } c) := by
  have hmem : client ∈ s.clients := List.mem_of_getElem? hc
  have hlt := (List.getElem?_eq_some_iff.1 hc).1
  refine ⟨hs.timer, fun i j ci cj hi hj hwi hwj => ?_, fun other hother hw => ?_,
    fun other hother => ?_, fun other hother => ?_, fun i other hi hw _ => ?_,
    fun i hi => ?_, fun hstop => ?_⟩
  · have hone : ∀ (k : Nat) ck, (s.clients.set c { client with phase := .listening })[k]? =
        some ck → ck.wired = true → k = c := by
      intro k ck hk hwk
      rcases getElem?_set_cases hk with ⟨rfl, -⟩ | ⟨-, hold⟩
      · rfl
      · exact hs.alone k c ck client hold hc hwk hwired
    exact (hone i ci hi hwi).trans (hone j cj hj hwj).symm
  · exact hs.waits client hmem hwired
  · rcases mem_set hother with rfl | hold
    · exact hs.disposed client hmem
    · exact hs.disposed other hold
  · rcases mem_set hother with rfl | hold
    · exact fun _ _ => hwired
    · exact hs.flying other hold
  · rcases getElem?_set_cases hi with ⟨rfl, -⟩ | ⟨-, hold⟩
    · rfl
    · exact congrArg some (hs.alone c i client other hc hold hwired hw)
  · cases hi
    exact ⟨_, List.getElem?_set_self hlt, rfl⟩
  · exact absurd (hrunning.symm.trans hstop) nofun

/-- A failure that is heard of: its client goes, and a successor is due. -/
theorem Single.fail (hs : Single s) (hc : s.clients[c]? = some client)
    (h : Replaces s client) : Single (s.dispose c client).scheduleReconnect := by
  refine (hs.dispose hc).schedule ?_
  have hsame : (s.dispose c client).stopping = s.stopping ∧
      (s.dispose c client).timers = s.timers := by
    unfold ListenerState.dispose
    split
    · exact ⟨rfl, rfl⟩
    · exact ⟨rfl, rfl⟩
  rcases h with hwired | hstop | hdue | hunwired
  · exact .inr (.inr (unwired_dispose hs hc hwired))
  · exact .inl (hsame.1.trans hstop)
  · exact .inr (.inl (hsame.2 ▸ hdue))
  · refine .inr (.inr fun other hother => ?_)
    unfold ListenerState.dispose at hother
    split at hother
    · exact hunwired other hother
    · rcases mem_set hother with rfl | hold
      · rfl
      · exact hunwired other hold

end Helpers

section Step

variable {s t : ListenerState} {e : ListenerEvent}

/-- The phase of a connection that is being made moves on. -/
theorem Single.moves (hs : Single s) {c : Nat} {client : PgListenClient}
    (hc : s.clients[c]? = some client)
    (hflying : client.phase = .connecting ∨ client.phase = .querying) (phase : ClientPhase)
    (hphase : phase ≠ .listening) :
    Single { s with clients := s.clients.set c { client with phase } } := by
  have hmem : client ∈ s.clients := List.mem_of_getElem? hc
  refine hs.set hc { client with phase } id (hs.disposed client hmem)
    (fun _ => hs.flying client hmem hflying) (fun _ h => absurd h hphase) fun hlisten => ?_
  obtain ⟨other, hother, hlistening⟩ := hs.adopted c hlisten
  rw [hc] at hother
  cases hother
  rw [hlistening] at hflying
  rcases hflying with h | h
  · cases h
  · cases h

/-- A client that gets to listen when nobody wants it is let go. -/
theorem Single.dropped (hs : Single s) {c : Nat} {client : PgListenClient}
    (hc : s.clients[c]? = some client) :
    Single (ListenerState.dispose
      { s with clients := s.clients.set c { client with phase := .listening } } c
      { client with phase := .listening }) := by
  have hmem : client ∈ s.clients := List.mem_of_getElem? hc
  unfold ListenerState.dispose
  split
  · next hdisposed =>
      have hunwired := hs.disposed client hmem hdisposed
      refine hs.set hc { client with phase := .listening } id (fun _ => hunwired)
        (fun _ hlive => ?_) (fun hw => ?_) fun _ => rfl
      · exact absurd (hdisposed.symm.trans hlive) nofun
      · rw [hunwired] at hw
        cases hw
  · dsimp only
    rw [List.set_set]
    refine (hs.set hc ⟨.listening, false, true⟩ nofun (fun _ => rfl) (fun _ h => nomatch h) nofun
      fun _ => rfl).forget fun other hother => ?_
    rcases getElem?_set_cases hother with ⟨-, rfl⟩ | ⟨hne, -⟩
    · rfl
    · exact absurd rfl hne

/-- The timer that fires is the only one, and nobody is wired while it is due. -/
theorem Single.fires (hs : Single s) {timer : Nat} (hdue : timer ∈ s.timers) :
    Single (ListenerState.connect
      { s with timers := s.timers.erase timer, reconnectTimer := none }) := by
  rw [hs.timer, Option.mem_toList] at hdue
  have htimer : s.reconnectTimer = some timer := hdue
  have htimers : s.timers.erase timer = [] := by
    rw [hs.timer, htimer]
    simp
  have hrunning : ¬ s.stopping = true := by
    intro hstop
    rw [(hs.stopped hstop).1] at htimer
    cases htimer
  have hunwired : Unwired s := by
    intro other hother
    by_contra hnot
    rw [Bool.not_eq_false] at hnot
    rw [hs.waits other hother hnot] at htimer
    cases htimer
  refine Single.connect ⟨htimers, hs.alone, fun _ _ _ => rfl, hs.disposed, hs.flying, hs.heard,
    hs.adopted, fun hstop => absurd hstop hrunning⟩ (.inr ⟨rfl, hunwired⟩)

theorem Single.step (hs : Single s) (hcond : Orderly s e) (h : listenerStep s e = some t) :
    Single t := by
  cases e with
  | start =>
      cases h
      obtain ⟨hunwired, htimers⟩ := hcond
      have hnone : s.reconnectTimer = none := by
        rw [hs.timer] at htimers
        exact Option.toList_eq_nil_iff.1 htimers
      refine Single.connect ⟨hs.timer, hs.alone, hs.waits, hs.disposed, hs.flying, hs.heard,
        hs.adopted, nofun⟩ (.inr ⟨hnone, hunwired⟩)
  | stop =>
      cases h
      exact hs.halt
  | connected c =>
      obtain ⟨client, hc, h⟩ := Option.bind_eq_some_iff.1 h
      split at h
      · next hphase =>
          cases h
          exact hs.moves hc (.inl hphase) .querying nofun
      · cases h
  | listened c =>
      obtain ⟨client, hc, h⟩ := Option.bind_eq_some_iff.1 h
      split at h
      · next hphase =>
          dsimp only at h
          split at h
          · obtain rfl := Option.some.inj h
            exact hs.dropped hc
          · next hlive =>
              obtain rfl := Option.some.inj h
              rw [Bool.or_eq_true, not_or, Bool.not_eq_true, Bool.not_eq_true] at hlive
              exact hs.adopt hc
                (hs.flying client (List.mem_of_getElem? hc) (.inr hphase) hlive.1) hlive.2
      · cases h
  | rejected c =>
      obtain ⟨client, hc, h⟩ := Option.bind_eq_some_iff.1 h
      split at h
      · next hphase =>
          obtain rfl := Option.some.inj h
          rw [Bool.or_eq_true, decide_eq_true_eq, decide_eq_true_eq] at hphase
          refine (hs.moves hc hphase .rejected nofun).fail
            (List.getElem?_set_self (List.getElem?_eq_some_iff.1 hc).1) ?_
          rcases hcond client hc with hwired | hstop | hdue | hunwired
          · exact .inl hwired
          · exact .inr (.inl hstop)
          · exact .inr (.inr (.inl hdue))
          · refine .inr (.inr (.inr fun other hother => ?_))
            rcases mem_set hother with rfl | hold
            · exact hunwired client (List.mem_of_getElem? hc)
            · exact hunwired other hold
      · cases h
  | error c =>
      obtain ⟨client, hc, h⟩ := Option.bind_eq_some_iff.1 h
      split at h
      · next hwired =>
          obtain rfl := Option.some.inj h
          exact hs.fail hc (.inl hwired)
      · cases h
  | ended c =>
      obtain ⟨client, hc, h⟩ := Option.bind_eq_some_iff.1 h
      split at h
      · next hwired =>
          split at h
          · cases h
            exact hs
          · obtain rfl := Option.some.inj h
            exact hs.fail hc (.inl hwired)
      · cases h
  | beat =>
      obtain ⟨c, -, rfl⟩ := Option.map_eq_some_iff.1 h
      exact ⟨hs.timer, hs.alone, hs.waits, hs.disposed, hs.flying, hs.heard, hs.adopted,
        hs.stopped⟩
  | beatAnswered k failed =>
      obtain ⟨c, hk, h⟩ := Option.bind_eq_some_iff.1 h
      obtain ⟨client, hc, rfl⟩ := Option.map_eq_some_iff.1 h
      have hsame : Single { s with heartbeats := s.heartbeats.eraseIdx k } :=
        ⟨hs.timer, hs.alone, hs.waits, hs.disposed, hs.flying, hs.heard, hs.adopted, hs.stopped⟩
      dsimp only
      split
      · next hfails =>
          rw [Bool.and_eq_true, Bool.not_eq_true'] at hfails
          obtain ⟨rfl, hlive⟩ := hfails
          exact hsame.fail hc (hcond c client hk hc hlive)
      · exact hsame
  | fire timer =>
      unfold listenerStep at h
      dsimp only at h
      split at h
      · next hdue =>
          cases h
          exact hs.fires hdue
      · cases h

end Step

theorem single_newListener : Single newListener :=
  ⟨rfl, nofun, nofun, nofun, nofun, nofun, nofun, nofun⟩

theorem one_live_listener {s : ListenerState} {es : List ListenerEvent}
    (hmeets : Meets listenerStep Orderly newListener es)
    (h : exec listenerStep newListener es = some s) : OneLive s :=
  (runs_inv_meets (fun _ _ _ hs hcond hstep => hs.step hcond hstep) single_newListener hmeets
    h).oneLive

/-! ## Runs on fixed inputs -/

/-- The first connection errs and is replaced, and its rejection comes when the
second is up. -/
def lateRejection : List ListenerEvent :=
  [.start, .error 0, .fire 0, .connected 1, .listened 1, .rejected 0, .fire 1, .connected 2,
    .listened 2]

/-- The listener is stopped and started while its first connection is being made. -/
def restarted : List ListenerEvent :=
  [.start, .stop, .start, .connected 0, .listened 0, .connected 1, .listened 1]

def relaying : PgListenClient := ⟨.listening, true, false⟩

theorem two_live_listeners :
    (∃ s, exec listenerStep newListener lateRejection = some s ∧ ¬ OneLive s) ∧
      ∃ s, exec listenerStep newListener restarted = some s ∧ ¬ OneLive s := by
  have hview : (exec listenerStep newListener lateRejection).map
      (fun s => (s.clients[1]?, s.clients[2]?)) = some (some relaying, some relaying) := by decide
  have hview' : (exec listenerStep newListener restarted).map
      (fun s => (s.clients[0]?, s.clients[1]?)) = some (some relaying, some relaying) := by decide
  obtain ⟨s, hs, hclients⟩ := Option.map_eq_some_iff.1 hview
  obtain ⟨s', hs', hclients'⟩ := Option.map_eq_some_iff.1 hview'
  obtain ⟨h1, h2⟩ := Prod.mk.inj hclients
  obtain ⟨h0, h1'⟩ := Prod.mk.inj hclients'
  refine ⟨⟨s, hs, fun hlive => ?_⟩, s', hs', fun hlive => ?_⟩
  · exact absurd (hlive.relays 1 2 _ _ h1 h2 rfl rfl) (by decide)
  · exact absurd (hlive.relays 0 1 _ _ h0 h1' rfl rfl) (by decide)

/-- A test that is enough for `Orderly`. -/
def keepsOrderly (s : ListenerState) : ListenerEvent → Bool
  | .start => s.clients.all (fun client => !client.wired) && s.timers.isEmpty
  | .rejected c => s.clients[c]?.all fun client => client.wired
  | .beatAnswered k _ => s.heartbeats[k]?.all fun c => s.clients[c]?.all fun client =>
      client.disposed
  | _ => true

theorem orderly_of_keepsOrderly (s : ListenerState) (e : ListenerEvent)
    (h : keepsOrderly s e = true) : Orderly s e := by
  cases e with
  | start =>
      obtain ⟨hunwired, htimers⟩ := Bool.and_eq_true_iff.1 h
      refine ⟨fun client hclient => ?_, List.isEmpty_iff.1 htimers⟩
      simpa using List.all_eq_true.1 hunwired client hclient
  | rejected c =>
      intro client hc
      rw [keepsOrderly, hc, Option.all_some] at h
      exact .inl h
  | beatAnswered k failed =>
      cases failed with
      | true =>
          intro c client hk hc hlive
          rw [keepsOrderly, hk, Option.all_some, hc, Option.all_some] at h
          exact absurd (h.symm.trans hlive) nofun
      | false => trivial
  | _ => trivial

/-- A connection that dies is replaced, its late heartbeat changes nothing, and the
listener is stopped and started again. -/
def replacedOnce : List ListenerEvent :=
  [.start, .connected 0, .listened 0, .beat, .error 0, .fire 0, .beatAnswered 0 true,
    .connected 1, .listened 1, .stop, .start, .rejected 2, .fire 1, .connected 3, .listened 3]

theorem one_live_listener_replaced : ∃ s, exec listenerStep newListener replacedOnce = some s ∧
    s.clients.map PgListenClient.relays = [false, false, false, true] ∧ OneLive s := by
  have hrun : (exec listenerStep newListener replacedOnce).map
      (fun s => s.clients.map PgListenClient.relays) = some [false, false, false, true] := by
    decide
  obtain ⟨s, hs, hrelays⟩ := Option.map_eq_some_iff.1 hrun
  exact ⟨s, hs, hrelays,
    one_live_listener (meets_of_passes orderly_of_keepsOrderly (by decide)) hs⟩

end CleanStack.Outbox
