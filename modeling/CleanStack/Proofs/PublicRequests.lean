import CleanStack.Webhooks.DeliveryWorker

/-!
# Where a delivery's requests go

The guard refuses an endpoint whose host resolves to a private address, and the
request resolves the host again; `fetch` then follows the redirects it is
answered with. Neither is looked at, so what keeps the requests of a delivery
public is what may happen around it: the addresses that names are connected to
when `fetch` resolves them, and the URLs that receivers redirect to. An
`Environment` says which those are, and allows every network that keeps to them.
-/

namespace CleanStack.Webhooks

open CleanStack.Drizzle CleanStack.Kit

section Requests

variable {κ : Type} {p : Platform κ} {net : Network}

/-! ## What may happen around a delivery -/

/-- The addresses a host may be connected to, and the URLs a receiver may
redirect to. Such a URL is absolute: it reads as itself whatever it is read
against. -/
structure Environment (p : Platform κ) where
  resolves : String → String → Prop
  redirects : Url → Prop
  absolute : ∀ base next, redirects next → p.resolveUrl base next.href = some next
  http : ∀ next, redirects next → next.protocol = "http:" ∨ next.protocol = "https:"

/-- Any address at any connection, and any redirect at any answer, among those. -/
structure Environment.Allows (env : Environment p) (net : Network) : Prop where
  connect : ∀ hop host address, net.connect hop host = .ok address → env.resolves host address
  answer : ∀ hop url r next, net.answer hop url = .response r →
    redirectOf p url r = .follow next → env.redirects next

/-- Where the host of a URL can be connected to, there and at whatever URL a
receiver may redirect to, it is to public addresses. -/
def Environment.PublicFrom (env : Environment p) (url : Url) : Prop :=
  ∀ address, env.resolves url.hostname address → isPrivateOrReservedAddress address = false ∧
    ∀ next, env.redirects next → ∀ address, env.resolves next.hostname address →
      isPrivateOrReservedAddress address = false

/-! ## The requests of a fetch -/

theorem fetchFrom_eq {left hop : Nat} {url : Url} {method address : String}
    (hconnect : net.connect hop url.hostname = .ok address) :
    (fetchFrom p net left hop url method).1 = ⟨url, method, address⟩ ::
      match net.answer hop url with
      | .lost _ => []
      | .response r =>
          match redirectOf p url r, left with
          | .follow next, left + 1 =>
              (fetchFrom p net left (hop + 1) next (redirectMethod r.status method)).1
          | _, _ => [] := by
  rw [fetchFrom, hconnect]
  dsimp only
  cases net.answer hop url with
  | lost error => rfl
  | response r =>
      dsimp only
      cases redirectOf p url r with
      | stay => rfl
      | broken => rfl
      | follow next => cases left <;> rfl

theorem fetchFrom_of_unconnected {left hop : Nat} {url : Url} {method error : String}
    (hconnect : net.connect hop url.hostname = .error error) :
    (fetchFrom p net left hop url method).1 = [] := by
  rw [fetchFrom, hconnect]

/-- The first request goes where the host is connected to, and every other one
where a host is that was redirected to. -/
theorem address_of_sent {env : Environment p} (hnet : env.Allows net) {left : Nat} :
    ∀ {hop : Nat} {url : Url} {method : String} {sent : SentRequest},
      sent ∈ (fetchFrom p net left hop url method).1 →
      (∃ address, env.resolves url.hostname address) ∧
        (env.resolves url.hostname sent.address ∨
          ∃ next, env.redirects next ∧ env.resolves next.hostname sent.address) := by
  induction left with
  | zero =>
      intro hop url method sent hsent
      cases hconnect : net.connect hop url.hostname with
      | error error =>
          rw [fetchFrom_of_unconnected hconnect] at hsent
          cases hsent
      | ok address =>
          have hresolves := hnet.connect hop _ _ hconnect
          rw [fetchFrom_eq hconnect] at hsent
          rcases List.mem_cons.1 hsent with rfl | hrest
          · exact ⟨⟨address, hresolves⟩, .inl hresolves⟩
          · split at hrest
            · cases hrest
            · split at hrest
              · next heq => cases heq
              · cases hrest
  | succ left ih =>
      intro hop url method sent hsent
      cases hconnect : net.connect hop url.hostname with
      | error error =>
          rw [fetchFrom_of_unconnected hconnect] at hsent
          cases hsent
      | ok address =>
          have hresolves := hnet.connect hop _ _ hconnect
          rw [fetchFrom_eq hconnect] at hsent
          rcases List.mem_cons.1 hsent with rfl | hrest
          · exact ⟨⟨address, hresolves⟩, .inl hresolves⟩
          · refine ⟨⟨address, hresolves⟩, .inr ?_⟩
            split at hrest
            · cases hrest
            · next r hanswer =>
                split at hrest
                · next next left' hfollow heq =>
                    cases heq
                    have hnext := hnet.answer hop url r next hanswer hfollow
                    obtain ⟨-, hsent | hlater⟩ := ih hrest
                    · exact ⟨next, hnext, hsent⟩
                    · exact hlater
                · cases hrest

theorem fetchFrom_public {env : Environment p} (hnet : env.Allows net) {url : Url}
    (hpublic : env.PublicFrom url) {left hop : Nat} {method : String} :
    ∀ sent ∈ (fetchFrom p net left hop url method).1,
      isPrivateOrReservedAddress sent.address = false := by
  intro sent hsent
  obtain ⟨⟨address, hresolves⟩, hown | ⟨next, hnext, hlater⟩⟩ := address_of_sent hnet hsent
  · exact (hpublic _ hown).1
  · exact (hpublic address hresolves).2 next hnext _ hlater

/-! ## What the environment can do with it -/

/-- A network that connects one host, and drops what it is asked. -/
def connectingNetwork (host address : String) : Network where
  connect _ asked := if asked = host then .ok address else .error "ENOTFOUND"
  answer _ _ := .lost "ECONNRESET"

theorem connecting_allowed {env : Environment p} {host address : String}
    (hresolves : env.resolves host address) :
    env.Allows (connectingNetwork host address) where
  connect := by
    intro hop asked found h
    unfold connectingNetwork at h
    dsimp only at h
    split at h
    · next hsame =>
        cases h
        rw [hsame]
        exact hresolves
    · cases h
  answer := by
    intro hop url r next h
    cases h

theorem connecting_sends (p : Platform κ) (url : Url) (address method : String) (left : Nat) :
    ⟨url, method, address⟩ ∈
      (fetchFrom p (connectingNetwork url.hostname address) left 0 url method).1 := by
  have hconnect : (connectingNetwork url.hostname address).connect 0 url.hostname =
      .ok address := if_pos rfl
  rw [fetchFrom_eq hconnect]
  exact List.mem_cons_self

def foundAt (location : String) : Response := ⟨302, "Found", [("location", location)], none⟩

/-- A network whose first receiver redirects. -/
def redirectingNetwork (host address : String) (next : Url) (inner : String) : Network where
  connect hop asked :=
    if hop = 0 ∧ asked = host then .ok address
    else if asked = next.hostname then .ok inner
    else .error "ENOTFOUND"
  answer hop _ := if hop = 0 then .response (foundAt next.href) else .lost "ECONNRESET"

theorem redirectOf_foundAt {env : Environment p} {next : Url} (hnext : env.redirects next)
    (url : Url) : redirectOf p url (foundAt next.href) = .follow next := by
  have hstatus : [301, 302, 303, 307, 308].contains (foundAt next.href).status = true := rfl
  have hlocation : (foundAt next.href).location = some next.href := rfl
  rw [redirectOf, if_pos hstatus, hlocation]
  dsimp only
  rw [env.absolute url next hnext]
  dsimp only
  rw [if_pos]
  rcases env.http next hnext with h | h <;> simp [h]

theorem redirecting_allowed {env : Environment p} {host address inner : String} {next : Url}
    (hresolves : env.resolves host address) (hnext : env.redirects next)
    (hinner : env.resolves next.hostname inner) :
    env.Allows (redirectingNetwork host address next inner) where
  connect := by
    intro hop asked found h
    unfold redirectingNetwork at h
    dsimp only at h
    split at h
    · next hfirst =>
        cases h
        rw [hfirst.2]
        exact hresolves
    · split at h
      · next hsame =>
          cases h
          rw [hsame]
          exact hinner
      · cases h
  answer := by
    intro hop url r target h hfollow
    unfold redirectingNetwork at h
    dsimp only at h
    split at h
    · cases h
      rw [redirectOf_foundAt hnext] at hfollow
      cases hfollow
      exact hnext
    · cases h

theorem redirecting_sends {env : Environment p} {next : Url} (hnext : env.redirects next)
    (url : Url) (address inner method : String) (left : Nat) :
    ∃ method', ⟨next, method', inner⟩ ∈
      (fetchFrom p (redirectingNetwork url.hostname address next inner) (left + 1) 0 url
        method).1 := by
  have hanswer : (redirectingNetwork url.hostname address next inner).answer 0 url =
      .response (foundAt next.href) := rfl
  refine ⟨redirectMethod 302 method, ?_⟩
  have hfirst : (redirectingNetwork url.hostname address next inner).connect 0 url.hostname =
      .ok address := if_pos ⟨rfl, rfl⟩
  rw [fetchFrom_eq hfirst, hanswer]
  dsimp only
  rw [redirectOf_foundAt hnext]
  refine List.mem_cons_of_mem _ ?_
  dsimp only
  have hconnect : (redirectingNetwork url.hostname address next inner).connect (0 + 1)
      next.hostname = .ok inner := by
    unfold redirectingNetwork
    simp
  rw [fetchFrom_eq hconnect]
  exact List.mem_cons_self

/-- Whatever the environment allows is public, exactly if all it has is. -/
theorem fetch_public_iff (env : Environment p) (url : Url) (method : String) :
    (∀ net, env.Allows net → ∀ sent ∈ (fetchFrom p net MAX_REDIRECTS 0 url method).1,
      isPrivateOrReservedAddress sent.address = false) ↔ env.PublicFrom url := by
  constructor
  · intro hall address hresolves
    refine ⟨?_, fun next hnext inner hinner => ?_⟩
    · exact hall _ (connecting_allowed hresolves) ⟨url, method, address⟩
        (connecting_sends p url address method MAX_REDIRECTS)
    · obtain ⟨method', hsent⟩ := redirecting_sends hnext url address inner method 19
      exact hall _ (redirecting_allowed hresolves hnext hinner) ⟨next, method', inner⟩ hsent
  · exact fun hpublic net hnet => fetchFrom_public hnet hpublic

/-! ## A delivery -/

variable {settings : DeliverySettings} {masterKey : Option κ} {w : World}
  {delivery : DeliveryRow}

/-- Nothing stops the delivery before its request: the endpoint is enabled, the
guard lets its URL through, and its secrets can be decrypted. -/
def ReachesNetwork (p : Platform κ) (settings : DeliverySettings) (masterKey : Option κ)
    (w : World) (url : Url) : Prop :=
  ∃ endpoint key secrets, w.endpoint = .ok (some endpoint) ∧
    assertPublicUrl p.parseUrl endpoint.url w.lookup settings.httpsOnly
      settings.lookupTimeoutMs = .ok url ∧
    masterKey = some key ∧ decryptSecrets p endpoint key w.now = .ok secrets

theorem processDelivery_sent {url : Url}
    (h : ReachesNetwork p settings masterKey w url) :
    (processDelivery p settings masterKey w delivery).2 =
      (fetchFrom p w.net MAX_REDIRECTS 0 url "POST").1 := by
  obtain ⟨endpoint, key, secrets, hendpoint, hguard, rfl, hsecrets⟩ := h
  have hparse := (assertPublicUrl_eq_ok hguard).1
  simp only [processDelivery, hendpoint, hguard, hsecrets, sendDelivery, fetch, hparse]

theorem processDelivery_quiet (h : ∀ url, ¬ ReachesNetwork p settings masterKey w url) :
    (processDelivery p settings masterKey w delivery).2 = [] := by
  unfold processDelivery
  split
  · rfl
  · rfl
  · next endpoint hendpoint =>
      dsimp only
      split
      · split
        · rfl
        · rfl
      · next url hguard =>
          cases hkey : masterKey with
          | none => rfl
          | some key =>
              dsimp only
              split
              · rfl
              · next secrets hsecrets =>
                  exact absurd ⟨endpoint, key, secrets, hendpoint, hguard, hkey, hsecrets⟩ (h url)

theorem reachesNetwork_once {url url' : Url} (h : ReachesNetwork p settings masterKey w url)
    (h' : ReachesNetwork p settings masterKey w url') : url = url' := by
  obtain ⟨endpoint, key, secrets, hendpoint, hguard, -⟩ := h
  obtain ⟨endpoint', key', secrets', hendpoint', hguard', -⟩ := h'
  rw [hendpoint] at hendpoint'
  cases hendpoint'
  rw [hguard] at hguard'
  cases hguard'
  rfl

/-- Whatever the environment does, the requests of a delivery go to public
addresses, exactly if the delivery sends none, or the addresses its endpoint's
host may be connected to are public and so are those of every URL a receiver may
redirect to. -/
theorem requests_public_iff (env : Environment p) (settings : DeliverySettings)
    (masterKey : Option κ) (w : World) (delivery : DeliveryRow) :
    (∀ net, env.Allows net →
      ∀ sent ∈ (processDelivery p settings masterKey { w with net } delivery).2,
        isPrivateOrReservedAddress sent.address = false) ↔
    ∀ url, ReachesNetwork p settings masterKey w url → env.PublicFrom url := by
  by_cases hreaches : ∃ url, ReachesNetwork p settings masterKey w url
  · obtain ⟨url, hurl⟩ := hreaches
    have hsent : ∀ net, (processDelivery p settings masterKey { w with net } delivery).2 =
        (fetchFrom p net MAX_REDIRECTS 0 url "POST").1 := fun net =>
      processDelivery_sent (w := { w with net }) hurl
    simp only [hsent]
    rw [fetch_public_iff]
    constructor
    · intro hpublic url' hurl'
      rw [← reachesNetwork_once hurl hurl']
      exact hpublic
    · exact fun hall => hall url hurl
  · refine iff_of_true (fun net _ sent hsent => ?_) fun url hurl => absurd ⟨url, hurl⟩ hreaches
    rw [processDelivery_quiet (w := { w with net }) fun url hurl => hreaches ⟨url, hurl⟩] at hsent
    cases hsent

/-- What the guard is good for: a host that keeps the addresses the guard has
seen, behind a receiver that does not redirect. -/
theorem requests_public_of_steady
    (hsteady : ∀ addrs hop host address, w.lookup = .addresses addrs →
      w.net.connect hop host = .ok address → address ∈ addrs)
    (hstay : ∀ hop url r next, w.net.answer hop url = .response r →
      redirectOf p url r ≠ .follow next) :
    ∀ sent ∈ (processDelivery p settings masterKey w delivery).2,
      isPrivateOrReservedAddress sent.address = false := by
  by_cases hreaches : ∃ url, ReachesNetwork p settings masterKey w url
  · obtain ⟨url, hurl⟩ := hreaches
    obtain ⟨endpoint, -, -, -, hguard, -⟩ := id hurl
    obtain ⟨-, addrs, hlookup, hpublic⟩ := assertPublicUrl_eq_ok hguard
    let env : Environment p :=
      { resolves := fun _ address => address ∈ addrs
        redirects := fun _ => False
        absolute := fun _ _ h => h.elim
        http := fun _ h => h.elim }
    have hallows : env.Allows w.net :=
      ⟨fun hop host address h => hsteady addrs hop host address hlookup h,
        fun hop url r next hanswer hfollow => hstay hop url r next hanswer hfollow⟩
    rw [processDelivery_sent hurl]
    exact fetchFrom_public hallows fun address h => ⟨hpublic address h, fun _ hnext => hnext.elim⟩
  · rw [processDelivery_quiet fun url hurl => hreaches ⟨url, hurl⟩]
    exact fun sent hsent => by cases hsent

end Requests

/-! ## A redirect inwards -/

/-- A public host that answers with a redirect to the metadata service. -/
def redirectingWorld : World where
  endpoint := .ok (some ⟨"w1", "org", hooksUrl.href, "secret", none, none⟩)
  lookup := .addresses ["93.184.216.34"]
  net :=
    { connect := fun hop _ => .ok (if hop = 0 then "93.184.216.34" else "169.254.169.254")
      answer := fun _ _ =>
        .response ⟨302, "Found", [("location", metadataUrl.href)], none⟩ }
  now := 0
  durationMs := 5

theorem redirect_reaches_metadata :
    ¬ ∀ (settings : DeliverySettings) (masterKey : Option Unit) (w : World)
      (delivery : DeliveryRow),
      ∀ sent ∈ (processDelivery plainPlatform settings masterKey w delivery).2,
        isPrivateOrReservedAddress sent.address = false := by
  intro hall
  have hpublic := hall ⟨true, 5000, 4096⟩ (some ()) redirectingWorld paidDelivery
  have hprivate : (processDelivery plainPlatform ⟨true, 5000, 4096⟩ (some ()) redirectingWorld
      paidDelivery).2.any (fun sent => isPrivateOrReservedAddress sent.address) = true := by
    decide
  obtain ⟨sent, hsent, haddress⟩ := List.any_eq_true.1 hprivate
  rw [hpublic sent hsent] at haddress
  cases haddress

end CleanStack.Webhooks
