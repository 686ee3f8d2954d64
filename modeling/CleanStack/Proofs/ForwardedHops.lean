import CleanStack.Http.ClientIp

/-!
# What a forwarded header decides

Everything left of the hop a header is decided by may come from the client. A
hop decides when something is left of it after its port, its brackets and its
zone are taken off, and that is no trusted proxy; of an entry such as `%eth0`
nothing is left, and the walk passes it by like an empty one.
-/

namespace CleanStack.Http

open CleanStack.Kit

variable {integer : String → Option Int}

/-- The proxies that are trusted; without entries, none is. -/
def proxies (integer : String → Option Int) (trustedProxies : Option (List String)) :
    BlockList :=
  buildList integer (trustedProxies.getD [])

def Decides (list : BlockList) (hop : String) : Prop :=
  normalizeHop (trim hop) ≠ "" ∧ isTrusted (normalizeHop (trim hop)) list = false

theorem check_empty (ip : String) (family : Family) :
    BlockList.empty.check ip family = false := by
  cases family
  · cases h : ipv4? ip.toList <;> simp [BlockList.check, BlockList.empty, h]
  · cases h : ipv6? ip.toList <;> simp [BlockList.check, BlockList.empty, h]

theorem isTrusted_empty (ip : String) : isTrusted ip BlockList.empty = false := by
  simp [isTrusted, check_empty]

theorem isTrusted_unknown (list : BlockList) : isTrusted "unknown" list = false := by
  have hv4 : isIPv4 "unknown" = false := by decide
  have hv6 : isIPv6 "unknown" = false := by decide
  simp [isTrusted, hv4, hv6]

/-- Without a list every peer is as one that is not on it. -/
theorem resolveClientIp_of_untrusted {trustedProxies : Option (List String)}
    {cache : ListCache integer} {c : Peer}
    (h : isTrusted (normalizeHop (c.remoteAddress.getD "")) (proxies integer trustedProxies) =
      false) :
    (resolveClientIp cache trustedProxies c).1 =
      orUnknown (normalizeHop (c.remoteAddress.getD "")) := by
  show clientIp (trustedList cache trustedProxies).1 c = _
  rw [trustedList_fst]
  split
  · rfl
  · show clientIp (some (proxies integer trustedProxies)) c = _
    simp [clientIp, h]

/-- Without a list no peer is a trusted proxy, as with an empty one. -/
theorem isFromTrustedProxy_eq (cache : ListCache integer) (trustedProxies : Option (List String))
    (c : Peer) : (isFromTrustedProxy cache trustedProxies c).1 =
      isTrusted (normalizeHop (c.remoteAddress.getD "")) (proxies integer trustedProxies) := by
  have hany : (isFromTrustedProxy cache trustedProxies c).1 =
      (trustedList cache trustedProxies).1.any fun list =>
        isTrusted (normalizeHop (c.remoteAddress.getD "")) list := by
    rw [isFromTrustedProxy]
    obtain ⟨list, _⟩ := trustedList cache trustedProxies
    cases list <;> rfl
  rw [hany, trustedList_fst]
  split
  · next hnil =>
      rw [Option.any_none, proxies, hnil]
      exact (isTrusted_empty _).symm
  · rfl

/-- Whoever is no trusted proxy is known by the address it connects from. -/
theorem resolveClientIp_of_direct {cache cache' : ListCache integer}
    {trustedProxies : Option (List String)} {c : Peer}
    (h : (isFromTrustedProxy cache trustedProxies c).1 = false) :
    (resolveClientIp cache' trustedProxies c).1 =
      orUnknown (normalizeHop (c.remoteAddress.getD "")) :=
  resolveClientIp_of_untrusted ((isFromTrustedProxy_eq cache trustedProxies c).symm.trans h)

/-! ## The walk -/

theorem rightmostUntrusted_append {list : BlockList} {skipped rest : List String} {hop : String}
    (hskip : ∀ h ∈ skipped, ¬(h ≠ "" ∧ isTrusted h list = false))
    (hhop : hop ≠ "" ∧ isTrusted hop list = false) :
    rightmostUntrusted list (skipped ++ hop :: rest) = some hop := by
  induction skipped with
  | nil => simp [rightmostUntrusted, hhop]
  | cons h skipped ih =>
      have hh := hskip h List.mem_cons_self
      rw [List.cons_append, rightmostUntrusted, if_neg (by simpa using hh)]
      exact ih fun x hx => hskip x (List.mem_cons_of_mem _ hx)

theorem exists_rightmost {α : Type*} {p : α → Prop} {xs : List α} (h : ∃ x ∈ xs, p x) :
    ∃ left x right, xs = left ++ x :: right ∧ p x ∧ ∀ y ∈ right, ¬p y := by
  induction xs with
  | nil => simp at h
  | cons a xs ih =>
      by_cases hxs : ∃ x ∈ xs, p x
      · obtain ⟨left, x, right, rfl, hx, hright⟩ := ih hxs
        exact ⟨a :: left, x, right, rfl, hx, hright⟩
      · have hnone : ∀ y ∈ xs, ¬p y := fun y hy hp => hxs ⟨y, hy, hp⟩
        obtain ⟨x, hx, hp⟩ := h
        rcases List.mem_cons.1 hx with rfl | hx
        · exact ⟨[], x, xs, rfl, hp, hnone⟩
        · exact absurd hp (hnone x hx)

/-- The hop a header is decided by is the client, when the peer is trusted. -/
theorem resolveClientIp_of_decides {trustedProxies : Option (List String)}
    {cache : ListCache integer} {socket : Option String} {xff hop : String}
    {left right : List String}
    (htrusted : isTrusted (normalizeHop (socket.getD "")) (proxies integer trustedProxies) = true)
    (hhops : hopsOf xff = left ++ hop :: right)
    (hdecides : Decides (proxies integer trustedProxies) hop)
    (hright : ∀ h ∈ right, ¬Decides (proxies integer trustedProxies) h) :
    (resolveClientIp cache trustedProxies ⟨socket, some xff⟩).1 = normalizeHop (trim hop) := by
  have hlist : trustedProxies.getD [] ≠ [] := by
    intro hnil
    rw [proxies, hnil] at htrusted
    rw [show buildList integer [] = BlockList.empty from rfl, isTrusted_empty] at htrusted
    cases htrusted
  have hxff : xff ≠ "" := by
    rintro rfl
    have hone : hopsOf "" = [""] := by decide
    rw [hone] at hhops
    have hmem : hop ∈ [""] := by simp [hhops]
    obtain rfl := List.mem_singleton.1 hmem
    exact hdecides.1 (by decide)
  show clientIp (trustedList cache trustedProxies).1 ⟨socket, some xff⟩ = _
  rw [trustedList_fst, if_neg hlist]
  show clientIp (some (proxies integer trustedProxies)) ⟨socket, some xff⟩ = _
  simp only [clientIp, htrusted, Bool.not_true, Bool.false_eq_true, if_false, if_neg hxff, hhops,
    List.map_append, List.map_cons, List.reverse_append, List.reverse_cons, List.append_assoc,
    List.singleton_append]
  rw [rightmostUntrusted_append ?_ hdecides, Option.getD_some]
  intro h hh
  obtain ⟨x, hx, rfl⟩ := List.mem_map.1 (List.mem_reverse.1 hh)
  exact hright x hx

/-- What is left of the deciding hop has no say, and the peer's word counts for
nothing when it is no trusted proxy. -/
theorem resolveClientIp_unspoofed (integer : String → Option Int)
    (trustedProxies : Option (List String)) (socket : Option String)
    (cache cache' : ListCache integer) :
    (∀ xff xff' left left' hop right, hopsOf xff = left ++ hop :: right →
      hopsOf xff' = left' ++ hop :: right → Decides (proxies integer trustedProxies) hop →
      (∀ h ∈ right, ¬Decides (proxies integer trustedProxies) h) →
      (resolveClientIp cache trustedProxies ⟨socket, some xff⟩).1 =
        (resolveClientIp cache' trustedProxies ⟨socket, some xff'⟩).1) ∧
    (isTrusted (normalizeHop (socket.getD "")) (proxies integer trustedProxies) = false →
      ∀ forwarded forwarded', (resolveClientIp cache trustedProxies ⟨socket, forwarded⟩).1 =
        (resolveClientIp cache' trustedProxies ⟨socket, forwarded'⟩).1) ∧
    ∀ xff, (∃ hop ∈ hopsOf xff, Decides (proxies integer trustedProxies) hop) →
      isTrusted (resolveClientIp cache trustedProxies ⟨socket, some xff⟩).1
        (proxies integer trustedProxies) = false := by
  have hpeer : isTrusted (normalizeHop (socket.getD "")) (proxies integer trustedProxies) =
      false → ∀ forwarded forwarded' : Option String,
      (resolveClientIp cache trustedProxies ⟨socket, forwarded⟩).1 =
        (resolveClientIp cache' trustedProxies ⟨socket, forwarded'⟩).1 := by
    intro h forwarded forwarded'
    rw [resolveClientIp_of_untrusted (c := ⟨socket, forwarded⟩) h,
      resolveClientIp_of_untrusted (c := ⟨socket, forwarded'⟩) h]
  refine ⟨?_, hpeer, ?_⟩
  · intro xff xff' left left' hop right hhops hhops' hdecides hright
    by_cases htrusted :
        isTrusted (normalizeHop (socket.getD "")) (proxies integer trustedProxies) = true
    · rw [resolveClientIp_of_decides htrusted hhops hdecides hright,
        resolveClientIp_of_decides htrusted hhops' hdecides hright]
    · exact hpeer (Bool.eq_false_iff.2 htrusted) _ _
  · intro xff hexists
    by_cases htrusted :
        isTrusted (normalizeHop (socket.getD "")) (proxies integer trustedProxies) = true
    · obtain ⟨left, hop, right, hhops, hdecides, hright⟩ := exists_rightmost hexists
      rw [resolveClientIp_of_decides htrusted hhops hdecides hright]
      exact hdecides.2
    · have huntrusted := Bool.eq_false_iff.2 htrusted
      rw [resolveClientIp_of_untrusted (c := ⟨socket, some xff⟩) huntrusted, orUnknown]
      split
      · exact isTrusted_unknown _
      · exact huntrusted

theorem resolveClientIp_unspoofed_two_headers :
    (resolveClientIp (ListCache.empty fun _ => none) (some ["10.0.0.1"])
        ⟨some "10.0.0.1", some "1.1.1.1, 203.0.113.9:443, 10.0.0.1"⟩).1 =
      (resolveClientIp (ListCache.empty fun _ => none) (some ["10.0.0.1"])
        ⟨some "10.0.0.1", some "8.8.8.8, 203.0.113.9:443, 10.0.0.1"⟩).1 := by
  refine (resolveClientIp_unspoofed (fun _ => none) (some ["10.0.0.1"]) (some "10.0.0.1") _ _).1
    _ _ ["1.1.1.1"] ["8.8.8.8"] " 203.0.113.9:443" [" 10.0.0.1"] ?_ ?_ ?_ ?_
  · decide
  · decide
  · unfold Decides
    decide
  · intro h hh
    obtain rfl := List.mem_singleton.1 hh
    unfold Decides
    decide

/-- Nothing is left of the hop `%eth0`, so the one before it decides; and where
there is none before it, the proxy itself is the client. -/
theorem zone_hop_passed_by :
    (∃ hop, hopsOf "1.1.1.1,%eth0" = ["1.1.1.1", hop] ∧
      hopsOf "2.2.2.2,%eth0" = ["2.2.2.2", hop] ∧ trim hop ≠ "" ∧
      isTrusted (trim hop) (proxies (fun _ => none) (some ["10.0.0.1"])) = false ∧
      isTrusted (normalizeHop (trim hop)) (proxies (fun _ => none) (some ["10.0.0.1"])) = false) ∧
    (resolveClientIp (ListCache.empty fun _ => none) (some ["10.0.0.1"])
        ⟨some "10.0.0.1", some "1.1.1.1,%eth0"⟩).1 = "1.1.1.1" ∧
    (resolveClientIp (ListCache.empty fun _ => none) (some ["10.0.0.1"])
        ⟨some "10.0.0.1", some "2.2.2.2,%eth0"⟩).1 = "2.2.2.2" ∧
    isTrusted (resolveClientIp (ListCache.empty fun _ => none) (some ["10.0.0.1"])
        ⟨some "10.0.0.1", some "%eth0"⟩).1 (proxies (fun _ => none) (some ["10.0.0.1"])) = true := by
  refine ⟨⟨"%eth0", ?_⟩, ?_⟩ <;> decide

end CleanStack.Http
