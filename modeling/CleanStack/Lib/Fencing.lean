import CleanStack.Lib.Table
import Mathlib.Tactic.Linarith

/-!
# Fencing tokens that can go down

A row carries a counter. A claim raises the counter by one and keeps the value
it reached as its token; a write by the claim is accepted only while the
counter still equals that token. If the counter only ever rose, a stale claim
could never write again. Here a claim may also be released, which gives its
value back, so the same token is issued many times over and the textbook
argument is gone.

What replaces it is `Sound`: the claims of a row that were not released carry
tokens that increase in claim order, and none exceeds the counter. A release
takes the counter from `n` to `n - 1`, and `Sound` survives because the one
unreleased claim with token `n` is the one being released. Everything said
about fencing is read off this invariant: held tokens are distinct, and a claim
whose token matches the counter has nothing but released claims after it.

The second half lifts the per-row statement to a table with a ledger of
claims, a clock and a due date per row. `Step` lists the moves a lease queue
may make; `Inv` is what they preserve.
-/

namespace CleanStack.Lib.Fencing

open CleanStack.Lib Keyed

/-- What became of a claim: still held, ended by a write that was accepted,
ended by a write that found nothing to write, or given back. -/
inductive Fate
  | held
  | settled
  | refused
  | released
  deriving DecidableEq, Repr

structure Claim (κ : Type*) where
  id : Nat
  row : κ
  token : Int
  expires : Nat
  fate : Fate
  deriving DecidableEq

/-! ## One row -/

section Row

variable {κ : Type*}

/-- The unreleased claims of one row, in claim order, against its counter. -/
structure Sound (n : Int) (cs : List (Claim κ)) : Prop where
  le : ∀ c ∈ cs, c.fate ≠ .released → c.token ≤ n
  increasing : cs.Pairwise fun a b =>
    a.fate ≠ .released → b.fate ≠ .released → a.token < b.token

theorem Sound.nil (n : Int) : Sound n ([] : List (Claim κ)) where
  le := by intro c hc; cases hc
  increasing := List.Pairwise.nil

theorem Sound.claim {n : Int} {cs : List (Claim κ)} (h : Sound n cs)
    {c : Claim κ} (hc : c.token = n + 1) : Sound (n + 1) (cs ++ [c]) where
  le := by
    intro d hd hfate
    rcases List.mem_append.1 hd with hd | hd
    · have := h.le d hd hfate
      omega
    · rw [List.mem_singleton.1 hd, hc]
  increasing := by
    refine List.pairwise_append.2 ⟨h.increasing, List.pairwise_singleton _ _, ?_⟩
    intro a ha b hb hfa _
    rw [List.mem_singleton.1 hb, hc]
    have := h.le a ha hfa
    omega

/-- Ending claims changes their fate and nothing else, and a released claim
stays released. -/
structure Ends (g : Claim κ → Claim κ) : Prop where
  row : ∀ c, (g c).row = c.row
  token : ∀ c, (g c).token = c.token
  expires : ∀ c, (g c).expires = c.expires
  released : ∀ c, c.fate = .released → (g c).fate = .released
  held : ∀ c, (g c).fate = .held → c.fate = .held

theorem Ends.unreleased {g : Claim κ → Claim κ} (hg : Ends g) {c : Claim κ}
    (h : (g c).fate ≠ .released) : c.fate ≠ .released :=
  fun hc => h (hg.released c hc)

theorem Sound.ends {n : Int} {cs : List (Claim κ)} (h : Sound n cs)
    {g : Claim κ → Claim κ} (hg : Ends g) : Sound n (cs.map g) where
  le := by
    intro c hc hfate
    obtain ⟨d, hd, rfl⟩ := List.mem_map.1 hc
    rw [hg.token]
    exact h.le d hd (hg.unreleased hfate)
  increasing := by
    rw [List.pairwise_map]
    refine h.increasing.imp ?_
    intro a b hab ha hb
    rw [hg.token, hg.token]
    exact hab (hg.unreleased ha) (hg.unreleased hb)

/-- Giving the top value back: every claim that carries it is released. -/
theorem Sound.release {n : Int} {cs : List (Claim κ)} (h : Sound n cs)
    {g : Claim κ → Claim κ} (hg : Ends g)
    (htop : ∀ c ∈ cs, c.token = n → (g c).fate = .released) :
    Sound (n - 1) (cs.map g) where
  le := by
    intro c hc hfate
    obtain ⟨d, hd, rfl⟩ := List.mem_map.1 hc
    rw [hg.token]
    have hle := h.le d hd (hg.unreleased hfate)
    have hne : d.token ≠ n := fun he => hfate (htop d hd he)
    omega
  increasing := (h.ends hg).increasing

/-- A claim whose token matches the counter is followed by released claims
only. -/
theorem Sound.later_released {n : Int} {as bs : List (Claim κ)} {c : Claim κ}
    (h : Sound n (as ++ c :: bs)) (hc : c.fate ≠ .released) (hn : c.token = n) :
    ∀ d ∈ bs, d.fate = .released := by
  intro d hd
  by_contra hfate
  have hle : d.token ≤ n := h.le d (by simp [hd]) hfate
  have hpair := (List.pairwise_append.1 h.increasing).2.1
  have hlt := (List.pairwise_cons.1 hpair).1 d hd hc hfate
  omega

/-- Two unreleased claims of a row that carry the same token are one. -/
theorem Sound.unique {n : Int} {cs : List (Claim κ)} (h : Sound n cs)
    {c d : Claim κ} (hc : c ∈ cs) (hd : d ∈ cs) (hfc : c.fate ≠ .released)
    (hfd : d.fate ≠ .released) (he : c.token = d.token) : c = d := by
  by_contra hne
  obtain ⟨i, hi, rfl⟩ := List.getElem_of_mem hc
  obtain ⟨j, hj, rfl⟩ := List.getElem_of_mem hd
  have hij : i ≠ j := fun hij => hne (by subst hij; rfl)
  have hp := List.pairwise_iff_getElem.1 h.increasing
  rcases Nat.lt_or_gt_of_ne hij with hlt | hlt
  · have := hp i j hi hj hlt hfc hfd
    omega
  · have := hp j i hj hi hlt hfd hfc
    omega

end Row

/-! ## A table and its ledger -/

/-- What fencing reads of a row: the counter and the date it is due again. -/
class Leasable (ρ : Type*) where
  counter : ρ → Int
  dueAt : ρ → Option Nat

open Leasable

variable {ρ κ : Type*} [Keyed ρ κ] [Leasable ρ] [DecidableEq κ]

structure State (ρ : Type*) {κ : Type*} [Keyed ρ κ] where
  clock : Nat
  table : Table ρ
  ledger : List (Claim κ)

/-- The claims of one row, in claim order. -/
def claimsOf (ledger : List (Claim κ)) (k : κ) : List (Claim κ) :=
  ledger.filter fun c => c.row = k

/-- The lease condition: same row, same counter. -/
def leases (c : Claim κ) (r : ρ) : Bool :=
  c.row = key r && c.token = counter r

/-- The rows a write by the held claims `mine` reaches. -/
def reached (isOpen : ρ → Bool) (mine : Claim κ → Bool) (ledger : List (Claim κ))
    (r : ρ) : Bool :=
  isOpen r && ledger.any fun c => mine c && c.fate = .held && leases c r

/-- What the same write does to the ledger: the claims it was made with end,
with `won` if their row was reached and refused otherwise. -/
def close (isOpen : ρ → Bool) (mine : Claim κ → Bool) (t : Table ρ) (won : Fate)
    (c : Claim κ) : Claim κ :=
  if mine c && c.fate = .held then
    { c with fate := if t.rows.any fun r => isOpen r && leases c r then won else .refused }
  else c

/-- The ledger entry of a row a claim returned. -/
def entry (id expires : Nat) (r : ρ) : Claim κ :=
  { id := id, row := key r, token := counter r, expires := expires, fate := .held }

/-- The moves of a lease queue whose claims last `lease` and whose rows accept
writes while `isOpen`. -/
inductive Step (lease : Nat) (isOpen : ρ → Bool) : State ρ → State ρ → Prop
  | claim {s : State ρ} (picked : ρ → Bool) (upd : ρ → ρ)
      (hkey : ∀ r, key (upd r) = key r) (id : Nat) (claimed : List ρ)
      (hperm : claimed.Perm (s.table.returning picked upd))
      (hdue : ∀ r ∈ s.table.rows, picked r = true →
        ∀ d, dueAt r = some d → d ≤ s.clock)
      (hcounter : ∀ r, counter (upd r) = counter r + 1)
      (hlease : ∀ r, dueAt (upd r) = some (s.clock + lease)) :
      Step lease isOpen s
        { s with
          table := s.table.update picked upd hkey
          ledger := s.ledger ++ claimed.map (entry id (s.clock + lease)) }
  | settle {s : State ρ} (mine : Claim κ → Bool) (f : ρ → ρ)
      (hkey : ∀ r, key (f r) = key r)
      (hcounter : ∀ r, counter (f r) = counter r) :
      Step lease isOpen s
        { s with
          table := s.table.update (reached isOpen mine s.ledger) f hkey
          ledger := s.ledger.map (close isOpen mine s.table .settled) }
  | release {s : State ρ} (mine : Claim κ → Bool) (f : ρ → ρ)
      (hkey : ∀ r, key (f r) = key r)
      (hcounter : ∀ r, counter (f r) = counter r - 1) :
      Step lease isOpen s
        { s with
          table := s.table.update (reached isOpen mine s.ledger) f hkey
          ledger := s.ledger.map (close isOpen mine s.table .released) }
  | touch {s : State ρ} (p : ρ → Bool) (f : ρ → ρ)
      (hkey : ∀ r, key (f r) = key r)
      (hcounter : ∀ r, counter (f r) = counter r)
      (hdue : ∀ r, p r = true → dueAt (f r) = dueAt r ∨
        ∃ d, dueAt r = some d ∧ s.clock + lease < d) :
      Step lease isOpen s { s with table := s.table.update p f hkey }
  | enqueue {s : State ρ} (r : ρ) (t : Table ρ) (h : s.table.insert r = some t) :
      Step lease isOpen s { s with table := t }
  | tick {s : State ρ} (n : Nat) : Step lease isOpen s { s with clock := s.clock + n }

/-- What every move preserves. -/
structure Inv (lease : Nat) (s : State ρ) : Prop where
  sound : ∀ r ∈ s.table.rows, Sound (counter r) (claimsOf s.ledger (key r))
  known : ∀ c ∈ s.ledger, ∃ r ∈ s.table.rows, key r = c.row
  aged : s.ledger.Pairwise fun a b =>
    a.row = b.row → a.fate = .held → a.expires ≤ s.clock
  live : ∀ r ∈ s.table.rows, ∀ c ∈ s.ledger, c.row = key r → c.fate = .held →
    s.clock < c.expires → dueAt r = some c.expires
  bounded : ∀ c ∈ s.ledger, c.expires ≤ s.clock + lease

theorem Inv.init {lease : Nat} {s : State ρ} (h : s.ledger = []) : Inv lease s where
  sound := by
    intro r _
    rw [h]
    exact Sound.nil _
  known := by rw [h]; intro c hc; cases hc
  aged := by rw [h]; exact List.Pairwise.nil
  live := by rw [h]; intro r _ c hc; cases hc
  bounded := by rw [h]; intro c hc; cases hc

theorem mem_claimsOf {ledger : List (Claim κ)} {k : κ} {c : Claim κ} :
    c ∈ claimsOf ledger k ↔ c ∈ ledger ∧ c.row = k := by
  simp [claimsOf, List.mem_filter]

theorem claimsOf_append {as bs : List (Claim κ)} {k : κ} :
    claimsOf (as ++ bs) k = claimsOf as k ++ claimsOf bs k :=
  List.filter_append as bs

theorem claimsOf_map {ledger : List (Claim κ)} {g : Claim κ → Claim κ}
    (hg : ∀ c, (g c).row = c.row) {k : κ} :
    claimsOf (ledger.map g) k = (claimsOf ledger k).map g := by
  simp only [claimsOf, List.filter_map]
  congr 1
  refine List.filter_congr fun c _ => ?_
  simp [hg c]

theorem leases_iff {c : Claim κ} {r : ρ} :
    leases c r = true ↔ c.row = key r ∧ c.token = counter r := by
  simp [leases]

theorem reached_iff {isOpen : ρ → Bool} {mine : Claim κ → Bool}
    {ledger : List (Claim κ)} {r : ρ} :
    reached isOpen mine ledger r = true ↔ isOpen r = true ∧
      ∃ c ∈ ledger, mine c = true ∧ c.fate = .held ∧ c.row = key r ∧
        c.token = counter r := by
  simp [reached, leases_iff, and_assoc]

/-- A write made with a list of held claims reaches the rows one of them
leases. -/
theorem reached_of_held {isOpen : ρ → Bool} {cs ledger : List (Claim κ)}
    (hcs : ∀ c ∈ cs, c ∈ ledger ∧ c.fate = .held) (r : ρ) :
    reached isOpen (fun c => decide (c ∈ cs)) ledger r =
      (cs.any (fun c => leases c r) && isOpen r) := by
  rw [Bool.eq_iff_iff, reached_iff, Bool.and_eq_true, List.any_eq_true]
  constructor
  · rintro ⟨hopen, c, -, hmine, -, hrow, htoken⟩
    exact ⟨⟨c, by simpa using hmine, leases_iff.2 ⟨hrow, htoken⟩⟩, hopen⟩
  · rintro ⟨⟨c, hc, hl⟩, hopen⟩
    obtain ⟨hrow, htoken⟩ := leases_iff.1 hl
    exact ⟨hopen, c, (hcs c hc).1, by simpa using hc, (hcs c hc).2, hrow, htoken⟩

theorem close_ends (isOpen : ρ → Bool) (mine : Claim κ → Bool) (t : Table ρ)
    (won : Fate) (hwon : won ≠ .held) : Ends (close isOpen mine t won) where
  row := by intro c; unfold close; split <;> rfl
  token := by intro c; unfold close; split <;> rfl
  expires := by intro c; unfold close; split <;> rfl
  released := by
    intro c hc
    unfold close
    simp [hc]
  held := by
    intro c hc
    unfold close at hc
    split at hc
    · simp only at hc
      split at hc
      · exact absurd hc hwon
      · cases hc
    · exact hc

theorem close_of_reached {isOpen : ρ → Bool} {mine : Claim κ → Bool} {t : Table ρ}
    {won : Fate} {c : Claim κ} {r : ρ} (hr : r ∈ t.rows) (hopen : isOpen r = true)
    (hmine : mine c = true) (hheld : c.fate = .held) (hrow : c.row = key r)
    (htoken : c.token = counter r) : (close isOpen mine t won c).fate = won := by
  have hany : (t.rows.any fun r => isOpen r && leases c r) = true :=
    List.any_eq_true.2 ⟨r, hr, by simp [hopen, leases_iff, hrow, htoken]⟩
  simp [close, hmine, hheld, hany]

/-- A row a held claim reaches: its later claims are all released. -/
theorem Inv.later_released {lease : Nat} {s : State ρ} (h : Inv lease s)
    {as bs : List (Claim κ)} {c : Claim κ} {r : ρ} (hr : r ∈ s.table.rows)
    (hsplit : s.ledger = as ++ c :: bs) (hc : c.fate ≠ .released)
    (hl : leases c r = true) :
    ∀ d ∈ bs, d.row = c.row → d.fate = .released := by
  obtain ⟨hrow, htoken⟩ := leases_iff.1 hl
  have hs := h.sound r hr
  rw [hsplit, claimsOf_append] at hs
  have hcons : claimsOf (c :: bs) (key r) = c :: claimsOf bs (key r) := by
    simp [claimsOf, hrow]
  rw [hcons] at hs
  intro d hd hdrow
  exact hs.later_released hc htoken d (mem_claimsOf.2 ⟨hd, hdrow.trans hrow⟩)

/-- The tokens held on a row are pairwise distinct. -/
def TokensDistinct (s : State ρ) : Prop :=
  s.ledger.Pairwise fun a b =>
    a.row = b.row → a.fate = .held → b.fate = .held → a.token ≠ b.token

theorem Inv.tokensDistinct {lease : Nat} {s : State ρ} (h : Inv lease s) :
    TokensDistinct s := by
  rw [TokensDistinct, List.pairwise_iff_forall_sublist]
  intro a b hsub hrow ha hb he
  have hmem : a ∈ s.ledger := hsub.subset (by simp)
  obtain ⟨r, hr, hkr⟩ := h.known a hmem
  have hpair : ([a, b] : List (Claim κ)).Sublist (claimsOf s.ledger (key r)) := by
    have := hsub.filter fun c => decide (c.row = key r)
    simpa [claimsOf, hkr, hrow] using this
  have hlt := List.pairwise_iff_forall_sublist.1 (h.sound r hr).increasing hpair
    (by simp [ha]) (by simp [hb])
  omega

/-- Every row a statement changed was written by one of the claims `cs`, held
at that moment and followed by released claims of the row only. -/
def WritesFenced (s t : State ρ) (cs : List (Claim κ)) : Prop :=
  ∀ k, t.table.find? k ≠ s.table.find? k →
    ∃ as c bs, s.ledger = as ++ c :: bs ∧ c ∈ cs ∧ c.row = k ∧ c.fate = .held ∧
      ∀ d ∈ bs, d.row = k → d.fate = .released

theorem Inv.writesFenced {lease : Nat} {s t : State ρ} (h : Inv lease s)
    {cs : List (Claim κ)} (hcs : ∀ c ∈ cs, c ∈ s.ledger ∧ c.fate = .held)
    {p : ρ → Bool} (hp : ∀ r, p r = true → ∃ c ∈ cs, leases c r = true)
    {f : ρ → ρ} (hkey : ∀ r, key (f r) = key r)
    (ht : t.table = s.table.update p f hkey) : WritesFenced s t cs := by
  intro k hne
  rw [ht, Table.find?_update] at hne
  cases hr : s.table.find? k with
  | none => simp [hr] at hne
  | some r =>
      obtain ⟨hmem, hk⟩ := Table.find?_eq_some.1 hr
      have hpr : p r = true := by
        by_contra hpr
        simp [hr, hpr] at hne
      obtain ⟨c, hc, hl⟩ := hp r hpr
      obtain ⟨as, bs, hsplit⟩ := List.append_of_mem (hcs c hc).1
      have hrow : c.row = k := (leases_iff.1 hl).1.trans hk
      refine ⟨as, c, bs, hsplit, hc, hrow, (hcs c hc).2, ?_⟩
      intro d hd hdrow
      exact h.later_released hmem hsplit (by simp [(hcs c hc).2]) hl d hd
        (hdrow.trans hrow.symm)

/-- While a claim is held and its lease runs, the row is due when it ends. -/
theorem Inv.not_due {lease : Nat} {s : State ρ} (h : Inv lease s) {r : ρ}
    (hr : r ∈ s.table.rows) {c : Claim κ} (hc : c ∈ s.ledger)
    (hrow : c.row = key r) (hheld : c.fate = .held) (hlive : s.clock < c.expires) :
    ∃ d, dueAt r = some d ∧ s.clock < d ∧ d ≤ s.clock + lease :=
  ⟨c.expires, h.live r hr c hc hrow hheld hlive, hlive, h.bounded c hc⟩

/-! ## The moves keep the invariant -/

section Moves

variable {lease : Nat} {isOpen : ρ → Bool} {s : State ρ}

theorem claimsOf_entries {picked : ρ → Bool} {upd : ρ → ρ} {claimed : List ρ}
    {t : Table ρ} (hkey : ∀ r, key (upd r) = key r)
    (hperm : claimed.Perm (t.returning picked upd)) {id expires : Nat} {r : ρ}
    (hr : r ∈ t.rows) :
    claimsOf (claimed.map (entry id expires)) (key r) =
      if picked r then [entry id expires (upd r)] else [] := by
  have hnodup : (claimed.map key).Nodup :=
    (hperm.map key).nodup_iff.2 (Table.nodup_returning hkey)
  have hfilter : claimsOf (claimed.map (entry id expires)) (key r) =
      (claimed.filter fun x => key x = key r).map (entry id expires) := by
    simp only [claimsOf, List.filter_map]
    rfl
  rw [hfilter]
  split
  · next hp =>
      have hmem : upd r ∈ claimed :=
        hperm.mem_iff.2 (Table.mem_returning.2 ⟨r, hr, hp, rfl⟩)
      have hone : claimed.filter (fun x => key x = key r) = [upd r] := by
        have hsub : ∀ x ∈ claimed.filter (fun x => key x = key r), x = upd r := by
          intro x hx
          obtain ⟨hx, hxk⟩ := List.mem_filter.1 hx
          exact List.inj_on_of_nodup_map hnodup hx hmem
            ((by simpa using hxk : key x = key r).trans (hkey r).symm)
        have hnd : (claimed.filter fun x => key x = key r).Nodup :=
          (List.Nodup.of_map key hnodup).filter _
        have hin : upd r ∈ claimed.filter (fun x => key x = key r) :=
          List.mem_filter.2 ⟨hmem, by simp [hkey r]⟩
        generalize claimed.filter (fun x => key x = key r) = l at hsub hnd hin
        match l, hsub, hnd, hin with
        | [x], hsub, _, _ => rw [hsub x (by simp)]
        | x :: y :: l, hsub, hnd, _ =>
            have hx := hsub x (by simp)
            have hy := hsub y (by simp)
            subst hx
            subst hy
            simp at hnd
      rw [hone, List.map_singleton]
  · next hp =>
      have hnone : claimed.filter (fun x => key x = key r) = [] := by
        rw [List.filter_eq_nil_iff]
        intro x hx hxk
        obtain ⟨r₀, hr₀, hp₀, rfl⟩ := Table.mem_returning.1 (hperm.mem_iff.1 hx)
        have hk₀ : key r₀ = key r := (hkey r₀).symm.trans (by simpa using hxk)
        rw [Table.eq_of_key hr₀ hr hk₀] at hp₀
        exact hp hp₀
      rw [hnone, List.map_nil]

theorem Inv.claim (h : Inv lease s) (picked : ρ → Bool) (upd : ρ → ρ)
    (hkey : ∀ r, key (upd r) = key r) (id : Nat) (claimed : List ρ)
    (hperm : claimed.Perm (s.table.returning picked upd))
    (hdue : ∀ r ∈ s.table.rows, picked r = true →
      ∀ d, dueAt r = some d → d ≤ s.clock)
    (hcounter : ∀ r, counter (upd r) = counter r + 1)
    (hlease : ∀ r, dueAt (upd r) = some (s.clock + lease)) :
    Inv lease
      { s with
        table := s.table.update picked upd hkey
        ledger := s.ledger ++ claimed.map (entry id (s.clock + lease)) } := by
  have hnew : ∀ c ∈ claimed.map (entry (κ := κ) id (s.clock + lease)),
      ∃ r ∈ s.table.rows, picked r = true ∧ c = entry id (s.clock + lease) (upd r) := by
    intro c hc
    obtain ⟨x, hx, rfl⟩ := List.mem_map.1 hc
    obtain ⟨r, hr, hp, rfl⟩ := Table.mem_returning.1 (hperm.mem_iff.1 hx)
    exact ⟨r, hr, hp, rfl⟩
  -- a row that can be claimed has no held claim whose lease still runs
  have hover : ∀ r ∈ s.table.rows, picked r = true → ∀ c ∈ s.ledger,
      c.row = key r → c.fate = .held → c.expires ≤ s.clock := by
    intro r hr hp c hc hrow hheld
    by_contra hlt
    exact hlt (hdue r hr hp _ (h.live r hr c hc hrow hheld (by omega)))
  refine ⟨?sound, ?known, ?aged, ?live, ?bounded⟩
  case sound =>
    intro r' hr'
    obtain ⟨r, hr, rfl⟩ := (Table.mem_update hkey).1 hr'
    have hk := Table.key_image (p := picked) hkey r
    rw [hk, claimsOf_append, claimsOf_entries hkey hperm hr]
    split
    · next hp =>
        rw [hcounter]
        exact (h.sound r hr).claim (hcounter r)
    · next hp =>
        rw [List.append_nil]
        exact h.sound r hr
  case known =>
    intro c hc
    have hex : ∃ r ∈ s.table.rows, key r = c.row := by
      rcases List.mem_append.1 hc with hc | hc
      · exact h.known c hc
      · obtain ⟨r, hr, _, rfl⟩ := hnew c hc
        exact ⟨r, hr, (hkey r).symm⟩
    obtain ⟨r, hr, hk⟩ := hex
    exact ⟨_, Table.mem_update_of_mem hr picked hkey,
      (Table.key_image hkey r).trans hk⟩
  case aged =>
    refine List.pairwise_append.2 ⟨h.aged, ?_, ?_⟩
    · rw [List.pairwise_map]
      have hnd : claimed.Pairwise fun a b => key a ≠ key b := by
        have := (hperm.map key).nodup_iff.2 (Table.nodup_returning hkey)
        rwa [List.Nodup, List.pairwise_map] at this
      exact hnd.imp fun hab hrow _ => absurd hrow hab
    · intro a ha b hb hrow hheld
      obtain ⟨r, hr, hp, rfl⟩ := hnew b hb
      exact hover r hr hp a ha (hrow.trans (hkey r)) hheld
  case live =>
    intro r' hr' c hc hrow hheld hlt
    obtain ⟨r, hr, rfl⟩ := (Table.mem_update hkey).1 hr'
    have hk := Table.key_image (p := picked) hkey r
    rw [hk] at hrow
    rcases List.mem_append.1 hc with hc | hc
    · split
      · next hp =>
          have := hover r hr hp c hc hrow hheld
          simp only at hlt
          omega
      · next hp => exact h.live r hr c hc hrow hheld hlt
    · obtain ⟨r₀, hr₀, hp₀, rfl⟩ := hnew c hc
      have : r₀ = r := Table.eq_of_key hr₀ hr ((hkey r₀).symm.trans hrow)
      subst this
      rw [if_pos hp₀]
      exact hlease r₀
  case bounded =>
    intro c hc
    rcases List.mem_append.1 hc with hc | hc
    · exact h.bounded c hc
    · obtain ⟨r, _, _, rfl⟩ := hnew c hc
      exact Nat.le_refl _

/-- A settlement or a release; the two differ in what they do to the counter,
which is `hsound`. -/
theorem Inv.write (h : Inv lease s) (mine : Claim κ → Bool) (f : ρ → ρ)
    (hkey : ∀ r, key (f r) = key r) {won : Fate} (hwon : won ≠ .held)
    (hsound : ∀ r ∈ s.table.rows, reached isOpen mine s.ledger r = true →
      Sound (counter (f r))
        ((claimsOf s.ledger (key r)).map (close isOpen mine s.table won))) :
    Inv lease
      { s with
        table := s.table.update (reached isOpen mine s.ledger) f hkey
        ledger := s.ledger.map (close isOpen mine s.table won) } := by
  have hends := close_ends isOpen mine s.table won hwon
  have hk := Table.key_image (p := reached isOpen mine s.ledger) hkey
  refine ⟨?sound, ?known, ?aged, ?live, ?bounded⟩
  case sound =>
    intro r' hr'
    obtain ⟨r, hr, rfl⟩ := (Table.mem_update hkey).1 hr'
    rw [hk r, claimsOf_map hends.row]
    split
    · next hp => exact hsound r hr hp
    · next hp => exact (h.sound r hr).ends hends
  case known =>
    intro c hc
    obtain ⟨d, hd, rfl⟩ := List.mem_map.1 hc
    obtain ⟨r, hr, hkr⟩ := h.known d hd
    refine ⟨_, Table.mem_update_of_mem hr _ hkey, ?_⟩
    rw [hk r, hends.row]
    exact hkr
  case aged =>
    rw [List.pairwise_map]
    refine h.aged.imp ?_
    intro a b hab hrow hheld
    rw [hends.expires]
    rw [hends.row, hends.row] at hrow
    exact hab hrow (hends.held a hheld)
  case live =>
    intro r' hr' c' hc' hrow hheld hlt
    obtain ⟨r, hr, rfl⟩ := (Table.mem_update hkey).1 hr'
    obtain ⟨c, hc, rfl⟩ := List.mem_map.1 hc'
    have hcheld := hends.held c hheld
    rw [hk r, hends.row] at hrow
    rw [hends.expires] at hlt ⊢
    split
    · next hp =>
        -- `c` is still held after the write and its lease runs, so it is the
        -- last claim of the row; the claim that wrote is unreleased and is
        -- neither `c` nor before it
        exfalso
        obtain ⟨hopen, w, hw, hmine, hwheld, hwrow, hwtoken⟩ := reached_iff.1 hp
        have hne : w ≠ c := by
          rintro rfl
          rw [close_of_reached hr hopen hmine hwheld hwrow hwtoken] at hheld
          exact hwon hheld
        obtain ⟨i, hi, rfl⟩ := List.getElem_of_mem hw
        obtain ⟨j, hj, rfl⟩ := List.getElem_of_mem hc
        have hij : i ≠ j := fun hij => hne (by subst hij; rfl)
        rcases Nat.lt_or_gt_of_ne hij with hlo | hlo
        · have hsplit : s.ledger = s.ledger.take i ++ s.ledger[i] :: s.ledger.drop (i + 1) := by
            rw [List.getElem_cons_drop, List.take_append_drop]
          have hlater := h.later_released hr hsplit (by simp [hwheld])
            (leases_iff.2 ⟨hwrow, hwtoken⟩) s.ledger[j]
            (List.mem_drop_iff_getElem.2 ⟨j - (i + 1), by omega, by congr 1; omega⟩)
            (hrow.trans hwrow.symm)
          rw [hlater] at hcheld
          cases hcheld
        · have haged := List.pairwise_iff_getElem.1 h.aged j i hj hi hlo
            (hrow.trans hwrow.symm) hcheld
          simp only at hlt
          omega
    · next hp => exact h.live r hr c hc hrow hcheld hlt
  case bounded =>
    intro c hc
    obtain ⟨d, hd, rfl⟩ := List.mem_map.1 hc
    rw [hends.expires]
    exact h.bounded d hd

theorem Inv.touch (h : Inv lease s) (p : ρ → Bool) (f : ρ → ρ)
    (hkey : ∀ r, key (f r) = key r)
    (hcounter : ∀ r, counter (f r) = counter r)
    (hdue : ∀ r, p r = true → dueAt (f r) = dueAt r ∨
      ∃ d, dueAt r = some d ∧ s.clock + lease < d) :
    Inv lease { s with table := s.table.update p f hkey } := by
  have hk := Table.key_image (p := p) hkey
  refine ⟨?sound, ?known, h.aged, ?live, h.bounded⟩
  case sound =>
    intro r' hr'
    obtain ⟨r, hr, rfl⟩ := (Table.mem_update hkey).1 hr'
    have hc : counter (if p r then f r else r) = counter r := by
      split
      · exact hcounter r
      · rfl
    rw [hk r, hc]
    exact h.sound r hr
  case known =>
    intro c hc
    obtain ⟨r, hr, hkr⟩ := h.known c hc
    exact ⟨_, Table.mem_update_of_mem hr p hkey, (hk r).trans hkr⟩
  case live =>
    intro r' hr' c hc hrow hheld hlt
    obtain ⟨r, hr, rfl⟩ := (Table.mem_update hkey).1 hr'
    rw [hk r] at hrow
    have hlive := h.live r hr c hc hrow hheld hlt
    split
    · next hp =>
        rcases hdue r hp with he | ⟨d, hd, hfar⟩
        · rw [he]
          exact hlive
        · rw [hlive] at hd
          cases hd
          have := h.bounded c hc
          omega
    · exact hlive

theorem Inv.enqueue (h : Inv lease s) {r : ρ} {t : Table ρ}
    (hins : s.table.insert r = some t) : Inv lease { s with table := t } := by
  have hfresh : ∀ c ∈ s.ledger, c.row ≠ key r := by
    intro c hc he
    obtain ⟨r₀, hr₀, hk⟩ := h.known c hc
    exact Table.insert_fresh hins r₀ hr₀ (hk.trans he)
  refine ⟨?sound, ?known, h.aged, ?live, h.bounded⟩
  case sound =>
    intro r' hr'
    rcases (Table.mem_insert hins).1 hr' with rfl | hr'
    · have hnil : claimsOf s.ledger (key r') = [] := by
        rw [claimsOf, List.filter_eq_nil_iff]
        intro c hc
        simpa using hfresh c hc
      rw [hnil]
      exact Sound.nil _
    · exact h.sound r' hr'
  case known =>
    intro c hc
    obtain ⟨r₀, hr₀, hk⟩ := h.known c hc
    exact ⟨r₀, (Table.mem_insert hins).2 (.inr hr₀), hk⟩
  case live =>
    intro r' hr' c hc hrow
    rcases (Table.mem_insert hins).1 hr' with rfl | hr'
    · exact absurd hrow (hfresh c hc)
    · exact h.live r' hr' c hc hrow

theorem Inv.tick (h : Inv lease s) (n : Nat) :
    Inv lease { s with clock := s.clock + n } where
  sound := h.sound
  known := h.known
  aged := h.aged.imp fun hab hrow hheld => Nat.le_add_right_of_le (hab hrow hheld)
  live := by
    intro r hr c hc hrow hheld hlt
    exact h.live r hr c hc hrow hheld (Nat.lt_of_le_of_lt (Nat.le_add_right _ _) hlt)
  bounded := by
    intro c hc
    have := h.bounded c hc
    show c.expires ≤ s.clock + n + lease
    omega

theorem Inv.step {t : State ρ} (h : Inv lease s) (hs : Step lease isOpen s t) :
    Inv lease t := by
  cases hs with
  | claim picked upd hkey id claimed hperm hdue hcounter hlease =>
      exact h.claim picked upd hkey id claimed hperm hdue hcounter hlease
  | settle mine f hkey hcounter =>
      refine h.write mine f hkey (by decide) ?_
      intro r hr _
      rw [hcounter]
      exact (h.sound r hr).ends (close_ends isOpen mine s.table .settled (by decide))
  | release mine f hkey hcounter =>
      refine h.write mine f hkey (by decide) ?_
      intro r hr hp
      obtain ⟨hopen, w, hw, hmine, hheld, hrow, htoken⟩ := reached_iff.1 hp
      have hends := close_ends isOpen mine s.table .released (by decide)
      rw [hcounter]
      refine (h.sound r hr).release hends ?_
      intro c hc htop
      by_cases hfate : c.fate = .released
      · exact hends.released c hfate
      · have hcw : c = w := (h.sound r hr).unique hc (mem_claimsOf.2 ⟨hw, hrow⟩)
          hfate (by simp [hheld]) (htop.trans htoken.symm)
        rw [hcw]
        exact close_of_reached hr hopen hmine hheld hrow htoken
  | touch p f hkey hcounter hdue => exact h.touch p f hkey hcounter hdue
  | enqueue r t hins => exact h.enqueue hins
  | tick n => exact h.tick n

end Moves

end CleanStack.Lib.Fencing
