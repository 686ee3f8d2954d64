import CleanStack.Lib.Fencing

/-!
# What a holder remembers of a row

A worker that claims a row keeps its token and what it saw of the row, and
decides later by what it saw. The write it makes then is fenced by the token,
but tokens are issued again after a release, so the fence alone does not say
that the row still looks the same.

It does when the claim is ended at most once. `Remembered` is what makes it so:
the held tokens of a row are distinct and none exceeds the counter, a holder
whose token is the counter sees the row as it is, and two holders whose tokens
follow each other saw the same. A release lets the counter fall from the second
token to the first, and the last clause is what the first holder then needs.
-/

namespace CleanStack.Lib.Snapshots

open CleanStack.Lib Keyed Fencing.Leasable

structure Held (κ ν : Type*) where
  row : κ
  token : Int
  seen : ν

variable {ρ κ ν : Type*} [Keyed ρ κ] [Fencing.Leasable ρ]

def Held.lease (h : Held κ ν) : κ × Int := (h.row, h.token)

/-- What a claim hands out of a row. -/
def snapshot (view : ρ → ν) (r : ρ) : Held κ ν := ⟨key r, counter r, view r⟩

structure Remembered (view : ρ → ν) (t : Table ρ) (held : List (Held κ ν)) : Prop where
  distinct : (held.map Held.lease).Nodup
  known : ∀ h ∈ held, ∃ r ∈ t.rows, key r = h.row
  bounded : ∀ h ∈ held, ∀ r ∈ t.rows, key r = h.row → h.token ≤ counter r
  current : ∀ h ∈ held, ∀ r ∈ t.rows, key r = h.row → h.token = counter r → view r = h.seen
  next : ∀ a ∈ held, ∀ b ∈ held, a.row = b.row → b.token = a.token + 1 → a.seen = b.seen

variable {view : ρ → ν} {t : Table ρ} {held held' ended rest : List (Held κ ν)}

theorem Remembered.nil (view : ρ → ν) (t : Table ρ) :
    Remembered view t ([] : List (Held κ ν)) :=
  ⟨List.nodup_nil, nofun, nofun, nofun, nofun⟩

theorem subperm_map {α β : Type*} {l l' : List α} (f : α → β) (h : l.Subperm l') :
    (l.map f).Subperm (l'.map f) := by
  obtain ⟨l₀, hperm, hsub⟩ := h
  exact ⟨l₀.map f, hperm.map f, hsub.map f⟩

/-- Claims may be forgotten, and their order is of no matter. -/
theorem Remembered.subperm (h : Remembered view t held) (hsub : held'.Subperm held) :
    Remembered view t held' := by
  have hmem : ∀ a ∈ held', a ∈ held := fun _ ha => hsub.subset ha
  refine ⟨?_, fun a ha => h.known a (hmem a ha), fun a ha => h.bounded a (hmem a ha),
    fun a ha => h.current a (hmem a ha), fun a ha b hb => h.next a (hmem a ha) b (hmem b hb)⟩
  obtain ⟨l, hperm, hl⟩ := hsub
  exact (hperm.map _).nodup_iff.1 (h.distinct.sublist (hl.map _))

/-- An update that leaves the counter and what holders see of every row. -/
theorem Remembered.touch (h : Remembered view t held) {p : ρ → Bool} {f : ρ → ρ}
    (hkey : ∀ r, key (f r) = key r) (hcounter : ∀ r, counter (f r) = counter r)
    (hview : ∀ r ∈ t.rows, p r = true → view (f r) = view r) :
    Remembered view (t.update p f hkey) held := by
  have hrow : ∀ r' ∈ (t.update p f hkey).rows, ∃ r ∈ t.rows, key r' = key r ∧
      counter r' = counter r ∧ view r' = view r := by
    intro r' hr'
    obtain ⟨r, hr, rfl⟩ := (Table.mem_update hkey).1 hr'
    refine ⟨r, hr, Table.key_image hkey r, ?_, ?_⟩
    · split
      · exact hcounter r
      · rfl
    · split
      · next hp => exact hview r hr hp
      · rfl
  refine ⟨h.distinct, fun a ha => ?_, fun a ha r' hr' hk => ?_, fun a ha r' hr' hk ht => ?_,
    h.next⟩
  · obtain ⟨r, hr, hk⟩ := h.known a ha
    exact ⟨_, Table.mem_update_of_mem hr p hkey, (Table.key_image hkey r).trans hk⟩
  · obtain ⟨r, hr, hkr, hcr, -⟩ := hrow r' hr'
    rw [hcr]
    exact h.bounded a ha r hr (hkr ▸ hk)
  · obtain ⟨r, hr, hkr, hcr, hvr⟩ := hrow r' hr'
    rw [hvr]
    exact h.current a ha r hr (hkr ▸ hk) (ht.trans hcr)

theorem Remembered.insert [DecidableEq κ] {u : Table ρ} {r : ρ} (h : Remembered view t held)
    (hins : t.insert r = some u) : Remembered view u held := by
  have hold : ∀ a ∈ held, ∀ r' ∈ u.rows, key r' = a.row → r' ∈ t.rows := by
    intro a ha r' hr' hk
    rcases (Table.mem_insert hins).1 hr' with rfl | hmem
    · obtain ⟨r₀, hr₀, hk₀⟩ := h.known a ha
      exact absurd (hk₀.trans hk.symm) (Table.insert_fresh hins r₀ hr₀)
    · exact hmem
  refine ⟨h.distinct, fun a ha => ?_, fun a ha r' hr' hk => h.bounded a ha r' (hold a ha r' hr' hk) hk,
    fun a ha r' hr' hk => h.current a ha r' (hold a ha r' hr' hk) hk, h.next⟩
  obtain ⟨r₀, hr₀, hk₀⟩ := h.known a ha
  exact ⟨r₀, (Table.mem_insert hins).2 (.inr hr₀), hk₀⟩

/-- A deletion, which takes the claims on the deleted rows along. -/
theorem Remembered.delete (h : Remembered view t held) {p : ρ → Bool}
    (hsub : held'.Subperm held)
    (hknown : ∀ a ∈ held', ∃ r ∈ (t.delete p).rows, key r = a.row) :
    Remembered view (t.delete p) held' := by
  have h' := h.subperm hsub
  have hold : ∀ r ∈ (t.delete p).rows, r ∈ t.rows := fun _ hr => (Table.mem_delete.1 hr).1
  exact ⟨h'.distinct, hknown, fun a ha r hr => h'.bounded a ha r (hold r hr),
    fun a ha r hr => h'.current a ha r (hold r hr), h'.next⟩

/-- A claim hands out the rows it updates, as they are after it. -/
theorem Remembered.claim (h : Remembered view t held) (picked : ρ → Bool) {upd : ρ → ρ}
    (hkey : ∀ r, key (upd r) = key r) (hcounter : ∀ r, counter (upd r) = counter r + 1)
    (hview : ∀ r, view (upd r) = view r) :
    Remembered view (t.update picked upd hkey)
      (held ++ (t.returning picked upd).map (snapshot view)) := by
  have hnew : ∀ b ∈ (t.returning picked upd).map (snapshot view), ∃ r ∈ t.rows,
      picked r = true ∧ b = ⟨key r, counter r + 1, view r⟩ := by
    intro b hb
    obtain ⟨r', hr', rfl⟩ := List.mem_map.1 hb
    obtain ⟨r, hr, hp, rfl⟩ := Table.mem_returning.1 hr'
    exact ⟨r, hr, hp, by rw [snapshot, hkey, hcounter, hview]⟩
  have hleases : ((t.returning picked upd).map (snapshot view)).map Held.row =
      (t.returning picked upd).map key := by
    rw [List.map_map]
    rfl
  have hnodup : (((t.returning picked upd).map (snapshot view)).map Held.lease).Nodup := by
    have hrows := Table.nodup_returning (t := t) (p := picked) hkey
    rw [← hleases] at hrows
    refine (List.Nodup.of_map Prod.fst ?_)
    rw [List.map_map]
    exact hrows
  refine ⟨?_, fun a ha => ?_, fun a ha r' hr' hk => ?_, fun a ha r' hr' hk ht => ?_,
    fun a ha b hb hab htab => ?_⟩
  · rw [List.map_append, List.nodup_append]
    refine ⟨h.distinct, hnodup, ?_⟩
    rintro l hl l' hl' rfl
    obtain ⟨a, ha, rfl⟩ := List.mem_map.1 hl
    obtain ⟨b, hb, heq⟩ := List.mem_map.1 hl'
    obtain ⟨r, hr, -, rfl⟩ := hnew b hb
    obtain ⟨hrow, htoken⟩ := Prod.mk.inj heq
    have hle := h.bounded a ha r hr hrow
    simp only at htoken
    omega
  · rcases List.mem_append.1 ha with hold | hb
    · obtain ⟨r, hr, hk⟩ := h.known a hold
      exact ⟨_, Table.mem_update_of_mem hr picked hkey, (Table.key_image hkey r).trans hk⟩
    · obtain ⟨r, hr, -, rfl⟩ := hnew a hb
      exact ⟨_, Table.mem_update_of_mem hr picked hkey, Table.key_image hkey r⟩
  · obtain ⟨r, hr, rfl⟩ := (Table.mem_update hkey).1 hr'
    rw [Table.key_image hkey] at hk
    rcases List.mem_append.1 ha with hold | hb
    · have hle := h.bounded a hold r hr hk
      split
      · rw [hcounter]
        omega
      · exact hle
    · obtain ⟨r₀, hr₀, hp, rfl⟩ := hnew a hb
      obtain rfl : r = r₀ := Table.eq_of_key hr hr₀ hk
      rw [if_pos hp, hcounter]
  · obtain ⟨r, hr, rfl⟩ := (Table.mem_update hkey).1 hr'
    rw [Table.key_image hkey] at hk
    rcases List.mem_append.1 ha with hold | hb
    · have hle := h.bounded a hold r hr hk
      by_cases hp : picked r = true
      · rw [if_pos hp, hcounter] at ht
        omega
      · rw [if_neg hp] at ht ⊢
        exact h.current a hold r hr hk ht
    · obtain ⟨r₀, hr₀, hp, rfl⟩ := hnew a hb
      obtain rfl : r = r₀ := Table.eq_of_key hr hr₀ hk
      rw [if_pos hp, hview]
  · rcases List.mem_append.1 ha with holda | hnewa
    · rcases List.mem_append.1 hb with holdb | hnewb
      · exact h.next a holda b holdb hab htab
      · obtain ⟨r, hr, -, rfl⟩ := hnew b hnewb
        simp only at hab htab ⊢
        exact (h.current a holda r hr hab.symm (by omega)).symm
    · obtain ⟨r, hr, -, rfl⟩ := hnew a hnewa
      rcases List.mem_append.1 hb with holdb | hnewb
      · have hle := h.bounded b holdb r hr hab
        simp only at htab
        omega
      · obtain ⟨r', hr', -, rfl⟩ := hnew b hnewb
        obtain rfl : r = r' := Table.eq_of_key hr hr' hab
        simp only at htab
        omega

/-- The rows a statement reaches are leased by one of the claims it ends. -/
def ReachedBy (ended : List (Held κ ν)) (t : Table ρ) (p : ρ → Bool) : Prop :=
  ∀ r ∈ t.rows, p r = true → ∃ c ∈ ended, c.row = key r ∧ c.token = counter r

theorem lease_ne_of_ended (hnodup : ((ended ++ rest).map Held.lease).Nodup)
    {a c : Held κ ν} (ha : a ∈ rest) (hc : c ∈ ended) (hrow : a.row = c.row) :
    a.token ≠ c.token := by
  intro htoken
  rw [List.map_append, List.nodup_append] at hnodup
  refine hnodup.2.2 _ (List.mem_map_of_mem hc) _ (List.mem_map_of_mem ha) ?_
  rw [Held.lease, Held.lease, hrow, htoken]

/-- A write that ends the claims it is made with. -/
theorem Remembered.settle (h : Remembered view t (ended ++ rest)) {p : ρ → Bool} {f : ρ → ρ}
    (hkey : ∀ r, key (f r) = key r) (hcounter : ∀ r, counter (f r) = counter r)
    (hreach : ReachedBy ended t p) : Remembered view (t.update p f hkey) rest := by
  have hrest := h.subperm (List.sublist_append_right ended rest).subperm
  refine ⟨hrest.distinct, fun a ha => ?_, fun a ha r' hr' hk => ?_, fun a ha r' hr' hk ht => ?_,
    hrest.next⟩
  · obtain ⟨r, hr, hk⟩ := hrest.known a ha
    exact ⟨_, Table.mem_update_of_mem hr p hkey, (Table.key_image hkey r).trans hk⟩
  · obtain ⟨r, hr, rfl⟩ := (Table.mem_update hkey).1 hr'
    rw [Table.key_image hkey] at hk
    have hle := hrest.bounded a ha r hr hk
    split
    · rwa [hcounter]
    · exact hle
  · obtain ⟨r, hr, rfl⟩ := (Table.mem_update hkey).1 hr'
    rw [Table.key_image hkey] at hk
    by_cases hp : p r = true
    · rw [if_pos hp, hcounter] at ht
      obtain ⟨c, hc, hrow, htoken⟩ := hreach r hr hp
      exact absurd (ht.trans htoken.symm)
        (lease_ne_of_ended h.distinct ha hc (hk.symm.trans hrow.symm))
    · rw [if_neg hp] at ht ⊢
      exact hrest.current a ha r hr hk ht

/-- A release, which gives the tokens back. -/
theorem Remembered.release (h : Remembered view t (ended ++ rest)) {p : ρ → Bool} {f : ρ → ρ}
    (hkey : ∀ r, key (f r) = key r) (hcounter : ∀ r, counter (f r) = counter r - 1)
    (hview : ∀ r, view (f r) = view r) (hreach : ReachedBy ended t p) :
    Remembered view (t.update p f hkey) rest := by
  have hrest := h.subperm (List.sublist_append_right ended rest).subperm
  refine ⟨hrest.distinct, fun a ha => ?_, fun a ha r' hr' hk => ?_, fun a ha r' hr' hk ht => ?_,
    hrest.next⟩
  · obtain ⟨r, hr, hk⟩ := hrest.known a ha
    exact ⟨_, Table.mem_update_of_mem hr p hkey, (Table.key_image hkey r).trans hk⟩
  · obtain ⟨r, hr, rfl⟩ := (Table.mem_update hkey).1 hr'
    rw [Table.key_image hkey] at hk
    have hle := hrest.bounded a ha r hr hk
    by_cases hp : p r = true
    · obtain ⟨c, hc, hrow, htoken⟩ := hreach r hr hp
      have hne := lease_ne_of_ended h.distinct ha hc (hk.symm.trans hrow.symm)
      rw [if_pos hp, hcounter]
      omega
    · rwa [if_neg hp]
  · obtain ⟨r, hr, rfl⟩ := (Table.mem_update hkey).1 hr'
    rw [Table.key_image hkey] at hk
    by_cases hp : p r = true
    · obtain ⟨c, hc, hrow, htoken⟩ := hreach r hr hp
      rw [if_pos hp, hcounter] at ht
      have hseen := h.next a (List.mem_append_right _ ha) c (List.mem_append_left _ hc)
        (hk.symm.trans hrow.symm) (by omega)
      have hcur := h.current c (List.mem_append_left _ hc) r hr hrow.symm htoken
      rw [if_pos hp, hview, hcur, hseen]
    · rw [if_neg hp] at ht ⊢
      exact hrest.current a ha r hr hk ht

/-! ## Jobs

A holder often keeps its claims as jobs in a list, which it changes in place
when one is done. -/

section Jobs

variable {ι : Type*} {isOpen : ι → Bool} {claimOf : ι → Held κ ν} {jobs : List ι} {j : Nat}
  {job : ι} {f : ι → ι}

def openClaims (isOpen : ι → Bool) (claimOf : ι → Held κ ν) (jobs : List ι) : List (Held κ ν) :=
  (jobs.filter isOpen).map claimOf

theorem openClaims_append (jobs jobs' : List ι) :
    openClaims isOpen claimOf (jobs ++ jobs') =
      openClaims isOpen claimOf jobs ++ openClaims isOpen claimOf jobs' := by
  rw [openClaims, List.filter_append, List.map_append]
  rfl

theorem mem_modify {x : ι} (h : x ∈ jobs.modify j f) :
    x ∈ jobs ∨ ∃ job, jobs[j]? = some job ∧ x = f job := by
  obtain ⟨i, hi⟩ := List.mem_iff_getElem?.1 h
  rw [List.getElem?_modify] at hi
  obtain ⟨job, hjob, hx⟩ := Option.map_eq_some_iff.1 hi
  split at hx
  · next hij => exact .inr ⟨job, hij ▸ hjob, hx.symm⟩
  · exact .inl (hx ▸ List.mem_of_getElem? hjob)

/-- A job that goes on with its claim. -/
theorem openClaims_modify_same (h : jobs[j]? = some job) (hopen : isOpen (f job) = isOpen job)
    (hclaim : claimOf (f job) = claimOf job) :
    openClaims isOpen claimOf (jobs.modify j f) = openClaims isOpen claimOf jobs := by
  induction jobs generalizing j with
  | nil => cases h
  | cons first jobs ih =>
      cases j with
      | zero =>
          cases h
          simp only [openClaims, List.modify_zero_cons, List.filter_cons, hopen]
          split
          · rw [List.map_cons, List.map_cons, hclaim]
          · rfl
      | succ j =>
          have hrest := ih h
          simp only [openClaims, List.modify_succ_cons, List.filter_cons] at hrest ⊢
          split
          · rw [List.map_cons, List.map_cons, hrest]
          · exact hrest

/-- A job that ends with its claim. -/
theorem openClaims_modify_close (h : jobs[j]? = some job) (hopen : isOpen job = true)
    (hclosed : isOpen (f job) = false) :
    (openClaims isOpen claimOf jobs).Perm
      (claimOf job :: openClaims isOpen claimOf (jobs.modify j f)) := by
  induction jobs generalizing j with
  | nil => cases h
  | cons first jobs ih =>
      cases j with
      | zero =>
          cases h
          simp [openClaims, hopen, hclosed]
      | succ j =>
          have hrest := ih h
          simp only [openClaims, List.modify_succ_cons, List.filter_cons] at hrest ⊢
          split
          · rw [List.map_cons, List.map_cons]
            exact (hrest.cons _).trans (List.Perm.swap _ _ _)
          · exact hrest

theorem openClaims_modify_sublist (hclosed : ∀ job, isOpen (f job) = false) (j : Nat) :
    (openClaims isOpen claimOf (jobs.modify j f)).Sublist (openClaims isOpen claimOf jobs) := by
  induction jobs generalizing j with
  | nil => rw [List.modify_nil]
  | cons first jobs ih =>
      rw [openClaims, openClaims]
      cases j with
      | zero =>
          refine List.Sublist.map _ ?_
          rw [List.modify_zero_cons, List.filter_cons, List.filter_cons,
            if_neg (by rw [hclosed]; nofun)]
          split
          · exact List.sublist_cons_self _ _
          · exact List.Sublist.refl _
      | succ j =>
          rw [List.modify_succ_cons, List.filter_cons, List.filter_cons]
          split
          · exact (ih j).cons_cons _
          · exact ih j

end Jobs

end CleanStack.Lib.Snapshots
