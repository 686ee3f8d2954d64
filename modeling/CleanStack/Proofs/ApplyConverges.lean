import CleanStack.Proofs.ApplyRows
import Mathlib.Algebra.GroupWithZero.Nat

/-!
# Applying twice is applying once

Every declared application is brought to its declared state by a write to it or by
creating it, and nothing else is written. The names of an environment being distinct,
these writes go to different applications, so each leaves the others as the plan saw
them.
-/

namespace CleanStack.Coolify

open CleanStack.Lib

/-! ## Finding an application -/

/-- Named so in that environment. -/
def At (environmentId name : String) (a : Application) : Prop :=
  a.environmentId = environmentId ∧ a.name = name

def UniqueNames (environmentId : String) (s : Applications) : Prop :=
  ∀ name, ∀ a ∈ s.rows, ∀ b ∈ s.rows, At environmentId name a → At environmentId name b → a = b

theorem uniqueNames_of_nodup {environmentId : String} {s : Applications}
    (h : ((applicationsIn s environmentId).map Application.name).Nodup) :
    UniqueNames environmentId s := by
  intro name a ha b hb hata hatb
  exact List.inj_on_of_nodup_map h (List.mem_filter.2 ⟨ha, decide_eq_true hata.1⟩)
    (List.mem_filter.2 ⟨hb, decide_eq_true hatb.1⟩) (hata.2.trans hatb.2.symm)

/-- The applications of a name among those answered. -/
theorem filter_listApplications (sight : Sight) (s : Applications) (environmentId name : String) :
    (listApplications sight s environmentId).filter (fun app => Summary.name app = name) =
      (s.rows.filter fun a => decide (a.environmentId = environmentId ∧ a.name = name)).map
        (remoteApp sight) := by
  rw [listApplications, applicationsIn, List.filter_map, List.filter_filter]
  refine congrArg _ (List.filter_congr fun a _ => ?_)
  rw [Function.comp_apply, Bool.and_comm, Bool.decide_and]
  rfl

section Find

variable {sight : Sight} {s : Applications} {environmentId name : String}

theorem findApp_some (sight : Sight) (hunique : UniqueNames environmentId s) {a : Application}
    (ha : a ∈ s.rows) (hat : At environmentId name a) (environment : String) :
    findApp (listApplications sight s environmentId) name environment =
      .ok (some (remoteApp sight a)) := by
  have hone : (s.rows.filter fun a =>
      decide (a.environmentId = environmentId ∧ a.name = name)) = [a] := by
    have hrows : s.rows.Nodup := List.Nodup.of_map _ s.nodup
    have hmem : ∀ b, b ∈ (s.rows.filter fun a =>
        decide (a.environmentId = environmentId ∧ a.name = name)) ↔ b ∈ [a] := by
      intro b
      rw [List.mem_filter, List.mem_singleton, decide_eq_true_eq]
      exact ⟨fun h => hunique name b h.1 a ha h.2 hat, fun h => h ▸ ⟨ha, hat⟩⟩
    exact List.perm_singleton.1
      ((List.perm_ext_iff_of_nodup (hrows.filter _) (List.nodup_singleton a)).2 hmem)
  rw [findApp, filter_listApplications, hone]
  rfl

theorem findApp_none (hnone : ∀ a ∈ s.rows, ¬At environmentId name a) (environment : String) :
    findApp (listApplications sight s environmentId) name environment = .ok none := by
  have hempty : (s.rows.filter fun a =>
      decide (a.environmentId = environmentId ∧ a.name = name)) = [] :=
    List.filter_eq_nil_iff.2 fun a ha hat => hnone a ha (by simpa [At] using hat)
  rw [findApp, filter_listApplications, hempty]
  rfl

/-- Where names are distinct, finding one never throws. -/
theorem findApp_cases (sight : Sight) (name environment : String)
    (hunique : UniqueNames environmentId s) :
    (∃ a ∈ s.rows, At environmentId name a ∧
        findApp (listApplications sight s environmentId) name environment =
          .ok (some (remoteApp sight a))) ∨
      ((∀ a ∈ s.rows, ¬At environmentId name a) ∧
        findApp (listApplications sight s environmentId) name environment = .ok none) := by
  by_cases hex : ∃ a ∈ s.rows, At environmentId name a
  · obtain ⟨a, ha, hat⟩ := hex
    exact .inl ⟨a, ha, hat, findApp_some sight hunique ha hat environment⟩
  · have hnone : ∀ a ∈ s.rows, ¬At environmentId name a := fun a ha hat => hex ⟨a, ha, hat⟩
    exact .inr ⟨hnone, findApp_none hnone environment⟩

end Find

/-! ## Writes to one application -/

section Write

variable {s : Applications} {uuid : String} {f g : Application → Application}
  {hf : ∀ a, (f a).uuid = a.uuid} {hg : ∀ a, (g a).uuid = a.uuid}

theorem rows_write : (s.write uuid f hf).rows =
    s.rows.map fun a => if a.uuid = uuid then f a else a := by
  simp [Applications.write, Table.update]

theorem mem_write {b : Application} :
    b ∈ (s.write uuid f hf).rows ↔ ∃ a ∈ s.rows, (if a.uuid = uuid then f a else a) = b := by
  rw [rows_write, List.mem_map]

theorem write_write : (s.write uuid f hf).write uuid g hg =
    s.write uuid (fun a => g (f a)) fun a => (hg _).trans (hf a) := by
  refine Table.ext ?_
  rw [rows_write, rows_write, rows_write, List.map_map]
  refine List.map_congr_left fun a _ => ?_
  by_cases ha : a.uuid = uuid
  · rw [Function.comp_apply, if_pos ha, if_pos ((hf a).trans ha), if_pos ha]
  · rw [Function.comp_apply, if_neg ha, if_neg ha, if_neg ha]

theorem write_eq_self (h : ∀ a ∈ s.rows, a.uuid = uuid → f a = a) : s.write uuid f hf = s := by
  refine Table.ext ?_
  rw [rows_write]
  refine (List.map_congr_left fun a ha => ?_).trans (List.map_id _)
  split_ifs with huuid
  · exact h a ha huuid
  · rfl

end Write

theorem setEnv_eq (s : Applications) (uuid : String) (want : AppState) :
    setEnv s uuid want.env = s.write uuid (withEnv want) (uuid_withEnv want) := by
  unfold setEnv
  split_ifs with hempty
  · refine (write_eq_self fun a _ _ => ?_).symm
    rw [withEnv, List.isEmpty_iff.1 hempty]
    rfl
  · rfl

section Upsert

variable {ids : Identifiers} {s : Applications} {environmentId : String}

theorem upsertApplication_some (app : CoolifyApp) (remote : RemoteApp) :
    upsertApplication ids s environmentId app (some remote) =
      s.write remote.uuid (withAll ids remote.tasks (stateOf app))
        (uuid_withAll ids remote.tasks (stateOf app)) := by
  show (setEnv (s.write remote.uuid (saved (stateOf app)) (uuid_saved (stateOf app))) remote.uuid
    (stateOf app).env).write remote.uuid _ _ = _
  rw [setEnv_eq, write_write, write_write]
  rfl

/-- The new application is written whole and the others are left. -/
theorem rows_upsertApplication_none (app : CoolifyApp) :
    ∃ base : Application, base.uuid = ids.application s ∧ base.environmentId = environmentId ∧
      base.tasks.rows = [] ∧
      (upsertApplication ids s environmentId app none).rows =
        withAll ids [] (stateOf app) base :: s.rows := by
  have hfresh : Keyed.key (created (ids.application s) environmentId (stateOf app)) ∉
      s.rows.map Keyed.key := ids.application_fresh s
  obtain ⟨u, hinsert, hrows⟩ := Table.exists_insert hfresh
  refine ⟨created (ids.application s) environmentId (stateOf app), rfl, rfl, rfl, ?_⟩
  show (((setEnv ((s.insert _).getD s) (ids.application s) (stateOf app).env).write
    (ids.application s) _ _).rows) = _
  rw [setEnv_eq, write_write, hinsert, Option.getD_some, rows_write, hrows, List.map_cons]
  refine congrArg₂ List.cons (if_pos rfl) ?_
  refine (List.map_congr_left fun a ha => if_neg fun huuid => ?_).trans (List.map_id _)
  exact ids.application_fresh s (huuid ▸ List.mem_map_of_mem ha)

end Upsert

/-! ## One round -/

/-- A declared application as its data must be: no key and no task twice. -/
structure WellDeclared (app : CoolifyApp) : Prop where
  keys : ((stateOf app).env.map Prod.fst).Nodup
  tasks : ((stateOf app).tasks.map ScheduledTask.name).Nodup

/-- What a round does for one declared application. -/
structure Applied (environmentId : String) (want : AppState) (s s' : Applications) : Prop where
  stored : ∃ b ∈ s'.rows, b.environmentId = environmentId ∧ Matches want b
  others : ∀ a, ¬At environmentId want.name a → (a ∈ s'.rows ↔ a ∈ s.rows)
  kept : ∀ a ∈ s.rows, At environmentId want.name a →
    ∃ b ∈ s'.rows, At environmentId want.name b ∧ Kept want a b
  unique : ∀ a ∈ s'.rows, ∀ b ∈ s'.rows, At environmentId want.name a →
    At environmentId want.name b → a = b

section Round

variable {ids : Identifiers} {s : Applications} {environmentId : String} {want : AppState}

/-- A write to the one application of that name. -/
theorem applied_write (hunique : UniqueNames environmentId s) {a : Application} (ha : a ∈ s.rows)
    (hat : At environmentId want.name a) {f : Application → Application}
    (hf : ∀ a, (f a).uuid = a.uuid) (hmatches : Matches want (f a)) (hkept : Kept want a (f a)) :
    Applied environmentId want s (s.write a.uuid f hf) := by
  have hwritten : ∀ b, b ∈ (s.write a.uuid f hf).rows ↔
      b = f a ∨ (b ∈ s.rows ∧ ¬At environmentId want.name b) := by
    intro b
    rw [mem_write]
    constructor
    · rintro ⟨c, hc, rfl⟩
      split_ifs with huuid
      · exact .inl (by rw [Table.eq_of_key hc ha huuid])
      · refine .inr ⟨hc, fun hatc => huuid ?_⟩
        rw [hunique want.name c hc a ha hatc hat]
    · rintro (rfl | ⟨hb, hnot⟩)
      · exact ⟨a, ha, if_pos rfl⟩
      · refine ⟨b, hb, if_neg fun huuid => hnot ?_⟩
        rw [Table.eq_of_key hb ha huuid]
        exact hat
  have hatf : At environmentId want.name (f a) :=
    ⟨hkept.environmentId.trans hat.1, hmatches.name⟩
  refine ⟨⟨f a, (hwritten _).2 (.inl rfl), hatf.1, hmatches⟩, fun b hnot => ?_,
    fun b hb hatb => ?_, fun b hb c hc hatb hatc => ?_⟩
  · rw [hwritten]
    refine ⟨fun h => ?_, fun hb => .inr ⟨hb, hnot⟩⟩
    rcases h with rfl | h
    · exact absurd hatf hnot
    · exact h.1
  · rw [hunique want.name b hb a ha hatb hat]
    exact ⟨f a, (hwritten _).2 (.inl rfl), hatf, hkept⟩
  · rcases (hwritten b).1 hb with rfl | hb
    · rcases (hwritten c).1 hc with rfl | hc
      · rfl
      · exact absurd hatc hc.2
    · exact absurd hatb hb.2

/-- A new application, where there was none of that name. -/
theorem applied_create {s' : Applications} (hnone : ∀ a ∈ s.rows, ¬At environmentId want.name a)
    {b : Application} (hrows : s'.rows = b :: s.rows) (henv : b.environmentId = environmentId)
    (hmatches : Matches want b) : Applied environmentId want s s' := by
  have hatb : At environmentId want.name b := ⟨henv, hmatches.name⟩
  refine ⟨⟨b, by rw [hrows]; exact List.mem_cons_self, henv, hmatches⟩, fun a hnot => ?_,
    fun a ha hat => absurd hat (hnone a ha), fun a ha c hc hata hatc => ?_⟩
  · rw [hrows, List.mem_cons]
    refine ⟨fun h => h.resolve_left fun heq => hnot (heq ▸ hatb), .inr⟩
  · rw [hrows, List.mem_cons] at ha hc
    rw [ha.resolve_right fun h => hnone a h hata, hc.resolve_right fun h => hnone c h hatc]

variable {result : Plan} {app : CoolifyApp} {sight : Sight}

theorem applied_existing (hdeclared : WellDeclared app) (hunique : UniqueNames environmentId s)
    {a : Application} (ha : a ∈ s.rows) (hat : At environmentId app.name.text a)
    (hplan : (result.changes.any fun change => change.name = app.name.text) = false →
      differingFields (stateOf app) (some (remoteApp sight a)) = []) :
    Applied environmentId (stateOf app) s
      (applyApp ids result environmentId (some (remoteApp sight a)) s app) := by
  cases hchanged : result.changes.any fun change => change.name = app.name.text with
  | true =>
    have hwhole : applyApp ids result environmentId (some (remoteApp sight a)) s app =
        s.write a.uuid (withAll ids a.tasks.rows (stateOf app))
          (uuid_withAll ids a.tasks.rows (stateOf app)) := by
      rw [applyApp, hchanged, if_pos rfl]
      exact upsertApplication_some app (remoteApp sight a)
    obtain ⟨hmatches, hkept⟩ := matches_withAll ids a hdeclared.keys hdeclared.tasks
    rw [hwhole]
    exact applied_write hunique ha hat _ hmatches hkept
  | false =>
    have henv : applyApp ids result environmentId (some (remoteApp sight a)) s app =
        s.write a.uuid (withEnv (stateOf app)) (uuid_withEnv (stateOf app)) := by
      rw [applyApp, hchanged, if_neg (by simp)]
      exact setEnv_eq s a.uuid (stateOf app)
    rw [henv]
    exact applied_write hunique ha hat _
      (matches_withEnv hdeclared.keys hat.2 (hplan hchanged)) (kept_withEnv _ a)

theorem applied_missing (hdeclared : WellDeclared app)
    (hnone : ∀ a ∈ s.rows, ¬At environmentId app.name.text a) :
    Applied environmentId (stateOf app) s (applyApp ids result environmentId none s app) := by
  obtain ⟨base, -, henv, hempty, hrows⟩ :=
    @rows_upsertApplication_none ids s environmentId app
  have hmatches := (matches_withAll ids base hdeclared.keys hdeclared.tasks).1
  rw [hempty] at hmatches
  exact applied_create hnone hrows henv hmatches

end Round

/-! ## The plan -/

/-- What the plan has found out about an application. -/
theorem plan_ok {remote : List RemoteApp} {environment : CoolifyEnvironment}
    {desired : List CoolifyApp} {result : Plan} (h : plan remote environment desired = .ok result) :
    ∀ app ∈ desired, ∃ have_, findApp remote app.name.text environment.text = .ok have_ ∧
      ∀ change ∈ (planApp have_ (stateOf app)).changes, change ∈ result.changes := by
  induction desired generalizing result with
  | nil => exact fun _ h => absurd h List.not_mem_nil
  | cons first desired ih =>
    rw [plan] at h
    cases hfind : findApp remote first.name.text environment.text with
    | error message =>
      rw [hfind] at h
      cases h
    | ok have_ =>
      rw [hfind] at h
      change (plan remote environment desired).map _ = _ at h
      cases hrest : plan remote environment desired with
      | error message =>
        rw [hrest] at h
        cases h
      | ok rest =>
        rw [hrest] at h
        cases h
        refine List.forall_mem_cons.2 ⟨⟨have_, hfind, fun change hc => List.mem_append_left _ hc⟩,
          fun app happ => ?_⟩
        obtain ⟨found, hfound, hchanges⟩ := ih hrest app happ
        exact ⟨found, hfound, fun change hc => List.mem_append_right _ (hchanges change hc)⟩

/-- Where no change of its name is planned, no field differs. -/
theorem differingFields_of_plan {remote : RemoteApp} {result : Plan} {app : CoolifyApp}
    (h : ∀ change ∈ (planApp (some remote) (stateOf app)).changes, change ∈ result.changes)
    (hnone : (result.changes.any fun change => change.name = app.name.text) = false) :
    differingFields (stateOf app) (some remote) = [] := by
  by_contra hdiffer
  have hlen : 0 < (differingFields (stateOf app) (some remote)).length :=
    List.length_pos_iff.2 hdiffer
  have hmem : (⟨.update, (stateOf app).name, differingFields (stateOf app) (some remote)⟩ : Change) ∈
      (planApp (some remote) (stateOf app)).changes := by
    simp only [planApp, if_pos hlen, List.mem_singleton]
  have hany : (result.changes.any fun change => change.name = app.name.text) = true :=
    List.any_eq_true.2 ⟨_, h _ hmem, decide_eq_true rfl⟩
  rw [hnone] at hany
  cases hany

/-! ## The loop -/

/-- The application is not one that is declared. -/
def Undeclared (environmentId : String) (desired : List CoolifyApp) (a : Application) : Prop :=
  ∀ app ∈ desired, ¬At environmentId app.name.text a

/-- What a loop over declared applications does. -/
structure AppliedAll (environmentId : String) (desired : List CoolifyApp)
    (s s' : Applications) : Prop where
  stored : ∀ app ∈ desired, ∃ b ∈ s'.rows, b.environmentId = environmentId ∧
    Matches (stateOf app) b
  others : ∀ a, Undeclared environmentId desired a → (a ∈ s'.rows ↔ a ∈ s.rows)
  kept : ∀ app ∈ desired, ∀ a ∈ s.rows, At environmentId app.name.text a →
    ∃ b ∈ s'.rows, At environmentId app.name.text b ∧ Kept (stateOf app) a b
  unique : UniqueNames environmentId s'

/-- Uniqueness of the other names goes over to what a round leaves. -/
theorem Applied.uniqueNames {environmentId : String} {want : AppState} {s s' : Applications}
    (h : Applied environmentId want s s') (hunique : UniqueNames environmentId s) :
    UniqueNames environmentId s' := by
  intro name a ha b hb hata hatb
  by_cases hname : name = want.name
  · subst hname
    exact h.unique a ha b hb hata hatb
  · have hother : ∀ c, At environmentId name c → ¬At environmentId want.name c :=
      fun c hc hc' => hname (hc.2.symm.trans hc'.2)
    exact hunique name a ((h.others a (hother a hata)).1 ha) b ((h.others b (hother b hatb)).1 hb)
      hata hatb

theorem text_injective {a b : AppName} (h : a.text = b.text) : a = b := by
  cases a <;> cases b <;> first | rfl | exact absurd h (by decide)

section Loop

variable {ids : Identifiers} {result : Plan} {sight : Sight} {environment : CoolifyEnvironment}
  {environmentId : String} {listed : Applications}

/-- The applications that are still to be written are as they were listed. -/
theorem applyAll_ok (hlisted : UniqueNames environmentId listed) {desired : List CoolifyApp}
    {s : Applications} (hnames : (desired.map CoolifyApp.name).Nodup)
    (hdeclared : ∀ app ∈ desired, WellDeclared app) (hunique : UniqueNames environmentId s)
    (hsame : ∀ app ∈ desired, ∀ a, At environmentId app.name.text a →
      (a ∈ s.rows ↔ a ∈ listed.rows))
    (hplan : ∀ app ∈ desired, ∃ have_,
      findApp (listApplications sight listed environmentId) app.name.text environment.text =
        .ok have_ ∧
      ∀ change ∈ (planApp have_ (stateOf app)).changes, change ∈ result.changes) :
    ∃ s', applyAll ids result (listApplications sight listed environmentId) environment
        environmentId desired s = .ok s' ∧ AppliedAll environmentId desired s s' := by
  induction desired generalizing s with
  | nil =>
    exact ⟨s, rfl, ⟨fun _ h => absurd h List.not_mem_nil, fun _ _ => Iff.rfl,
      fun _ h => absurd h List.not_mem_nil, hunique⟩⟩
  | cons app desired ih =>
    rw [List.map_cons, List.nodup_cons] at hnames
    rw [List.forall_mem_cons] at hdeclared hsame hplan
    obtain ⟨have_, hfind, hchanges⟩ := hplan.1
    have hround : Applied environmentId (stateOf app) s
        (applyApp ids result environmentId have_ s app) := by
      rcases findApp_cases sight app.name.text environment.text hlisted with
        ⟨a, ha, hat, hfound⟩ | ⟨hnone, hfound⟩
      · rw [hfound] at hfind
        cases hfind
        exact applied_existing hdeclared.1 hunique ((hsame.1 a hat).2 ha) hat
          (differingFields_of_plan hchanges)
      · rw [hfound] at hfind
        cases hfind
        exact applied_missing hdeclared.1 fun a ha hat => hnone a ((hsame.1 a hat).1 ha) hat
    have hlater : ∀ later ∈ desired, ∀ a, At environmentId later.name.text a →
        ¬At environmentId (stateOf app).name a := by
      intro later hmem a hat hat'
      refine hnames.1 ?_
      rw [← text_injective (hat.2.symm.trans hat'.2)]
      exact List.mem_map_of_mem hmem
    obtain ⟨s', hrest, hall⟩ := ih (s := applyApp ids result environmentId have_ s app) hnames.2
      hdeclared.2 (hround.uniqueNames hunique)
      (fun later hmem a hat => (hround.others a (hlater later hmem a hat)).trans
        (hsame.2 later hmem a hat)) hplan.2
    have hstay : ∀ b, At environmentId app.name.text b →
        (b ∈ s'.rows ↔ b ∈ (applyApp ids result environmentId have_ s app).rows) := fun b hat =>
      hall.others b fun later hmem hat' => hlater later hmem b hat' hat
    refine ⟨s', ?_, ?_, fun a hnot => ?_, ?_, hall.unique⟩
    · rw [applyAll, hfind]
      exact hrest
    · refine List.forall_mem_cons.2 ⟨?_, hall.stored⟩
      obtain ⟨b, hb, henv, hmatches⟩ := hround.stored
      exact ⟨b, (hstay b ⟨henv, hmatches.name⟩).2 hb, henv, hmatches⟩
    · have hfirst := hnot app List.mem_cons_self
      exact (hall.others a fun later hmem => hnot later (List.mem_cons_of_mem _ hmem)).trans
        (hround.others a hfirst)
    · refine List.forall_mem_cons.2 ⟨fun a ha hat => ?_, fun later hmem a ha hat => ?_⟩
      · obtain ⟨b, hb, hatb, hkept⟩ := hround.kept a ha hat
        exact ⟨b, (hstay b hatb).2 hb, hatb, hkept⟩
      · exact hall.kept later hmem a ((hround.others a (hlater later hmem a hat)).2 ha) hat

/-- The plan does not throw. -/
theorem exists_plan (sight : Sight) (environment : CoolifyEnvironment)
    (hunique : UniqueNames environmentId listed) (desired : List CoolifyApp) :
    ∃ result, plan (listApplications sight listed environmentId) environment desired =
      .ok result := by
  induction desired with
  | nil => exact ⟨_, rfl⟩
  | cons app desired ih =>
    obtain ⟨rest, hrest⟩ := ih
    rw [plan, hrest]
    rcases findApp_cases sight app.name.text environment.text hunique with
      ⟨a, -, -, hfound⟩ | ⟨-, hfound⟩ <;> rw [hfound] <;> exact ⟨_, rfl⟩

/-- Where all that is declared is stored, there is nothing to change. -/
theorem plan_stored (sight : Sight) (environment : CoolifyEnvironment)
    (hunique : UniqueNames environmentId listed) {desired : List CoolifyApp}
    (hstored : ∀ app ∈ desired, ∃ b ∈ listed.rows, b.environmentId = environmentId ∧
      Matches (stateOf app) b) :
    ∃ result, plan (listApplications sight listed environmentId) environment desired =
      .ok result ∧ result.changes = [] := by
  induction desired with
  | nil => exact ⟨_, rfl, rfl⟩
  | cons app desired ih =>
    rw [List.forall_mem_cons] at hstored
    obtain ⟨rest, hrest, hnone⟩ := ih hstored.2
    obtain ⟨b, hb, henv, hmatches⟩ := hstored.1
    have hfind := findApp_some sight hunique hb ⟨henv, hmatches.name⟩ environment.text
    rw [plan, show app.name.text = (stateOf app).name from rfl, hfind, hrest]
    refine ⟨_, rfl, ?_⟩
    show (planApp _ _).changes ++ rest.changes = []
    simp [planApp, hmatches.differingFields sight, hnone]

/-- Writing what is stored is no change. -/
theorem applyAll_stored (hnone : result.changes = []) (hunique : UniqueNames environmentId listed)
    {desired : List CoolifyApp}
    (hstored : ∀ app ∈ desired, ∃ b ∈ listed.rows, b.environmentId = environmentId ∧
      Matches (stateOf app) b) :
    applyAll ids result (listApplications sight listed environmentId) environment environmentId
      desired listed = .ok listed := by
  induction desired with
  | nil => rfl
  | cons app desired ih =>
    rw [List.forall_mem_cons] at hstored
    obtain ⟨b, hb, henv, hmatches⟩ := hstored.1
    have hfind := findApp_some sight hunique hb ⟨henv, hmatches.name⟩ environment.text
    have hround : applyApp ids result environmentId (some (remoteApp sight b)) listed app =
        listed := by
      rw [applyApp, hnone, List.any_nil, if_neg (by simp)]
      show setEnv listed b.uuid (stateOf app).env = listed
      rw [setEnv_eq]
      refine write_eq_self fun a ha huuid => ?_
      rw [Table.eq_of_key ha hb huuid]
      exact hmatches.withEnv_eq
    rw [applyAll, show app.name.text = (stateOf app).name from rfl, hfind]
    show applyAll ids result _ environment environmentId desired
      (applyApp ids result environmentId (some (remoteApp sight b)) listed app) = _
    rw [hround]
    exact ih hstored.2

end Loop

/-! ## The declared applications -/

theorem wellDeclared_services (environment : CoolifyEnvironment) (owner : String) :
    ∀ app ∈ servicesFor environment owner, WellDeclared app := by
  have hkeys : List.Nodup ["NODE_ENV", "PORT", "API_URL", "INTERNAL_AUTH_LAYERS",
      "TRUSTED_PROXIES", "RATE_LIMIT_STORE", "S3_REGION", "S3_FORCE_PATH_STYLE",
      "SENTRY_ENVIRONMENT", "SHUTDOWN_DEADLINE_MS"] := by decide
  have htasks : List.Nodup ["rgpd-sweep", "sweep", "flush-notification-emails"] := by decide
  refine List.forall_mem_cons.2 ⟨⟨hkeys, htasks⟩, List.forall_mem_cons.2 ⟨⟨?_, ?_⟩,
    List.forall_mem_cons.2 ⟨⟨?_, ?_⟩, fun _ h => absurd h List.not_mem_nil⟩⟩⟩ <;>
    exact List.nodup_nil

theorem names_services (environment : CoolifyEnvironment) (owner : String) :
    ((servicesFor environment owner).map CoolifyApp.name).Nodup := by
  show List.Nodup [AppName.api, AppName.app, AppName.admin]
  decide

/-! ## Applying -/

/-- What an application of the declared state comes to. -/
structure Converged (ids : Identifiers) (environment : CoolifyEnvironment)
    (owner environmentId : String) (s s' : Applications) : Prop where
  planned : ∀ sight, ∃ result, plan (listApplications sight s' environmentId) environment
    (servicesFor environment owner) = .ok result ∧ result.changes = []
  /-- Literals and declared tasks apart, every application is as it was. -/
  kept : ∀ app ∈ servicesFor environment owner, ∀ a ∈ s.rows, At environmentId app.name.text a →
    ∃ b ∈ s'.rows, At environmentId app.name.text b ∧ Kept (stateOf app) a b
  others : ∀ a, Undeclared environmentId (servicesFor environment owner) a →
    (a ∈ s'.rows ↔ a ∈ s.rows)
  again : ∀ sight, ∃ result,
    runApply ids sight environment owner environmentId true s' = .ok (result, s')

/-- Whatever is stored and whatever part of the variables can be read. -/
theorem apply_converges (ids : Identifiers) (sight : Sight) (environment : CoolifyEnvironment)
    (owner environmentId : String) (s : Applications)
    (hnames : ((applicationsIn s environmentId).map Application.name).Nodup) :
    ∃ result s', runApply ids sight environment owner environmentId true s = .ok (result, s') ∧
      Converged ids environment owner environmentId s s' := by
  have hunique := uniqueNames_of_nodup hnames
  obtain ⟨result, hresult⟩ := exists_plan sight environment hunique
    (servicesFor environment owner)
  obtain ⟨s', hs', hall⟩ := @applyAll_ok ids _ _ _ _ _ hunique _ _
    (names_services environment owner) (wellDeclared_services environment owner) hunique
    (fun _ _ _ _ => Iff.rfl) (plan_ok hresult)
  refine ⟨result, s', ?_, ⟨fun sight' => plan_stored sight' environment hall.unique hall.stored,
    hall.kept, hall.others, fun sight' => ?_⟩⟩
  · show (plan _ environment (servicesFor environment owner)).bind _ = _
    rw [hresult]
    show (applyAll ids result _ environment environmentId _ s).map _ = _
    rw [hs']
    rfl
  · obtain ⟨again, hagain, hnone⟩ := plan_stored sight' environment hall.unique hall.stored
    refine ⟨again, ?_⟩
    show (plan _ environment (servicesFor environment owner)).bind _ = _
    rw [hagain]
    show (applyAll ids again _ environment environmentId _ s').map _ = _
    rw [applyAll_stored hnone hall.unique hall.stored]
    rfl

/-! ## An environment with one application -/

/-- Longer than all of them. -/
def longer (taken : List String) : String :=
  String.ofList (List.replicate ((taken.map String.length).sum + 1) 'x')

theorem longer_fresh (taken : List String) : longer taken ∉ taken := by
  intro hmem
  have hle : ∀ {l : List String} {t : String}, t ∈ l → t.length ≤ (l.map String.length).sum := by
    intro l t ht
    induction l with
    | nil => cases ht
    | cons u l ih =>
      rw [List.map_cons, List.sum_cons]
      rcases List.mem_cons.1 ht with rfl | ht
      · exact Nat.le_add_right _ _
      · exact Nat.le_trans (ih ht) (Nat.le_add_left _ _)
  have hlen := hle hmem
  rw [longer, String.length_ofList, List.length_replicate] at hlen
  omega

def growing : Identifiers where
  application s := longer (s.rows.map Application.uuid)
  application_fresh _ := longer_fresh _
  task t := longer (t.rows.map RemoteTask.uuid)
  task_fresh _ := longer_fresh _

/-- The API with an old image, a secret and a task of its own. -/
def onlyApi : Applications :=
  ⟨[{ uuid := "a", name := "api", environmentId := "1", imageName := "old", imageTag := "latest"
      port := "3000", healthCheckEnabled := false, healthCheck := "", stopGraceSeconds := 10
      envs := [⟨"DATABASE_URL", "postgres://", false⟩, ⟨"PORT", "80", false⟩]
      tasks := ⟨[⟨⟨"backup", "sh backup.sh", "0 1 * * *", 60, true⟩, "t"⟩], List.nodup_singleton _⟩ }],
    List.nodup_singleton _⟩

/-- No value can be read. -/
theorem apply_converges_blind : ∃ result s',
    runApply growing (fun _ _ => false) .staging "acme" "1" true onlyApi = .ok (result, s') ∧
      Converged growing .staging "acme" "1" onlyApi s' :=
  apply_converges growing (fun _ _ => false) .staging "acme" "1" onlyApi (by decide)

end CleanStack.Coolify
