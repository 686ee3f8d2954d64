import CleanStack.Coolify.Apply

/-!
# One application after a write

What a write of variables and of tasks leaves in one application: the declared ones as
they were sent, every other one as it was. An application that holds all that is
declared shows no difference to the plan, whatever part of its variables can be read,
and a second write of its variables changes nothing.
-/

namespace CleanStack.Coolify

open CleanStack.Lib

/-! ## Variables -/

/-- The key is there, and has that value wherever it is. -/
def Stored (envs : List EnvEntry) (key value : String) : Prop :=
  (∃ entry ∈ envs, entry.holds key = true) ∧
    ∀ entry ∈ envs, entry.holds key = true → entry.value = value

theorem holds_iff {key : String} {entry : EnvEntry} :
    entry.holds key = true ↔ entry.key = key ∧ entry.isPreview = false := by
  simp [EnvEntry.holds]

theorem holds_setValue (key value : String) (entry : EnvEntry) (k : String) :
    (if entry.holds k then { entry with value } else entry).holds key = entry.holds key := by
  split_ifs <;> rfl

theorem mem_putEnv {envs : List EnvEntry} {key value : String} {entry : EnvEntry}
    (h : entry ∈ putEnv envs key value) :
    (entry.holds key = true ∧ entry.value = value) ∨
      (entry.holds key = false ∧ entry ∈ envs) := by
  unfold putEnv at h
  split_ifs at h with hany
  · obtain ⟨old, hold, rfl⟩ := List.mem_map.1 h
    cases hholds : old.holds key with
    | true => exact .inl ⟨hholds, rfl⟩
    | false =>
      rw [if_neg (by simp)]
      exact .inr ⟨hholds, hold⟩
  · rcases List.mem_append.1 h with hold | hnew
    · have hnone : entry.holds key = false :=
        Bool.eq_false_iff.2 fun hholds => hany (List.any_eq_true.2 ⟨entry, hold, hholds⟩)
      exact .inr ⟨hnone, hold⟩
    · rw [List.mem_singleton.1 hnew]
      exact .inl ⟨by simp [EnvEntry.holds], rfl⟩

theorem exists_putEnv {envs : List EnvEntry} {key value : String} :
    ∃ entry ∈ putEnv envs key value, entry.holds key = true := by
  unfold putEnv
  split_ifs with hany
  · obtain ⟨entry, hmem, hholds⟩ := List.any_eq_true.1 hany
    refine ⟨_, List.mem_map_of_mem hmem, ?_⟩
    rw [holds_setValue]
    exact hholds
  · exact ⟨⟨key, value, false⟩, List.mem_append_right _ (List.mem_singleton.2 rfl),
      by simp [EnvEntry.holds]⟩

theorem stored_putEnv (envs : List EnvEntry) (key value : String) :
    Stored (putEnv envs key value) key value := by
  refine ⟨exists_putEnv, fun entry hmem hholds => ?_⟩
  rcases mem_putEnv hmem with ⟨_, hvalue⟩ | ⟨hnone, _⟩
  · exact hvalue
  · rw [hholds] at hnone
    cases hnone

/-- What is not under the key stays, in its place. -/
theorem filter_putEnv {p : EnvEntry → Bool} {key : String} (envs : List EnvEntry) (value : String)
    (hp : ∀ entry, entry.holds key = true → p entry = false) :
    (putEnv envs key value).filter p = envs.filter p := by
  unfold putEnv
  split_ifs with hany
  · clear hany
    induction envs with
    | nil => rfl
    | cons entry envs ih =>
      cases hholds : entry.holds key with
      | true =>
        have hnew : EnvEntry.holds key { entry with value } = true := hholds
        rw [List.map_cons, hholds, if_pos rfl, List.filter_cons_of_neg (by simp [hp _ hnew]),
          List.filter_cons_of_neg (by simp [hp _ hholds]), ih]
      | false =>
        rw [List.map_cons, hholds, if_neg (by simp), List.filter_cons, List.filter_cons, ih]
  · rw [List.filter_append, List.filter_cons_of_neg (by simp [hp _ (show EnvEntry.holds key
      ⟨key, value, false⟩ = true by simp [EnvEntry.holds])]), List.filter_nil, List.append_nil]

theorem Stored.putEnv_ne {envs : List EnvEntry} {key value k v : String}
    (h : Stored envs key value) (hne : k ≠ key) : Stored (putEnv envs k v) key value := by
  have hapart : ∀ entry : EnvEntry, entry.holds k = true → entry.holds key = false := by
    intro entry hk
    refine Bool.eq_false_iff.2 fun hkey => hne ?_
    rw [← (holds_iff.1 hk).1, (holds_iff.1 hkey).1]
  have hsame := filter_putEnv envs v hapart
  have hmem : ∀ entry, entry.holds key = true → (entry ∈ putEnv envs k v ↔ entry ∈ envs) := by
    intro entry hholds
    have hiff : entry ∈ (putEnv envs k v).filter (EnvEntry.holds key) ↔
      entry ∈ envs.filter (EnvEntry.holds key) := by rw [hsame]
    simpa [List.mem_filter, hholds] using hiff
  obtain ⟨⟨entry, hin, hholds⟩, hvalues⟩ := h
  exact ⟨⟨entry, (hmem entry hholds).2 hin, hholds⟩,
    fun e he hh => hvalues e ((hmem e hh).1 he) hh⟩

/-- A value that is stored is written over by itself. -/
theorem Stored.putEnv_eq {envs : List EnvEntry} {key value : String}
    (h : Stored envs key value) : putEnv envs key value = envs := by
  obtain ⟨entry, hmem, hholds⟩ := h.1
  rw [putEnv, if_pos (List.any_eq_true.2 ⟨entry, hmem, hholds⟩)]
  refine (List.map_congr_left fun e he => ?_).trans (List.map_id envs)
  cases hh : e.holds key with
  | true =>
    rw [if_pos rfl, ← h.2 e he hh]
    rfl
  | false => exact if_neg (by simp)

theorem Stored.putEnvs {envs : List EnvEntry} {key value : String}
    {values : List (String × String)} (h : Stored envs key value)
    (hne : key ∉ values.map Prod.fst) : Stored (putEnvs envs values) key value := by
  induction values generalizing envs with
  | nil => exact h
  | cons entry values ih =>
    rw [List.map_cons, List.mem_cons, not_or] at hne
    exact ih (h.putEnv_ne (Ne.symm hne.1)) hne.2

theorem stored_putEnvs {envs : List EnvEntry} {values : List (String × String)}
    (hkeys : (values.map Prod.fst).Nodup) :
    ∀ entry ∈ values, Stored (putEnvs envs values) entry.1 entry.2 := by
  induction values generalizing envs with
  | nil => exact fun _ h => absurd h List.not_mem_nil
  | cons first values ih =>
    rw [List.map_cons, List.nodup_cons] at hkeys
    refine List.forall_mem_cons.2 ⟨?_, ih hkeys.2⟩
    exact (stored_putEnv envs first.1 first.2).putEnvs hkeys.1

theorem putEnvs_eq {envs : List EnvEntry} {values : List (String × String)}
    (h : ∀ entry ∈ values, Stored envs entry.1 entry.2) : putEnvs envs values = envs := by
  induction values with
  | nil => rfl
  | cons entry values ih =>
    rw [List.forall_mem_cons] at h
    show putEnvs (putEnv envs entry.1 entry.2) values = envs
    rw [h.1.putEnv_eq]
    exact ih h.2

theorem filter_putEnvs {p : EnvEntry → Bool} {envs : List EnvEntry}
    {values : List (String × String)}
    (hp : ∀ value ∈ values, ∀ entry, entry.holds value.1 = true → p entry = false) :
    (putEnvs envs values).filter p = envs.filter p := by
  induction values generalizing envs with
  | nil => rfl
  | cons value values ih =>
    rw [List.forall_mem_cons] at hp
    show (putEnvs (putEnv envs value.1 value.2) values).filter p = _
    rw [ih hp.2, filter_putEnv envs value.2 hp.1]

/-- A stored value is answered, or left out. -/
theorem get_remoteApp (sight : Sight) {a : Application} {key value : String}
    (h : Stored a.envs key value) :
    (remoteApp sight a).get key = some (if sight a.uuid key then some value else none) := by
  have hall : ∀ pair ∈ (answeredEnv sight a).reverse, pair.1 = key →
      pair.2 = if sight a.uuid key then some value else none := by
    intro pair hpair hkey
    obtain ⟨entry, hentry, rfl⟩ := List.mem_map.1 (List.mem_reverse.1 hpair)
    obtain ⟨hmem, hpreview⟩ := List.mem_filter.1 hentry
    have hvalue := h.2 entry hmem (holds_iff.2 ⟨hkey, by simpa using hpreview⟩)
    rw [← hvalue, ← hkey]
  have hsome : ∃ pair ∈ (answeredEnv sight a).reverse, pair.1 = key := by
    obtain ⟨entry, hmem, hholds⟩ := h.1
    refine ⟨_, List.mem_reverse.2 (List.mem_map_of_mem (List.mem_filter.2 ⟨hmem, ?_⟩)),
      (holds_iff.1 hholds).1⟩
    simp [(holds_iff.1 hholds).2]
  show (answeredEnv sight a).reverse.lookup key = _
  generalize (answeredEnv sight a).reverse = pairs at hall hsome
  induction pairs with
  | nil =>
    obtain ⟨_, hmem, _⟩ := hsome
    cases hmem
  | cons pair pairs ih =>
    obtain ⟨k, v⟩ := pair
    rw [List.forall_mem_cons] at hall
    by_cases hkey : k = key
    · rw [hkey, List.lookup_cons_self, ← hall.1 hkey]
    · rw [List.lookup_cons, beq_eq_false_iff_ne.2 (Ne.symm hkey)]
      refine ih hall.2 ?_
      obtain ⟨p, hp, hpk⟩ := hsome
      rcases List.mem_cons.1 hp with rfl | hp
      · exact absurd hpk hkey
      · exact ⟨p, hp, hpk⟩

/-! ## Tasks -/

/-- The first task of that name, which is the one the plan and the writer look at. -/
def taskNamed (rows : List RemoteTask) (name : String) : Option RemoteTask :=
  rows.find? fun r => r.name = name

/-- All tasks of that name. -/
def tasksNamed (rows : List RemoteTask) (name : String) : List RemoteTask :=
  rows.filter fun r => r.name = name

theorem taskNamed_eq (rows : List RemoteTask) (name : String) :
    taskNamed rows name = (tasksNamed rows name).head? :=
  List.head?_filter.symm

section PatchTask

variable {tasks : TaskTable} {existing : RemoteTask} {task : ScheduledTask}

/-- The row of the identifier is the existing one, so its name stays. -/
theorem name_patched (hin : existing ∈ tasks.rows) (hname : existing.name = task.name)
    {r : RemoteTask} (hr : r ∈ tasks.rows) :
    (if r.uuid = existing.uuid then { r with toScheduledTask := task } else r).name = r.name := by
  split_ifs with huuid
  · rw [Table.eq_of_key hr hin huuid, hname]
  · rfl

theorem rows_patchTask : (patchTask tasks existing.uuid task).rows = tasks.rows.map fun r =>
    if r.uuid = existing.uuid then { r with toScheduledTask := task } else r := by
  simp [patchTask, Table.update]

theorem tasksNamed_map (hin : existing ∈ tasks.rows) (hname : existing.name = task.name)
    (name : String) : tasksNamed (patchTask tasks existing.uuid task).rows name =
      (tasksNamed tasks.rows name).map fun r =>
        if r.uuid = existing.uuid then { r with toScheduledTask := task } else r := by
  rw [rows_patchTask, tasksNamed, List.filter_map]
  refine congrArg _ (List.filter_congr fun r hr => ?_)
  rw [Function.comp_apply, name_patched hin hname hr]

theorem taskNamed_patchTask (hin : existing ∈ tasks.rows)
    (hexisting : taskNamed tasks.rows task.name = some existing) :
    taskNamed (patchTask tasks existing.uuid task).rows task.name =
      some { existing with toScheduledTask := task } := by
  have hname : existing.name = task.name := by simpa using List.find?_some hexisting
  rw [taskNamed_eq, tasksNamed_map hin hname, List.head?_map, ← taskNamed_eq, hexisting,
    Option.map_some, if_pos rfl]

theorem tasksNamed_patchTask (hin : existing ∈ tasks.rows) (hname : existing.name = task.name)
    {name : String} (hne : name ≠ task.name) :
    tasksNamed (patchTask tasks existing.uuid task).rows name = tasksNamed tasks.rows name := by
  rw [tasksNamed_map hin hname]
  refine (List.map_congr_left fun r hr => if_neg fun huuid => hne ?_).trans (List.map_id _)
  obtain ⟨hr, hrname⟩ := List.mem_filter.1 hr
  rw [← of_decide_eq_true hrname, Table.eq_of_key hr hin huuid, hname]

end PatchTask

theorem rows_postTask (ids : Identifiers) (tasks : TaskTable) (task : ScheduledTask) :
    (postTask ids tasks task).rows = ⟨task, ids.task tasks⟩ :: tasks.rows := by
  have hfresh : Keyed.key (⟨task, ids.task tasks⟩ : RemoteTask) ∉ tasks.rows.map Keyed.key :=
    ids.task_fresh tasks
  obtain ⟨u, hinsert, hrows⟩ := Table.exists_insert hfresh
  rw [postTask, hinsert, Option.getD_some, hrows]

section SaveTask

variable {ids : Identifiers} {remote : List RemoteTask} {tasks : TaskTable} {task : ScheduledTask}

theorem saveTask_some {existing : RemoteTask} (h : taskNamed remote task.name = some existing) :
    saveTask ids remote tasks task = patchTask tasks existing.uuid task := by
  rw [taskNamed] at h
  rw [saveTask, h]

theorem saveTask_none (h : taskNamed remote task.name = none) :
    saveTask ids remote tasks task = postTask ids tasks task := by
  rw [taskNamed] at h
  rw [saveTask, h]

/-- What one task's write does, where the tasks of that name are those that were
answered. -/
theorem saveTask_spec
    (hsame : tasksNamed tasks.rows task.name = tasksNamed remote task.name) :
    (∃ r, taskNamed (saveTask ids remote tasks task).rows task.name = some r ∧
        r.toScheduledTask = task) ∧
      ∀ name, name ≠ task.name →
        tasksNamed (saveTask ids remote tasks task).rows name = tasksNamed tasks.rows name := by
  have hfirst : taskNamed tasks.rows task.name = taskNamed remote task.name := by
    rw [taskNamed_eq, taskNamed_eq, hsame]
  cases hexisting : taskNamed remote task.name with
  | some existing =>
    rw [hexisting] at hfirst
    have hin := List.mem_of_find?_eq_some hfirst
    have hname : existing.name = task.name := by simpa using List.find?_some hfirst
    rw [saveTask_some hexisting]
    exact ⟨⟨_, taskNamed_patchTask hin hfirst, rfl⟩,
      fun name hne => tasksNamed_patchTask hin hname hne⟩
  | none =>
    rw [saveTask_none hexisting, rows_postTask]
    refine ⟨⟨⟨task, ids.task tasks⟩, ?_, rfl⟩, fun name hne => ?_⟩
    · exact List.find?_cons_of_pos (by simp)
    · exact List.filter_cons_of_neg (by simpa using Ne.symm hne)

/-- All declared tasks are as declared, and the others as they were. -/
theorem saveTasks_spec {wanted : List ScheduledTask}
    (hnames : (wanted.map ScheduledTask.name).Nodup)
    (hsame : ∀ task ∈ wanted, tasksNamed tasks.rows task.name = tasksNamed remote task.name) :
    (∀ task ∈ wanted, ∃ r, taskNamed (saveTasks ids remote tasks wanted).rows task.name = some r ∧
        r.toScheduledTask = task) ∧
      ∀ name, name ∉ wanted.map ScheduledTask.name →
        tasksNamed (saveTasks ids remote tasks wanted).rows name = tasksNamed tasks.rows name := by
  induction wanted generalizing tasks with
  | nil => exact ⟨fun _ h => absurd h List.not_mem_nil, fun _ _ => rfl⟩
  | cons task wanted ih =>
    rw [List.map_cons, List.nodup_cons] at hnames
    rw [List.forall_mem_cons] at hsame
    obtain ⟨⟨r, hr, htask⟩, hothers⟩ := @saveTask_spec ids _ _ _ hsame.1
    have hne : ∀ later ∈ wanted, later.name ≠ task.name := fun later hlater heq =>
      hnames.1 (heq ▸ List.mem_map_of_mem hlater)
    obtain ⟨hdeclared, hrest⟩ := @ih (saveTask ids remote tasks task) hnames.2
      fun later hlater => (hothers _ (hne later hlater)).trans (hsame.2 later hlater)
    refine ⟨List.forall_mem_cons.2 ⟨⟨r, ?_, htask⟩, hdeclared⟩, fun name hname => ?_⟩
    · show taskNamed (saveTasks ids remote (saveTask ids remote tasks task) wanted).rows _ = _
      rw [taskNamed_eq, hrest _ hnames.1, ← taskNamed_eq, hr]
    · rw [List.map_cons, List.mem_cons, not_or] at hname
      exact (hrest name hname.2).trans (hothers name hname.1)

end SaveTask

/-! ## An application -/

/-- All that is declared is stored. -/
structure Matches (want : AppState) (a : Application) : Prop where
  name : a.name = want.name
  image : a.imageName = want.image
  port : a.port = want.port
  healthCheck : a.healthCheck = want.healthCheck
  stopGraceSeconds : a.stopGraceSeconds = want.stopGraceSeconds
  env : ∀ entry ∈ want.env, Stored a.envs entry.1 entry.2
  tasks : ∀ task ∈ want.tasks, ∃ r, taskNamed a.tasks.rows task.name = some r ∧
    r.toScheduledTask = task

/-- A variable that is not declared as a literal, or a preview's. -/
def undeclared (want : AppState) (entry : EnvEntry) : Bool :=
  entry.isPreview || !(want.env.map Prod.fst).contains entry.key

/-- What `apply` has no business with is as it was. -/
structure Kept (want : AppState) (a b : Application) : Prop where
  uuid : b.uuid = a.uuid
  environmentId : b.environmentId = a.environmentId
  imageTag : b.imageTag = a.imageTag
  env : b.envs.filter (undeclared want) = a.envs.filter (undeclared want)
  tasks : ∀ name, name ∉ want.tasks.map ScheduledTask.name →
    tasksNamed b.tasks.rows name = tasksNamed a.tasks.rows name

theorem filter_undeclared (want : AppState) (envs : List EnvEntry) :
    (putEnvs envs want.env).filter (undeclared want) = envs.filter (undeclared want) := by
  refine filter_putEnvs fun value hvalue entry hholds => ?_
  obtain ⟨hkey, hpreview⟩ := holds_iff.1 hholds
  have hdeclared : entry.key ∈ want.env.map Prod.fst := hkey ▸ List.mem_map_of_mem hvalue
  rw [undeclared, hpreview, List.contains_iff_mem.2 hdeclared]
  rfl

/-- No difference is seen, whatever can be read. -/
theorem Matches.differingFields {want : AppState} {a : Application} (h : Matches want a)
    (sight : Sight) : differingFields want (some (remoteApp sight a)) = [] := by
  have henv : want.env.filter (differsEnv (some (remoteApp sight a))) = [] := by
    refine List.filter_eq_nil_iff.2 fun entry hentry => ?_
    have hget := get_remoteApp sight (h.env entry hentry)
    simp only [differsEnv, Option.bind_some, hget]
    split_ifs <;> simp
  have htasks : want.tasks.filter (differsTask (some (remoteApp sight a))) = [] := by
    refine List.filter_eq_nil_iff.2 fun task htask => ?_
    obtain ⟨r, hr, hsame⟩ := h.tasks task htask
    have hr : (remoteApp sight a).task task.name = some r := hr
    rw [differsTask, Option.bind_some, hr, ← hsame]
    simp [sameTask]
  have hscalars : differingScalars want (some (remoteApp sight a)) = [] := by
    simp [differingScalars, differs, remoteApp, h.image, h.port, h.healthCheck, h.stopGraceSeconds]
  rw [CleanStack.Coolify.differingFields, hscalars, henv, htasks]
  rfl

/-- The application once its variables are written. -/
def withEnv (want : AppState) (a : Application) : Application :=
  { a with envs := putEnvs a.envs want.env }

theorem uuid_withEnv (want : AppState) (a : Application) : (withEnv want a).uuid = a.uuid := rfl

/-- Where the plan sees no difference, only unreadable variables may differ. -/
theorem matches_withEnv {want : AppState} {a : Application} {sight : Sight}
    (hkeys : (want.env.map Prod.fst).Nodup) (hname : a.name = want.name)
    (h : differingFields want (some (remoteApp sight a)) = []) : Matches want (withEnv want a) := by
  rw [differingFields, List.append_eq_nil_iff, List.append_eq_nil_iff] at h
  obtain ⟨⟨hscalars, -⟩, htasks⟩ := h
  have hfields : a.imageName = want.image ∧ a.port = want.port ∧ a.healthCheck = want.healthCheck ∧
      a.stopGraceSeconds = want.stopGraceSeconds := by
    simpa [differingScalars, differs, remoteApp, and_assoc] using hscalars
  refine ⟨hname, hfields.1, hfields.2.1, hfields.2.2.1, hfields.2.2.2, stored_putEnvs hkeys,
    fun task htask => ?_⟩
  have hsame := List.filter_eq_nil_iff.1 (List.map_eq_nil_iff.1 htasks) task htask
  rw [differsTask, Bool.not_eq_true', Bool.not_eq_false, Option.bind_some, sameTask,
    Option.any_eq_true] at hsame
  obtain ⟨r, hr, hequal⟩ := hsame
  refine ⟨r, hr, ?_⟩
  have hrname : r.name = task.name := by simpa using List.find?_some hr
  simp only [Bool.and_eq_true, decide_eq_true_eq] at hequal
  obtain ⟨⟨⟨hcommand, hschedule⟩, htimeout⟩, henabled⟩ := hequal
  cases task
  exact ScheduledTask.mk.injEq .. ▸ ⟨hrname, hcommand, hschedule, htimeout, henabled⟩

theorem Matches.withEnv_eq {want : AppState} {a : Application} (h : Matches want a) :
    withEnv want a = a := by
  rw [withEnv, putEnvs_eq h.env]

theorem kept_withEnv (want : AppState) (a : Application) : Kept want a (withEnv want a) :=
  ⟨rfl, rfl, rfl, filter_undeclared want a.envs, fun _ _ => rfl⟩

/-- The application once it is saved whole, its tasks being those answered. -/
def withAll (ids : Identifiers) (remoteTasks : List RemoteTask) (want : AppState)
    (a : Application) : Application :=
  { withEnv want (saved want a) with tasks := saveTasks ids remoteTasks a.tasks want.tasks }

theorem uuid_withAll (ids : Identifiers) (remoteTasks : List RemoteTask) (want : AppState)
    (a : Application) : (withAll ids remoteTasks want a).uuid = a.uuid := rfl

theorem matches_withAll (ids : Identifiers) {want : AppState} (a : Application)
    (hkeys : (want.env.map Prod.fst).Nodup) (hnames : (want.tasks.map ScheduledTask.name).Nodup) :
    Matches want (withAll ids a.tasks.rows want a) ∧
      Kept want a (withAll ids a.tasks.rows want a) := by
  obtain ⟨hdeclared, hothers⟩ := @saveTasks_spec ids a.tasks.rows a.tasks _ hnames
    fun _ _ => rfl
  exact ⟨⟨rfl, rfl, rfl, rfl, rfl, stored_putEnvs hkeys, hdeclared⟩,
    ⟨rfl, rfl, rfl, filter_undeclared want a.envs, hothers⟩⟩

end CleanStack.Coolify
