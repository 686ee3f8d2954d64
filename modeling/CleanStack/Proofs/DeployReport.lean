import CleanStack.Coolify.Deploy
import CleanStack.Proofs.ApplyConverges
import Mathlib.Data.List.TakeWhile

/-!
# What is reported of a deployment

Every call of a target is about its own application. So what its calls leave is what the
run leaves, and each outcome can be read off the calls of its own target: the last image
that was sent and answered, the values that were put back, or that nothing was sent.
-/

namespace CleanStack.Coolify

open CleanStack.Lib

/-! ## References -/

theorem splitRef_append {repository digest : List Char} (hr : '@' ∉ repository)
    (hd : '@' ∉ digest) : splitRef (repository ++ '@' :: digest) = (repository, digest) := by
  have hne : ∀ {l : List Char}, '@' ∉ l → ∀ c ∈ l, (decide (c ≠ '@')) = true := by
    intro l hl c hc
    exact decide_eq_true fun h => hl (h ▸ hc)
  rw [splitRef, List.takeWhile_append_of_pos (hne hr), List.dropWhile_append_of_pos (hne hr),
    List.takeWhile_cons_of_neg (by simp), List.append_nil, List.dropWhile_cons_of_neg (by simp)]
  exact congrArg _ (List.takeWhile_eq_self_iff.2 (hne hd))

theorem isOwnerChar_at : isOwnerChar '@' = false := by decide

theorem isLowerHex_at : isLowerHex '@' = false := by decide

/-- A reference has one `@`, in front of its digest. -/
theorem splitRef_of_digestRef {ref : List Char} (h : DIGEST_REF ref = true) :
    (splitRef ref).1 ++ '@' :: (splitRef ref).2 = ref := by
  simp only [DIGEST_REF, Bool.and_eq_true, List.any_eq_true, decide_eq_true_eq, beq_iff_eq] at h
  obtain ⟨-, name, -, ⟨-, hhex⟩, hshape⟩ := h
  generalize howner : (ref.drop registry.length).takeWhile isOwnerChar = owner at hshape hhex
  generalize ref.drop (registry.length + owner.length + (digestMark name).length) = digest
    at hshape hhex
  have hmark : digestMark name = ("/clean-stack-" ++ name.text).toList ++
      '@' :: "sha256:".toList := by cases name <;> decide
  have hfront : '@' ∉ registry ++ (owner ++ ("/clean-stack-" ++ name.text).toList) := by
    have hregistry : '@' ∉ registry := by decide
    have hname : '@' ∉ ("/clean-stack-" ++ name.text).toList := by cases name <;> decide
    have hnone : '@' ∉ owner := fun hmem => by
      have hchar := List.mem_takeWhile_imp (howner ▸ hmem)
      rw [isOwnerChar_at] at hchar
      cases hchar
    simp only [List.mem_append, not_or]
    exact ⟨hregistry, hnone, hname⟩
  have hback : '@' ∉ "sha256:".toList ++ digest := by
    have hsha : '@' ∉ "sha256:".toList := by decide
    have hnone : '@' ∉ digest := fun hmem => by
      have hchar := List.all_eq_true.1 hhex _ hmem
      rw [isLowerHex_at] at hchar
      cases hchar
    simp only [List.mem_append, not_or]
    exact ⟨hsha, hnone⟩
  have hsplit : ref = (registry ++ (owner ++ ("/clean-stack-" ++ name.text).toList)) ++
      '@' :: ("sha256:".toList ++ digest) := by
    rw [hshape, hmark]
    simp only [List.append_assoc, List.cons_append]
  rw [hsplit, splitRef_append hfront hback]

theorem parseDigestRef_ok {image ref : String} (h : parseDigestRef image = .ok ref) :
    ref = image ∧ DIGEST_REF image.toList = true := by
  unfold parseDigestRef at h
  split_ifs at h with hpinned
  cases h
  exact ⟨rfl, hpinned⟩

/-! ## Worlds -/

/-- Nothing about the application happens between the two. -/
structure Quiet (uuid : String) (w w' : World) : Prop where
  row : w'.stored.find? uuid = w.stored.find? uuid
  events : ∃ more, w'.events = w.events ++ more ∧ ∀ e ∈ more, e.uuid ≠ uuid

theorem Quiet.refl (uuid : String) (w : World) : Quiet uuid w w :=
  ⟨rfl, [], (List.append_nil _).symm, fun _ h => absurd h List.not_mem_nil⟩

theorem Quiet.trans {uuid : String} {w₁ w₂ w₃ : World} (h : Quiet uuid w₁ w₂)
    (h' : Quiet uuid w₂ w₃) : Quiet uuid w₁ w₃ := by
  obtain ⟨more, hmore, hnone⟩ := h.events
  obtain ⟨more', hmore', hnone'⟩ := h'.events
  refine ⟨h'.row.trans h.row, more ++ more', ?_, fun e he => ?_⟩
  · rw [hmore', hmore, List.append_assoc]
  · rcases List.mem_append.1 he with he | he
    · exact hnone e he
    · exact hnone' e he

/-- No event before is about it, so none after is. -/
theorem Quiet.fresh {uuid : String} {w w' : World} (h : Quiet uuid w w')
    (hfresh : ∀ e ∈ w.events, e.uuid ≠ uuid) : ∀ e ∈ w'.events, e.uuid ≠ uuid := by
  obtain ⟨more, hmore, hnone⟩ := h.events
  rw [hmore]
  exact fun e he => (List.mem_append.1 he).elim (hfresh e) (hnone e)

/-- Whatever happens is about the application, which is still there. -/
structure About (uuid : String) (w w' : World) : Prop where
  others : ∀ other, other ≠ uuid → Quiet other w w'
  row : ∀ a, w.stored.find? uuid = some a → ∃ b, w'.stored.find? uuid = some b

theorem About.refl (uuid : String) (w : World) : About uuid w w :=
  ⟨fun other _ => Quiet.refl other w, fun a h => ⟨a, h⟩⟩

theorem About.trans {uuid : String} {w₁ w₂ w₃ : World} (h : About uuid w₁ w₂)
    (h' : About uuid w₂ w₃) : About uuid w₁ w₃ := by
  refine ⟨fun other hne => (h.others other hne).trans (h'.others other hne), fun a ha => ?_⟩
  obtain ⟨b, hb⟩ := h.row a ha
  exact h'.row b hb

theorem about_log (uuid : String) (w : World) (kind : EventKind) :
    About uuid w (w.log uuid kind) := by
  refine ⟨fun other hne => ⟨rfl, [⟨uuid, kind⟩], rfl, fun e he => ?_⟩, fun a h => ⟨a, h⟩⟩
  rw [List.mem_singleton.1 he]
  exact Ne.symm hne

section Calls

variable {w : World} {uuid : String} {f : Application → Application} {a : Application}
  (hf : ∀ a, (f a).uuid = a.uuid) {fate : Fate}

theorem find?_write (s : Applications) (other : String) : (s.write uuid f hf).find? other =
    (s.find? other).map fun a => if a.uuid = uuid then f a else a := by
  rw [Applications.write, Table.find?_update]
  simp only [decide_eq_true_eq]

theorem find?_write_self {s : Applications} (ha : s.find? uuid = some a) :
    (s.write uuid f hf).find? uuid = some (f a) := by
  have huuid : a.uuid = uuid := (Table.find?_eq_some.1 ha).2
  rw [find?_write, ha, Option.map_some, if_pos huuid]

theorem find?_write_ne {s : Applications} {other : String} (hne : other ≠ uuid) :
    (s.write uuid f hf).find? other = s.find? other := by
  rw [find?_write]
  cases hother : s.find? other with
  | none => rfl
  | some b =>
    have hkey : b.uuid = other := (Table.find?_eq_some.1 hother).2
    rw [Option.map_some, if_neg fun h => hne (hkey.symm.trans h)]

theorem about_stored (w : World) :
    About uuid w { w with stored := w.stored.write uuid f hf } := by
  refine ⟨fun other hne => ⟨?_, [], (List.append_nil _).symm, ?_⟩, fun a ha => ⟨f a, ?_⟩⟩
  · exact find?_write_ne hf hne
  · exact fun _ h => absurd h List.not_mem_nil
  · exact find?_write_self hf ha

/-- Whether it succeeds, fails or fails having taken effect. -/
theorem about_writeCall (w : World) (fate : Fate) :
    About uuid w (writeCall w uuid f hf fate).2 := by
  have hlog := about_log uuid w .written
  cases fate with
  | done => exact hlog.trans (about_stored hf (w.log uuid .written))
  | failed error tookEffect =>
    cases tookEffect with
    | true => exact hlog.trans (about_stored hf (w.log uuid .written))
    | false => exact hlog

theorem writeCall_ok {hf : ∀ a, (f a).uuid = a.uuid} (hok : (writeCall w uuid f hf fate).1 = .ok ())
    (ha : w.stored.find? uuid = some a) :
    (writeCall w uuid f hf fate).2.stored.find? uuid = some (f a) := by
  cases fate with
  | done => exact find?_write_self hf ha
  | failed error tookEffect => cases hok

end Calls

section Client

variable {w : World} {uuid : String} {a : Application}

theorem about_sendEnv (w : World) (uuid : String) (values : List (String × String))
    (fate : Fate) : About uuid w (sendEnv w uuid values fate).2 := by
  unfold sendEnv
  split_ifs
  · exact About.refl uuid w
  · exact about_writeCall (uuid_withValues values) w fate

theorem sendEnv_ok {values : List (String × String)} {fate : Fate}
    (hok : (sendEnv w uuid values fate).1 = .ok ()) (ha : w.stored.find? uuid = some a) :
    (sendEnv w uuid values fate).2.stored.find? uuid = some (withValues values a) := by
  unfold sendEnv at hok ⊢
  split_ifs at hok ⊢ with hempty
  · rw [List.isEmpty_iff.1 hempty]
    exact ha
  · exact writeCall_ok hok ha

section Restore

variable {snapshot : Snapshot} {imageFate envFate : Fate}

theorem about_restore (w : World) (uuid : String) (snapshot : Snapshot)
    (imageFate envFate : Fate) : About uuid w (restore w uuid snapshot imageFate envFate).2 := by
  have hpatch : About uuid w (writeCall w uuid _ _ imageFate).2 :=
    about_writeCall (uuid_withImage snapshot.imageName snapshot.imageTag) w imageFate
  unfold restore
  dsimp only
  split
  · exact hpatch
  · exact hpatch.trans (about_sendEnv _ _ _ _)

theorem restore_ok (hok : (restore w uuid snapshot imageFate envFate).1 = .ok ())
    (ha : w.stored.find? uuid = some a) :
    (restore w uuid snapshot imageFate envFate).2.stored.find? uuid =
      some (withValues snapshot.known (withImage snapshot.imageName snapshot.imageTag a)) := by
  unfold restore at hok ⊢
  dsimp only at hok ⊢
  split at hok
  · cases hok
  · next hpatch =>
    exact sendEnv_ok hok (writeCall_ok hpatch ha)

end Restore

/-- Waiting writes nothing. -/
theorem about_wait {id : String} {timeoutMs : Nat}
    {polls : List (Nat → Except CallError String)} :
    About uuid w (waitForDeployment uuid id timeoutMs polls w).2 := by
  induction polls generalizing w with
  | nil => exact About.refl uuid w
  | cons poll polls ih =>
    unfold waitForDeployment
    split
    · exact About.refl uuid w
    · next status _ =>
      have hseen := about_log uuid w (.seen id status)
      dsimp only
      split_ifs
      · exact hseen
      · exact hseen
      · exact hseen.trans ih

/-- It answers when it has seen the deployment finished. -/
theorem wait_ok {id : String} {timeoutMs : Nat}
    {polls : List (Nat → Except CallError String)}
    (hok : (waitForDeployment uuid id timeoutMs polls w).1 = .ok ()) :
    (waitForDeployment uuid id timeoutMs polls w).2.stored = w.stored ∧
      ∃ more, (waitForDeployment uuid id timeoutMs polls w).2.events = w.events ++ more ∧
        ⟨uuid, .seen id FINISHED⟩ ∈ more := by
  induction polls generalizing w with
  | nil => cases hok
  | cons poll polls ih =>
    unfold waitForDeployment at hok ⊢
    split at hok
    · cases hok
    · next status _ =>
      dsimp only at hok ⊢
      split_ifs at hok ⊢ with hfinished hfailed
      · exact ⟨rfl, [⟨uuid, .seen id status⟩], rfl, hfinished ▸ List.mem_singleton.2 rfl⟩
      · obtain ⟨hstored, more, hmore, hmem⟩ := ih hok
        refine ⟨hstored, ⟨uuid, .seen id status⟩ :: more, ?_, List.mem_cons_of_mem _ hmem⟩
        rw [hmore]
        exact List.append_assoc _ _ _

section Deploy

variable {image : String} {imageFate : Fate} {started : Except CallError (List String)}

theorem about_deploy (w : World) (uuid image : String) (imageFate : Fate)
    (started : Except CallError (List String)) :
    About uuid w (deploy w uuid image imageFate started).2 := by
  unfold deploy
  split
  · exact About.refl uuid w
  · next ref _ =>
    have hpatch : About uuid w (writeCall w uuid _ _ imageFate).2 :=
      about_writeCall (uuid_withImage (String.ofList (splitRef ref.toList).1)
        (String.ofList (splitRef ref.toList).2)) w imageFate
    dsimp only
    split
    · exact hpatch
    · split
      · exact hpatch.trans (about_log _ _ _)
      · split <;> exact hpatch.trans (about_log _ _ _)

/-- The image of an application as it is asked for. -/
def pinned (a : Application) : String := a.imageName ++ "@" ++ a.imageTag

theorem pinned_withImage (h : DIGEST_REF image.toList = true) (a : Application) :
    pinned (withImage (String.ofList (splitRef image.toList).1)
      (String.ofList (splitRef image.toList).2) a) = image := by
  refine String.toList_injective ?_
  show (String.ofList _ ++ "@" ++ String.ofList _).toList = _
  simp only [String.toList_append, String.toList_ofList, List.append_assoc]
  exact splitRef_of_digestRef h

theorem deploy_ok {id : String} (hok : (deploy w uuid image imageFate started).1 = .ok id)
    (ha : w.stored.find? uuid = some a) :
    (∃ b, (deploy w uuid image imageFate started).2.stored.find? uuid = some b ∧
        pinned b = image) ∧
      ⟨uuid, .started id⟩ ∈ (deploy w uuid image imageFate started).2.events := by
  unfold deploy at hok ⊢
  split at hok
  · cases hok
  · next ref hparsed =>
    obtain ⟨rfl, hpinned⟩ := parseDigestRef_ok hparsed
    dsimp only at hok ⊢
    split at hok
    · cases hok
    · next hpatch =>
      have hrow := writeCall_ok hpatch ha
      split at hok
      · cases hok
      · split at hok
        · cases hok
        · cases hok
          exact ⟨⟨_, hrow, pinned_withImage hpinned a⟩,
            List.mem_append_right _ (List.mem_singleton.2 rfl)⟩

end Deploy

end Client

/-! ## One target -/

/-- A deployment of the application was started and later seen finished. -/
def SeenFinished (uuid : String) (events : List DeployEvent) : Prop :=
  ∃ id, List.Sublist [⟨uuid, .started id⟩, ⟨uuid, .seen id FINISHED⟩] events

section DeployTarget

variable {release : String} {script : TargetScript} {t : Target} {w : World} {a : Application}

theorem about_deployTarget (release : String) (script : TargetScript) (t : Target) (w : World) :
    About t.uuid w (deployTarget release script t w).2 := by
  have hset := about_sendEnv w t.uuid ((releaseKeys t.app).map fun key => (key, release))
    script.envFate
  unfold deployTarget
  dsimp only
  split
  · exact hset
  · have hdeploy := hset.trans (about_deploy _ _ t.image script.imageFate script.started)
    split
    · exact hdeploy
    · exact hdeploy.trans about_wait

theorem deployTarget_ok (hok : (deployTarget release script t w).1 = .ok ())
    (ha : w.stored.find? t.uuid = some a) :
    (∃ b, (deployTarget release script t w).2.stored.find? t.uuid = some b ∧
        pinned b = t.image) ∧
      SeenFinished t.uuid (deployTarget release script t w).2.events := by
  unfold deployTarget at hok ⊢
  dsimp only at hok ⊢
  split at hok
  · cases hok
  · next hset =>
    split at hok
    · cases hok
    · next id hdeploy =>
      obtain ⟨⟨b, hb, himage⟩, hstarted⟩ := deploy_ok hdeploy (sendEnv_ok hset ha)
      obtain ⟨hstored, more, hmore, hseen⟩ := wait_ok hok
      refine ⟨⟨b, ?_, himage⟩, id, ?_⟩
      · rw [hstored]
        exact hb
      · rw [hmore]
        exact (List.singleton_sublist.2 hstarted).append (List.singleton_sublist.2 hseen)

end DeployTarget

/-! ## Outcomes -/

/-- What an outcome says: `before` and `after` are the target's application when the run
starts and when it is over, `keys` its release keys. -/
def Outcome.Holds (image : String) (keys : List String) (sight : String → Bool)
    (before after : Application) (events : List DeployEvent) : Outcome → Prop
  | .deployed ref => ref = image ∧ pinned after = image ∧ SeenFinished before.uuid events
  | .restored previous _ _ =>
      previous = snapshotOf before sight keys ∧
        after.imageName = before.imageName ∧ after.imageTag = before.imageTag ∧
        ∀ key ∈ keys, sight key = true → ∀ value, firstValue before.envs key = some value →
          firstValue after.envs key = some value
  | .unrestored _ => True
  | .skipped => after = before ∧ ∀ e ∈ events, e.uuid ≠ before.uuid
  | .pending => after = before ∧ ∀ e ∈ events, e.uuid ≠ before.uuid

theorem Stored.firstValue {envs : List EnvEntry} {key value : String}
    (h : Stored envs key value) : firstValue envs key = some value := by
  obtain ⟨⟨entry, hmem, hholds⟩, hvalues⟩ := h
  unfold Coolify.firstValue
  cases hfirst : envs.find? (EnvEntry.holds key) with
  | none => exact absurd hholds (List.find?_eq_none.1 hfirst entry hmem)
  | some first =>
    rw [Option.map_some,
      hvalues first (List.mem_of_find?_eq_some hfirst) (List.find?_some hfirst)]

section Snapshot

variable {a : Application} {sight : String → Bool} {keys : List String}

theorem keys_snapshot : (snapshotOf a sight keys).env.map Prod.fst = keys := by
  show (keys.map _).map Prod.fst = keys
  rw [List.map_map]
  exact List.map_id keys

theorem nodup_known {snapshot : Snapshot} (h : (snapshot.env.map Prod.fst).Nodup) :
    (snapshot.known.map Prod.fst).Nodup := by
  have hsub : (snapshot.known.map Prod.fst).Sublist (snapshot.env.map Prod.fst) := by
    unfold Snapshot.known
    generalize snapshot.env = env
    induction env with
    | nil => exact .slnil
    | cons entry env ih =>
      cases hvalue : entry.2 with
      | none =>
        rw [List.filterMap_cons_none (by rw [hvalue]; rfl)]
        exact ih.cons _
      | some value =>
        rw [List.filterMap_cons_some (by rw [hvalue]; rfl)]
        exact ih.cons_cons _
  exact hsub.nodup h

theorem mem_known {key value : String} (hkey : key ∈ keys) (hsight : sight key = true)
    (hvalue : firstValue a.envs key = some value) :
    (key, value) ∈ (snapshotOf a sight keys).known := by
  refine List.mem_filterMap.2 ⟨(key, some value), List.mem_map.2 ⟨key, hkey, ?_⟩, rfl⟩
  rw [if_pos hsight, hvalue]

end Snapshot

theorem Outcome.Holds.later {image : String} {keys : List String} {sight : String → Bool}
    {before after : Application} {w w' : World} {outcome : Outcome}
    (h : outcome.Holds image keys sight before after w.events) (hq : Quiet before.uuid w w') :
    outcome.Holds image keys sight before after w'.events := by
  cases outcome with
  | deployed ref =>
    obtain ⟨href, hafter, id, hseen⟩ := h
    obtain ⟨more, hmore, -⟩ := hq.events
    refine ⟨href, hafter, id, ?_⟩
    rw [hmore]
    exact hseen.trans (List.sublist_append_left _ _)
  | restored previous timedOut release => exact h
  | unrestored reason => exact h
  | skipped => exact ⟨h.1, hq.fresh h.2⟩
  | pending => exact ⟨h.1, hq.fresh h.2⟩

/-- What throws leaves a target that is not deployed. -/
theorem rejects_iff {message : String} {outcome : Outcome} (h : outcome.isDeployed = false) :
    some message = none ↔ outcome.isDeployed = true := by
  rw [h]
  simp

/-- What one round does. -/
structure RanTarget (t : Target) (sight : String → Bool) (before : Application) (w : World)
    (run : TargetRun) : Prop where
  about : About t.uuid w run.world
  rejects : run.thrown = none ↔ run.outcome.isDeployed = true
  holds : ∃ after, run.world.stored.find? t.uuid = some after ∧
    run.outcome.Holds t.image (releaseKeys t.app) sight before after run.world.events

section RunTarget

variable {release : String} {script : TargetScript} {t : Target} {w : World} {a : Application}

/-- An image that is put back and values that are put back are those of the snapshot, since
the writes in between have changed nothing else. -/
theorem ranTarget_write (hkeys : (releaseKeys t.app).Nodup)
    (ha : w.stored.find? t.uuid = some a) :
    RanTarget t script.sight a w (writeTarget release script t
      (snapshotOf a script.sight (releaseKeys t.app)) w) := by
  have huuid : a.uuid = t.uuid := (Table.find?_eq_some.1 ha).2
  have htried := about_deployTarget release script t w
  have hundone := htried.trans (about_restore _ _
    (snapshotOf a script.sight (releaseKeys t.app)) script.restoreImageFate script.restoreEnvFate)
  unfold writeTarget
  dsimp only
  split
  · next hok =>
    obtain ⟨⟨b, hb, himage⟩, hseen⟩ := deployTarget_ok hok ha
    exact ⟨htried, ⟨fun _ => rfl, fun _ => rfl⟩, b, hb, rfl, himage, huuid ▸ hseen⟩
  · obtain ⟨b, hb⟩ := htried.row a ha
    split
    · obtain ⟨c, hc⟩ := hundone.row a ha
      exact ⟨hundone, rejects_iff rfl, c, hc, True.intro⟩
    · next hrestored =>
      refine ⟨hundone, rejects_iff rfl, _, restore_ok hrestored hb, rfl, rfl, rfl,
        fun key hkey hsight value hvalue => ?_⟩
      have hnodup :
          ((snapshotOf a script.sight (releaseKeys t.app)).env.map Prod.fst).Nodup := by
        rw [keys_snapshot]
        exact hkeys
      exact (stored_putEnvs (nodup_known hnodup) _ (mem_known hkey hsight hvalue)).firstValue

/-- Before the snapshot is answered nothing is written. -/
theorem ranTarget_untouched {message : String} {outcome : Outcome}
    (houtcome : outcome = .pending ∨ outcome = .skipped) (ha : w.stored.find? t.uuid = some a)
    (hfresh : ∀ e ∈ w.events, e.uuid ≠ t.uuid) :
    RanTarget t script.sight a w ⟨some message, outcome, w⟩ := by
  have huuid : a.uuid = t.uuid := (Table.find?_eq_some.1 ha).2
  rw [← huuid] at hfresh
  rcases houtcome with rfl | rfl
  · exact ⟨About.refl _ _, rejects_iff rfl, a, ha, rfl, hfresh⟩
  · exact ⟨About.refl _ _, rejects_iff rfl, a, ha, rfl, hfresh⟩

theorem ranTarget (hkeys : (releaseKeys t.app).Nodup) (ha : w.stored.find? t.uuid = some a)
    (hfresh : ∀ e ∈ w.events, e.uuid ≠ t.uuid) :
    RanTarget t script.sight a w (runTarget release script t w) := by
  unfold runTarget
  split_ifs
  · exact ranTarget_untouched (.inl rfl) ha hfresh
  · dsimp only
    split
    · exact ranTarget_untouched (.inl rfl) ha hfresh
    · split_ifs
      · exact ranTarget_untouched (.inr rfl) ha hfresh
      · cases herror : script.snapshotError with
        | some error =>
          have hnone : takeSnapshot script t w = .error error.message := by
            rw [takeSnapshot, herror]
          rw [hnone]
          exact ranTarget_untouched (.inl rfl) ha hfresh
        | none =>
          have hsnapshot : takeSnapshot script t w =
              .ok (snapshotOf a script.sight (releaseKeys t.app)) := by
            rw [takeSnapshot, herror, ha]
          rw [hsnapshot]
          exact ranTarget_write hkeys ha

end RunTarget

/-! ## All targets -/

/-- What the rounds do; an entry's target is the one of its name. -/
structure RanTargets (script : AppName → TargetScript) (targets : List Target) (w : World)
    (run : TargetsRun) : Prop where
  names : run.outcomes.map Prod.fst = targets.map Target.name
  rejects : run.thrown = none ↔ ∀ entry ∈ run.outcomes, entry.2.isDeployed = true
  quiet : ∀ uuid, uuid ∉ targets.map Target.uuid → Quiet uuid w run.world
  holds : ∀ entry ∈ run.outcomes, ∃ t ∈ targets, t.name = entry.1 ∧ ∃ before after,
    w.stored.find? t.uuid = some before ∧ run.world.stored.find? t.uuid = some after ∧
      entry.2.Holds t.image (releaseKeys t.app) (script t.name).sight before after
        run.world.events

section RunTargets

variable {release : String} {script : AppName → TargetScript}

/-- A round that throws leaves the later targets as they are. -/
theorem ranTargets_thrown {t : Target} {targets : List Target} {w : World} {a : Application}
    {message : String} (hround : RanTarget t (script t.name).sight a w
      (runTarget release (script t.name) t w))
    (hthrown : (runTarget release (script t.name) t w).thrown = some message)
    (huuid : t.uuid ∉ targets.map Target.uuid) (ha : w.stored.find? t.uuid = some a)
    (hrows : ∀ later ∈ targets, ∃ b, w.stored.find? later.uuid = some b)
    (hfresh : ∀ later ∈ targets, ∀ e ∈ w.events, e.uuid ≠ later.uuid) :
    RanTargets script (t :: targets) w (runTargets release script (t :: targets) w) := by
  rw [runTargets]
  dsimp only
  rw [hthrown]
  have hfailed : (runTarget release (script t.name) t w).outcome.isDeployed ≠ true := fun h => by
    rw [hround.rejects.2 h] at hthrown
    cases hthrown
  refine ⟨?_, ?_, fun uuid hnot => hround.about.others uuid fun h =>
    hnot (h ▸ List.mem_cons_self), ?_⟩
  · show _ :: (targets.map _).map Prod.fst = _
    rw [List.map_map]
    rfl
  · show some message = none ↔ _
    exact iff_of_false (Option.some_ne_none message) fun h =>
      hfailed (h _ List.mem_cons_self)
  · refine List.forall_mem_cons.2 ⟨?_, fun entry hentry => ?_⟩
    · obtain ⟨after, hafter, hholds⟩ := hround.holds
      exact ⟨t, List.mem_cons_self, rfl, a, after, ha, hafter, hholds⟩
    · obtain ⟨later, hlater, rfl⟩ := List.mem_map.1 hentry
      obtain ⟨b, hb⟩ := hrows later hlater
      have hbuuid : b.uuid = later.uuid := (Table.find?_eq_some.1 hb).2
      have hquiet := hround.about.others later.uuid fun h =>
        huuid (h ▸ List.mem_map_of_mem hlater)
      refine ⟨later, List.mem_cons_of_mem _ hlater, rfl, b, b, hb, hquiet.row.trans hb, rfl, ?_⟩
      rw [hbuuid]
      exact hquiet.fresh (hfresh later hlater)

/-- A round that does not throw is followed by the others, none of which is about its
application. -/
theorem ranTargets_deployed {t : Target} {targets : List Target} {w : World} {a : Application}
    (hround : RanTarget t (script t.name).sight a w (runTarget release (script t.name) t w))
    (hthrown : (runTarget release (script t.name) t w).thrown = none)
    (huuid : t.uuid ∉ targets.map Target.uuid) (ha : w.stored.find? t.uuid = some a)
    (hrest : RanTargets script targets (runTarget release (script t.name) t w).world
      (runTargets release script targets (runTarget release (script t.name) t w).world)) :
    RanTargets script (t :: targets) w (runTargets release script (t :: targets) w) := by
  rw [runTargets]
  dsimp only
  rw [hthrown]
  have hquiet := hrest.quiet t.uuid huuid
  have hauuid : a.uuid = t.uuid := (Table.find?_eq_some.1 ha).2
  refine ⟨?_, ?_, fun uuid hnot => ?_, List.forall_mem_cons.2 ⟨?_, fun entry hentry => ?_⟩⟩
  · rw [List.map_cons, List.map_cons, hrest.names]
  · rw [List.forall_mem_cons]
    exact ⟨fun h => ⟨hround.rejects.1 hthrown, hrest.rejects.1 h⟩, fun h => hrest.rejects.2 h.2⟩
  · rw [List.map_cons, List.mem_cons, not_or] at hnot
    exact (hround.about.others uuid hnot.1).trans (hrest.quiet uuid hnot.2)
  · obtain ⟨after, hafter, hholds⟩ := hround.holds
    exact ⟨t, List.mem_cons_self, rfl, a, after, ha, hquiet.row.trans hafter,
      hholds.later (hauuid ▸ hquiet)⟩
  · obtain ⟨later, hlater, hname, before, after, hbefore, hafter, hholds⟩ :=
      hrest.holds entry hentry
    have hsame := hround.about.others later.uuid fun h =>
      huuid (h ▸ List.mem_map_of_mem hlater)
    exact ⟨later, List.mem_cons_of_mem _ hlater, hname, before, after,
      hsame.row.symm.trans hbefore, hafter, hholds⟩

theorem ranTargets {targets : List Target} {w : World}
    (huuids : (targets.map Target.uuid).Nodup)
    (hkeys : ∀ t ∈ targets, (releaseKeys t.app).Nodup)
    (hrows : ∀ t ∈ targets, ∃ a, w.stored.find? t.uuid = some a)
    (hfresh : ∀ t ∈ targets, ∀ e ∈ w.events, e.uuid ≠ t.uuid) :
    RanTargets script targets w (runTargets release script targets w) := by
  induction targets generalizing w with
  | nil =>
    exact ⟨rfl, ⟨fun _ _ h => absurd h List.not_mem_nil, fun _ => rfl⟩,
      fun uuid _ => Quiet.refl uuid w, fun _ h => absurd h List.not_mem_nil⟩
  | cons t targets ih =>
    rw [List.map_cons, List.nodup_cons] at huuids
    rw [List.forall_mem_cons] at hkeys hrows hfresh
    obtain ⟨a, ha⟩ := hrows.1
    have hround : RanTarget t (script t.name).sight a w (runTarget release (script t.name) t w) :=
      ranTarget hkeys.1 ha hfresh.1
    cases hthrown : (runTarget release (script t.name) t w).thrown with
    | some message => exact ranTargets_thrown hround hthrown huuids.1 ha hrows.2 hfresh.2
    | none =>
      have hquiet : ∀ later ∈ targets,
          Quiet later.uuid w (runTarget release (script t.name) t w).world := fun later hlater =>
        hround.about.others later.uuid fun h => huuids.1 (h ▸ List.mem_map_of_mem hlater)
      refine ranTargets_deployed hround hthrown huuids.1 ha (ih huuids.2 hkeys.2 ?_ ?_)
      · intro later hlater
        obtain ⟨b, hb⟩ := hrows.2 later hlater
        exact ⟨b, (hquiet later hlater).row.trans hb⟩
      · exact fun later hlater => (hquiet later hlater).fresh (hfresh.2 later hlater)

end RunTargets

/-! ## Finding the targets -/

theorem findApp_eq_some {T : Type} [Summary T] {apps : List T} {name environment : String}
    {app : T} : findApp apps name environment = .ok (some app) ↔
      (apps.filter fun app => Summary.name app = name) = [app] := by
  unfold findApp
  generalize (apps.filter fun app => Summary.name app = name) = matching
  rcases matching with _ | ⟨first, _ | ⟨second, matching⟩⟩ <;> simp

/-- The only application of that name in the environment. -/
def OnlyAt (s : Applications) (environmentId name : String) (a : Application) : Prop :=
  a ∈ s.rows ∧ At environmentId name a ∧ ∀ b ∈ s.rows, At environmentId name b → b = a

theorem findApp_rows {s : Applications} {environmentId name environment : String}
    {a : Application} :
    findApp (applicationsIn s environmentId) name environment = .ok (some a) ↔
      OnlyAt s environmentId name a := by
  have hmem : ∀ b, b ∈ ((applicationsIn s environmentId).filter fun app =>
      Summary.name app = name) ↔ b ∈ s.rows ∧ At environmentId name b := by
    intro b
    rw [applicationsIn, List.filter_filter, List.mem_filter, Bool.and_eq_true,
      decide_eq_true_eq, decide_eq_true_eq, and_comm (a := Summary.name b = name)]
    rfl
  have hnodup : ((applicationsIn s environmentId).filter fun app =>
      Summary.name app = name).Nodup := ((List.Nodup.of_map _ s.nodup).filter _).filter _
  rw [findApp_eq_some]
  generalize ((applicationsIn s environmentId).filter fun app => Summary.name app = name) =
    matching at hmem hnodup
  constructor
  · rintro rfl
    have ha := (hmem a).1 (List.mem_singleton.2 rfl)
    exact ⟨ha.1, ha.2, fun b hb hat => List.mem_singleton.1 ((hmem b).2 ⟨hb, hat⟩)⟩
  · rintro ⟨ha, hat, honly⟩
    refine List.perm_singleton.1
      ((List.perm_ext_iff_of_nodup hnodup (List.nodup_singleton a)).2 fun b => ?_)
    rw [hmem, List.mem_singleton]
    exact ⟨fun h => honly b h.1 h.2, fun h => h ▸ ⟨ha, hat⟩⟩

/-- A target of the application it is for. -/
structure TargetOf (options : DeployOptions) (s : Applications) (environmentId : String)
    (t : Target) (a : Application) : Prop where
  image : options.digests t.name = some t.image
  app : t.app ∈ servicesFor options.environment options.owner ∧ t.app.name = t.name
  row : OnlyAt s environmentId t.name.text a ∧ a.uuid = t.uuid

theorem exists_service (environment : CoolifyEnvironment) (owner : String) (name : AppName) :
    ∃ app, (servicesFor environment owner).find? (fun app => app.name = name) = some app ∧
      app ∈ servicesFor environment owner ∧ app.name = name := by
  have hsome : ∃ app,
      (servicesFor environment owner).find? (fun app => app.name = name) = some app := by
    cases name <;> exact ⟨_, rfl⟩
  obtain ⟨app, happ⟩ := hsome
  exact ⟨app, happ, List.mem_of_find?_eq_some happ, by simpa using List.find?_some happ⟩

theorem nodup_releaseKeys {environment : CoolifyEnvironment} {owner : String} {app : CoolifyApp}
    (h : app ∈ servicesFor environment owner) : (releaseKeys app).Nodup := by
  simp only [servicesFor, List.mem_cons, List.not_mem_nil, or_false] at h
  rcases h with rfl | rfl | rfl
  · exact List.nodup_singleton "GIT_SHA"
  · exact List.nodup_nil
  · exact List.nodup_nil

section TargetsFrom

variable {options : DeployOptions} {s : Applications} {environmentId : String}

theorem targetsFrom_ok {names : List AppName} {targets : List Target}
    (h : targetsFrom options (applicationsIn s environmentId) names = .ok targets) :
    targets.map Target.name = names.filter (fun name => (options.digests name).isSome) ∧
      ∀ t ∈ targets, ∃ a, TargetOf options s environmentId t a := by
  induction names generalizing targets with
  | nil =>
    cases h
    exact ⟨rfl, fun _ h => absurd h List.not_mem_nil⟩
  | cons name names ih =>
    rw [targetsFrom] at h
    cases himage : options.digests name with
    | none =>
      rw [himage] at h
      rw [List.filter_cons_of_neg (by simp [himage])]
      exact ih h
    | some image =>
      rw [himage] at h
      obtain ⟨app, hfind, happ, hname⟩ := exists_service options.environment options.owner name
      dsimp only at h
      rw [hfind] at h
      cases hfound : findApp (applicationsIn s environmentId) name.text options.environment.text with
      | error message =>
        rw [hfound] at h
        cases h
      | ok found =>
        rw [hfound] at h
        cases found with
        | none => cases h
        | some a =>
          change (targetsFrom options (applicationsIn s environmentId) names).map _ = _ at h
          cases hrest : targetsFrom options (applicationsIn s environmentId) names with
          | error message =>
            rw [hrest] at h
            cases h
          | ok rest =>
            rw [hrest] at h
            cases h
            obtain ⟨hnames, htargets⟩ := ih hrest
            rw [List.filter_cons_of_pos (by simp [himage]), List.map_cons, hnames]
            refine ⟨rfl, List.forall_mem_cons.2 ⟨⟨a, himage, ⟨happ, hname⟩, ?_, rfl⟩, htargets⟩⟩
            exact findApp_rows.1 hfound

theorem exists_targetsFrom {names : List AppName}
    (h : ∀ name ∈ names, (options.digests name).isSome = true →
      ∃ a, OnlyAt s environmentId name.text a) :
    ∃ targets, targetsFrom options (applicationsIn s environmentId) names = .ok targets := by
  induction names with
  | nil => exact ⟨[], rfl⟩
  | cons name names ih =>
    rw [List.forall_mem_cons] at h
    obtain ⟨rest, hrest⟩ := ih h.2
    rw [targetsFrom]
    cases himage : options.digests name with
    | none => exact ⟨rest, hrest⟩
    | some image =>
      obtain ⟨a, ha⟩ := h.1 (by rw [himage]; rfl)
      obtain ⟨app, hfind, -, -⟩ := exists_service options.environment options.owner name
      dsimp only
      rw [findApp_rows.2 ha, hfind, hrest]
      exact ⟨_, rfl⟩

/-- Targets of different names are different applications. -/
theorem nodup_targets {targets : List Target} (hnames : (targets.map Target.name).Nodup)
    (h : ∀ t ∈ targets, ∃ a, TargetOf options s environmentId t a) :
    (targets.map Target.uuid).Nodup := by
  refine (List.nodup_map_iff_inj_on (List.Nodup.of_map _ hnames)).2 fun t ht t' ht' huuid => ?_
  obtain ⟨a, ha⟩ := h t ht
  obtain ⟨b, hb⟩ := h t' ht'
  have hsame : a = b := Table.eq_of_key ha.row.1.1 hb.row.1.1
    (ha.row.2.trans (huuid.trans hb.row.2.symm))
  refine List.inj_on_of_nodup_map hnames ht ht' (text_injective ?_)
  rw [← ha.row.1.2.1.2, ← hb.row.1.2.1.2, hsame]

end TargetsFrom

/-! ## The run -/

/-- The environment is answered, listed, and has one application for each target. -/
structure Found (options : DeployOptions) (script : DeployScript) (s : Applications)
    (environmentId : String) : Prop where
  release : RELEASE options.release = true
  environment : script.environmentId = .ok environmentId ∧ environmentId ≠ ""
  list : script.list = none
  target : ∀ name, (options.digests name).isSome = true →
    ∃ a, OnlyAt s environmentId name.text a

/-- Every target is reported once, and so that it is true. -/
structure Reported (options : DeployOptions) (script : DeployScript) (s : Applications)
    (environmentId : String) (run : DeployRun) (outcomes : List (AppName × Outcome)) : Prop where
  report : run.report = some outcomes
  names : outcomes.map Prod.fst = APP_ORDER.filter fun name => (options.digests name).isSome
  rejects : run.rejected = none ↔ ∀ entry ∈ outcomes, entry.2.isDeployed = true
  holds : ∀ entry ∈ outcomes, ∃ image app before after, options.digests entry.1 = some image ∧
    app ∈ servicesFor options.environment options.owner ∧ app.name = entry.1 ∧
    OnlyAt s environmentId entry.1.text before ∧
    run.world.stored.find? before.uuid = some after ∧
    entry.2.Holds image (releaseKeys app) (script.target entry.1).sight before after
      run.world.events

section Run

variable {options : DeployOptions} {script : DeployScript} {s : Applications}

theorem targetsOf_ok {targets : List Target} (h : targetsOf options script s = .ok targets) :
    ∃ id, RELEASE options.release = true ∧ (script.environmentId = .ok id ∧ id ≠ "") ∧
      script.list = none ∧ targetsFrom options (applicationsIn s id) APP_ORDER = .ok targets := by
  unfold targetsOf at h
  split_ifs at h with hrelease
  split at h
  · cases h
  · next id henvironment =>
    split_ifs at h with hempty
    split at h
    · cases h
    · next hlist => exact ⟨id, by simpa using hrelease, ⟨henvironment, hempty⟩, hlist, h⟩

theorem Found.targetsOf {environmentId : String} (h : Found options script s environmentId) :
    ∃ targets, targetsOf options script s = .ok targets ∧
      targetsFrom options (applicationsIn s environmentId) APP_ORDER = .ok targets := by
  have hnames : ∀ name ∈ APP_ORDER, (options.digests name).isSome = true →
      ∃ a, OnlyAt s environmentId name.text a := fun name _ hsome => h.target name hsome
  obtain ⟨targets, htargets⟩ := exists_targetsFrom hnames
  refine ⟨targets, ?_, htargets⟩
  rw [Coolify.targetsOf, h.release, h.environment.1, h.list]
  simp [h.environment.2, htargets]

theorem found_of_ok {targets : List Target} (h : targetsOf options script s = .ok targets) :
    ∃ id, Found options script s id := by
  obtain ⟨id, hrelease, henvironment, hlist, hfrom⟩ := targetsOf_ok h
  obtain ⟨hnames, htargets⟩ := targetsFrom_ok hfrom
  refine ⟨id, hrelease, henvironment, hlist, fun name hsome => ?_⟩
  have hmem : name ∈ targets.map Target.name := by
    rw [hnames, List.mem_filter]
    exact ⟨by cases name <;> decide, hsome⟩
  obtain ⟨t, ht, rfl⟩ := List.mem_map.1 hmem
  obtain ⟨a, ha⟩ := htargets t ht
  exact ⟨a, ha.row.1⟩

/-- A run that does not find its targets throws before it reports or writes. -/
theorem runDeploy_unfound (h : ¬∃ id, Found options script s id) :
    ∃ message, runDeploy options script s = ⟨some message, none, ⟨s, []⟩⟩ := by
  unfold runDeploy
  cases htargets : targetsOf options script s with
  | error message => exact ⟨message, rfl⟩
  | ok targets => exact absurd (found_of_ok htargets) h

theorem runDeploy_found {environmentId : String} (h : Found options script s environmentId) :
    ∃ outcomes, Reported options script s environmentId (runDeploy options script s)
      outcomes := by
  obtain ⟨targets, htargets, hfrom⟩ := h.targetsOf
  obtain ⟨hnames, hof⟩ := targetsFrom_ok hfrom
  have horder : (APP_ORDER.filter fun name => (options.digests name).isSome).Nodup :=
    (show APP_ORDER.Nodup by decide).filter _
  have hran : RanTargets script.target targets ⟨s, []⟩
      (runTargets options.release script.target targets ⟨s, []⟩) := by
    refine ranTargets (nodup_targets (hnames ▸ horder) hof) (fun t ht => ?_) (fun t ht => ?_)
      fun _ _ _ h => absurd h List.not_mem_nil
    · obtain ⟨a, ha⟩ := hof t ht
      exact nodup_releaseKeys ha.app.1
    · obtain ⟨a, ha⟩ := hof t ht
      exact ⟨a, Table.find?_eq_some.2 ⟨ha.row.1.1, ha.row.2⟩⟩
  rw [runDeploy, htargets]
  refine ⟨_, rfl, hran.names.trans hnames, hran.rejects, fun entry hentry => ?_⟩
  obtain ⟨t, ht, hname, before, after, hbefore, hafter, hholds⟩ := hran.holds entry hentry
  obtain ⟨a, ha⟩ := hof t ht
  have hsame : a = before := Table.eq_of_key ha.row.1.1 (Table.find?_eq_some.1 hbefore).1
    (ha.row.2.trans (Table.find?_eq_some.1 hbefore).2.symm)
  subst hsame
  rw [← hname]
  refine ⟨t.image, t.app, a, after, ha.image, ha.app.1, ha.app.2, ha.row.1, ?_, hholds⟩
  rw [ha.row.2]
  exact hafter

end Run

/-- Whatever is stored and however the calls come out. -/
theorem deploy_reported (options : DeployOptions) (script : DeployScript) (s : Applications) :
    ((¬∃ id, Found options script s id) →
        ∃ message, runDeploy options script s = ⟨some message, none, ⟨s, []⟩⟩) ∧
      ∀ id, Found options script s id →
        ∃ outcomes, Reported options script s id (runDeploy options script s) outcomes :=
  ⟨runDeploy_unfound, fun _ h => runDeploy_found h⟩

/-! ## A new image of the API -/

def newApi : DeployOptions where
  environment := .staging
  owner := "acme"
  release := "0123456789012345678901234567890123456789"
  digests name :=
    if name = .api then
      some ("ghcr.io/acme/clean-stack-api@sha256:" ++
        "0123456789abcdef0123456789abcdef0123456789abcdef0123456789abcdef")
    else none

def finishing : TargetScript where
  budgetSpent := false
  running := .ok []
  runningLater := []
  snapshotError := none
  sight _ := true
  envFate := .done
  imageFate := .done
  started := .ok ["d"]
  waitMs := 1200000
  polls := [fun _ => .ok "in_progress", fun _ => .ok FINISHED]
  restoreImageFate := .done
  restoreEnvFate := .done

def answering : DeployScript where
  projectUuid := "project"
  environmentId := .ok "1"
  list := none
  target _ := finishing

example : (runDeploy newApi answering onlyApi).rejected = none := by decide +kernel

/-- A target, and a run that ends with nothing said of it. -/
theorem unanswered_unreported :
    (newApi.digests .api).isSome = true ∧
      (runDeploy newApi { answering with environmentId := .error ⟨"coolify answered 500", true⟩ }
        onlyApi).rejected = some "coolify answered 500" ∧
      (runDeploy newApi { answering with environmentId := .error ⟨"coolify answered 500", true⟩ }
        onlyApi).report.isNone = true := by
  decide

end CleanStack.Coolify
