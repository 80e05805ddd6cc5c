import Directive.Batch
import Directive.Proofs.Session.Transparent

/-!
# Schedules of a batch

The directives of a batch may be parsed by several workers at once. They share the cache and the
counts of one session, and each of them looks its directive up, scans it if the cache has nothing
for it, and puts the descriptor there. Looking up and putting are one step each, before and after
which the other workers may have done theirs. A schedule says whose step is next, by the indices of
the directives. `Session.parseAll` is the schedule that gets each directive done before the next.
Main facts:

* `Job.sound_step`, `Pool.sound_run`: with a faithful cache no step gives a directive another
  descriptor than its own, and so no schedule does.
* `Pool.descriptors_run`: the descriptors after any schedule that gets all directives done.
* `Pool.total_run_of_completes`: how many directives are counted does not depend on the schedule.
  How many of them are found in the cache may do so.
* `Pool.run_inOrder`: the schedule of `Session.parseAll`.
* `Session.renderAll_eq_of_schedule`: what is printed does not depend on the schedule.
-/

namespace Directive

/-- How far a worker has come with a directive. -/
inductive Stage where
  /-- The directive has not been looked up yet. -/
  | waiting
  /-- The cache had nothing for the directive. -/
  | missed
  /-- The directive has a descriptor. -/
  | done (descriptor : Descriptor)

namespace Stage

/-- How many steps a worker may have left. -/
def remaining : Stage → Nat
  | waiting => 2
  | missed => 1
  | done _ => 0

/-- The descriptor, if there is one. -/
def descriptor? : Stage → Option Descriptor
  | done descriptor => some descriptor
  | _ => none

/-- The directive is still to be counted. -/
def isWaiting : Stage → Bool
  | waiting => true
  | _ => false

end Stage

/-- A directive that a worker has taken on. -/
structure Job where
  /-- The text of the directive. -/
  raw : String
  /-- How far the worker has come. -/
  stage : Stage

/-- Several directives that are parsed in one session. -/
structure Pool where
  /-- The session that the workers share. -/
  session : Session
  /-- The directives, in order. -/
  jobs : List Job

/-! ## Steps -/

namespace Job

/-- The next step of a worker. -/
def step (job : Job) (session : Session) : Job × Session :=
  match job.stage with
  | .waiting =>
    match session.cache.get job.raw with
    | (some descriptor, cache) =>
      (⟨job.raw, .done descriptor⟩, { session with cache, hits := session.hits + 1 })
    | (none, cache) =>
      (⟨job.raw, .missed⟩, { session with cache, misses := session.misses + 1 })
  | .missed =>
    let descriptor := Descriptor.parse job.raw
    (⟨job.raw, .done descriptor⟩,
      { session with cache := session.cache.put job.raw descriptor })
  | .done _ => (job, session)

/-- The descriptor, if there is one, is that of the directive. -/
def Sound (job : Job) : Prop :=
  ∀ descriptor, job.stage = .done descriptor → descriptor = Descriptor.parse job.raw

/-- A directive that waits is looked up. It has a descriptor then and counts as a hit, or it has
none and counts as a miss. -/
theorem step_waiting (raw : String) (session : Session) :
    (∃ descriptor cache, session.cache.get raw = (some descriptor, cache)
        ∧ (Job.mk raw .waiting).step session
          = (⟨raw, .done descriptor⟩, ⟨cache, session.hits + 1, session.misses⟩))
      ∨ ∃ cache, session.cache.get raw = (none, cache)
        ∧ (Job.mk raw .waiting).step session
          = (⟨raw, .missed⟩, ⟨cache, session.hits, session.misses + 1⟩) := by
  rcases hget : session.cache.get raw with ⟨_ | descriptor, cache⟩
  · exact Or.inr ⟨cache, rfl, by simp [step, hget]⟩
  · exact Or.inl ⟨descriptor, cache, rfl, by simp [step, hget]⟩

theorem raw_step (job : Job) (session : Session) : (job.step session).1.raw = job.raw := by
  obtain ⟨raw, stage⟩ := job
  cases stage with
  | waiting =>
    rcases step_waiting raw session with ⟨_, _, -, hstep⟩ | ⟨_, -, hstep⟩ <;> rw [hstep]
  | missed => rfl
  | done => rfl

/-- With a faithful cache a step gives a directive no other descriptor than its own, and leaves the
cache faithful to the other workers. -/
theorem sound_step {job : Job} {session : Session} (hjob : job.Sound)
    (hcache : session.cache.Faithful) :
    (job.step session).1.Sound ∧ (job.step session).2.cache.Faithful := by
  obtain ⟨raw, stage⟩ := job
  cases stage with
  | waiting =>
    have hfound := hcache.get_fst raw
    have hkept := hcache.get_snd raw
    rcases step_waiting raw session with ⟨descriptor, _, hget, hstep⟩ | ⟨_, hget, hstep⟩
    · rw [hget] at hfound hkept
      rw [hstep]
      refine ⟨fun other hother => ?_, hkept⟩
      obtain rfl := Stage.done.inj hother
      simpa using hfound
    · rw [hget] at hkept
      rw [hstep]
      exact ⟨fun _ hother => (nomatch hother), hkept⟩
  | missed => exact ⟨fun _ hother => (Stage.done.inj hother).symm, hcache.put raw⟩
  | done => exact ⟨hjob, hcache⟩

/-- Each step leaves one step less, until none is left. -/
theorem remaining_step (job : Job) (session : Session) :
    (job.step session).1.stage.remaining ≤ job.stage.remaining - 1 := by
  obtain ⟨raw, stage⟩ := job
  cases stage with
  | waiting =>
    rcases step_waiting raw session with ⟨_, _, -, hstep⟩ | ⟨_, -, hstep⟩ <;> rw [hstep]
    · exact Nat.zero_le _
    · exact Nat.le_refl _
  | missed => exact Nat.zero_le _
  | done => exact Nat.zero_le _

/-- A directive is counted when it is looked up, and only then. -/
theorem total_step (job : Job) (session : Session) :
    (job.step session).2.total + UInt64.ofNat (job.step session).1.stage.isWaiting.toNat
      = session.total + UInt64.ofNat job.stage.isWaiting.toNat := by
  obtain ⟨raw, stage⟩ := job
  cases stage with
  | waiting =>
    rcases step_waiting raw session with ⟨_, _, -, hstep⟩ | ⟨_, -, hstep⟩ <;> rw [hstep]
    · change session.hits + 1 + session.misses + 0 = session.hits + session.misses + 1
      rw [UInt64.add_zero, UInt64.add_assoc, UInt64.add_comm 1, ← UInt64.add_assoc]
    · change session.hits + (session.misses + 1) + 0 = session.hits + session.misses + 1
      rw [UInt64.add_zero, ← UInt64.add_assoc]
  | missed => rfl
  | done => rfl

/-- Two steps of a worker, one right after the other, parse a directive. -/
theorem step_step (raw : String) (session : Session) :
    ((Job.mk raw .waiting).step session).1.step ((Job.mk raw .waiting).step session).2
      = (⟨raw, .done (session.parse raw).1⟩, (session.parse raw).2) := by
  unfold Session.parse
  rcases step_waiting raw session with ⟨_, _, hget, hstep⟩ | ⟨_, hget, hstep⟩ <;> rw [hstep, hget]
  · rfl
  · rfl

end Job

/-! ## Schedules -/

namespace Pool

/-- Directives that no worker has looked up yet. -/
def start (session : Session) (directives : List String) : Pool :=
  ⟨session, directives.map (⟨·, .waiting⟩)⟩

/-- The next step of the worker that has taken on the directive with an index. -/
def step (pool : Pool) (index : Nat) : Pool :=
  match pool.jobs[index]? with
  | some job => ⟨(job.step pool.session).2, pool.jobs.set index (job.step pool.session).1⟩
  | none => pool

/-- The steps of a schedule, in order. -/
def run (pool : Pool) : List Nat → Pool
  | [] => pool
  | index :: more => (pool.step index).run more

/-- The descriptors that the directives have, in order. -/
def descriptors (pool : Pool) : List Descriptor :=
  pool.jobs.filterMap fun job => job.stage.descriptor?

/-- A state of the workers on some directives in which none of them has another descriptor than its
own, nor has the cache. -/
structure Sound (directives : List String) (pool : Pool) : Prop where
  /-- The cache is faithful. -/
  cache : pool.session.cache.Faithful
  /-- The directives are those that are to be parsed. -/
  raws : pool.jobs.map Job.raw = directives
  /-- Each of them has its own descriptor, if it has one. -/
  jobs : ∀ job ∈ pool.jobs, job.Sound

variable {pool : Pool} {directives : List String}

theorem sound_start {session : Session} (h : session.cache.Faithful) (directives : List String) :
    (start session directives).Sound directives where
  cache := h
  raws := by
    rw [start, List.map_map]
    exact List.map_id directives
  jobs job hjob := by
    obtain ⟨raw, -, rfl⟩ := List.mem_map.mp hjob
    exact fun _ hdone => nomatch hdone

/-- A step is that of one worker among others, or there is no such worker and nothing happens. -/
theorem step_cases (pool : Pool) (index : Nat) :
    (∃ before job after, pool.jobs = before ++ job :: after ∧ before.length = index
        ∧ pool.step index
          = ⟨(job.step pool.session).2, before ++ (job.step pool.session).1 :: after⟩)
      ∨ pool.jobs.length ≤ index ∧ pool.step index = pool := by
  unfold step
  cases hindex : pool.jobs[index]? with
  | none => exact Or.inr ⟨List.getElem?_eq_none_iff.mp hindex, rfl⟩
  | some job =>
    obtain ⟨hbound, rfl⟩ := List.getElem?_eq_some_iff.mp hindex
    refine Or.inl ⟨pool.jobs.take index, pool.jobs[index], pool.jobs.drop (index + 1), ?_, ?_, ?_⟩
    · rw [← List.drop_eq_getElem_cons hbound, List.take_append_drop]
    · exact List.length_take_of_le hbound.le
    · change Pool.mk _ (pool.jobs.set index _) = _
      rw [List.set_eq_take_append_cons_drop, if_pos hbound]

/-- Whichever worker is next, a sound state stays sound. -/
theorem sound_step (h : pool.Sound directives) (index : Nat) :
    (pool.step index).Sound directives := by
  rcases pool.step_cases index with ⟨before, job, after, hjobs, -, hstep⟩ | ⟨-, hstep⟩
  · obtain ⟨hcache, hraws, hsound⟩ := h
    rw [hjobs] at hraws hsound
    obtain ⟨hbefore, hothers⟩ := List.forall_mem_append.mp hsound
    obtain ⟨hjob, hafter⟩ := List.forall_mem_cons.mp hothers
    obtain ⟨hjob, hcache⟩ := Job.sound_step hjob hcache
    have hothers := List.forall_mem_cons.mpr ⟨hjob, hafter⟩
    rw [hstep]
    refine ⟨hcache, ?_, List.forall_mem_append.mpr ⟨hbefore, hothers⟩⟩
    rw [← hraws]
    simp [Job.raw_step]
  · rwa [hstep]

/-- A sound state stays sound under any schedule. -/
theorem sound_run (h : pool.Sound directives) (schedule : List Nat) :
    (pool.run schedule).Sound directives := by
  induction schedule generalizing pool with
  | nil => exact h
  | cons index more ih => exact ih (sound_step h index)

/-- How many steps the worker with an index may have left. -/
def remaining (pool : Pool) (index : Nat) : Nat :=
  (pool.jobs[index]?).elim 0 fun job => job.stage.remaining

/-- A step leaves its worker one step less, and the others what they had. -/
theorem remaining_step (pool : Pool) (first index : Nat) :
    (pool.step first).remaining index ≤ pool.remaining index - [first].count index := by
  rw [List.count_singleton]
  rcases pool.step_cases first with ⟨before, job, after, hjobs, rfl, hstep⟩ | ⟨hbound, hstep⟩
  · rw [hstep, remaining, remaining, hjobs]
    split
    case isTrue heq =>
      obtain rfl := eq_of_beq heq
      simpa using job.remaining_step pool.session
    case isFalse hne =>
      -- the other jobs are where they were
      have hne : index ≠ before.length := fun heq => hne (beq_iff_eq.mpr heq.symm)
      rw [List.getElem?_append, List.getElem?_append]
      split
      case isTrue => exact Nat.le_refl _
      case isFalse hlt =>
        obtain ⟨behind, hbehind⟩ : ∃ behind, index - before.length = behind + 1 :=
          ⟨index - before.length - 1, by omega⟩
        rw [hbehind]
        exact Nat.le_refl _
  · rw [hstep]
    split
    case isTrue heq =>
      obtain rfl := eq_of_beq heq
      simp [remaining, hbound]
    case isFalse => exact Nat.le_refl _

/-- A schedule leaves each worker one step less for each time that it is in it. -/
theorem remaining_run (pool : Pool) (schedule : List Nat) (index : Nat) :
    (pool.run schedule).remaining index ≤ pool.remaining index - schedule.count index := by
  induction schedule generalizing pool with
  | nil => exact Nat.le_refl _
  | cons first more ih =>
    have hstep := pool.remaining_step first index
    have hmore := ih (pool.step first)
    rw [run, ← List.singleton_append, List.count_append]
    omega

/-- A sound state in which nothing is left to do: each directive has its own descriptor. -/
theorem Sound.jobs_eq (h : pool.Sound directives) (hdone : ∀ index, pool.remaining index = 0) :
    pool.jobs = directives.map fun raw => ⟨raw, .done (Descriptor.parse raw)⟩ := by
  rw [← h.raws, List.map_map]
  refine (List.map_id pool.jobs).symm.trans (List.map_congr_left fun job hjob => ?_)
  obtain ⟨index, hindex⟩ := List.mem_iff_getElem?.mp hjob
  have hnone := hdone index
  have hsound := h.jobs job hjob
  rw [remaining, hindex] at hnone
  obtain ⟨raw, stage⟩ := job
  cases stage with
  | waiting => cases hnone
  | missed => cases hnone
  | done descriptor =>
    exact congrArg (fun found => Job.mk raw (.done found)) (hsound descriptor rfl)

/-- How many directives are still to be counted. -/
def uncounted (pool : Pool) : Nat :=
  pool.jobs.countP fun job => job.stage.isWaiting

/-- What is counted and what is still to be counted does not change. -/
theorem total_step (pool : Pool) (index : Nat) :
    (pool.step index).session.total + UInt64.ofNat (pool.step index).uncounted
      = pool.session.total + UInt64.ofNat pool.uncounted := by
  rcases pool.step_cases index with ⟨before, job, after, hjobs, -, hstep⟩ | ⟨-, hstep⟩
  · -- the others are still to be counted as before
    have hothers (session : Session) (job : Job) :
        (Pool.mk session (before ++ job :: after)).uncounted
          = job.stage.isWaiting.toNat + (Pool.mk session (before ++ after)).uncounted := by
      rw [uncounted, uncounted, List.countP_append, List.countP_append, List.countP_cons]
      cases job.stage.isWaiting
      · exact (Nat.zero_add _).symm
      · exact (Nat.add_comm 1 _).symm
    obtain ⟨session, jobs⟩ := pool
    obtain rfl : jobs = before ++ job :: after := hjobs
    rw [hstep, hothers, hothers, UInt64.ofNat_add, UInt64.ofNat_add, ← UInt64.add_assoc,
      ← UInt64.add_assoc, job.total_step session]
    rfl
  · rw [hstep]

/-- What is counted and what is still to be counted does not change under any schedule. -/
theorem total_run (pool : Pool) (schedule : List Nat) :
    (pool.run schedule).session.total + UInt64.ofNat (pool.run schedule).uncounted
      = pool.session.total + UInt64.ofNat pool.uncounted := by
  induction schedule generalizing pool with
  | nil => rfl
  | cons index more ih => rw [run, ih, total_step]

/-- A schedule gets some directives done if each of them is in it at least twice: once to be looked
up, and once more for its descriptor to be put into the cache. -/
def Completes (schedule : List Nat) (directives : List String) : Prop :=
  ∀ index < directives.length, 2 ≤ schedule.count index

variable {session : Session} {schedule : List Nat}

theorem remaining_start_le (session : Session) (h : Completes schedule directives) (index : Nat) :
    (start session directives).remaining index ≤ schedule.count index := by
  rw [remaining, start, List.getElem?_map]
  cases hindex : directives[index]? with
  | none => exact Nat.zero_le _
  | some raw => exact h index (List.getElem?_eq_some_iff.mp hindex).1

/-- After any schedule that gets all directives done each of them has its own descriptor. -/
theorem jobs_run (hcache : session.cache.Faithful) (h : Completes schedule directives) :
    ((start session directives).run schedule).jobs
      = directives.map fun raw => ⟨raw, .done (Descriptor.parse raw)⟩ := by
  refine (sound_run (sound_start hcache directives) schedule).jobs_eq fun index => ?_
  have hrun := (start session directives).remaining_run schedule index
  rwa [Nat.sub_eq_zero_of_le (remaining_start_le session h index), Nat.le_zero] at hrun

/-- The descriptors after any schedule that gets all directives done are those of the directives. -/
theorem descriptors_run (hcache : session.cache.Faithful) (h : Completes schedule directives) :
    ((start session directives).run schedule).descriptors = directives.map Descriptor.parse := by
  rw [descriptors, jobs_run hcache h, List.filterMap_map]
  exact congrFun List.filterMap_eq_map directives

/-- Any schedule that gets all directives done counts each of them once. -/
theorem total_run_of_completes (hcache : session.cache.Faithful)
    (h : Completes schedule directives) :
    ((start session directives).run schedule).session.total
      = session.total + UInt64.ofNat directives.length := by
  have htotal := (start session directives).total_run schedule
  have hstart : (start session directives).uncounted = directives.length := by
    rw [uncounted, start, List.countP_map]
    exact List.countP_eq_length.mpr fun _ _ => rfl
  have hdone : ((start session directives).run schedule).uncounted = 0 := by
    rw [uncounted, jobs_run hcache h, List.countP_map]
    exact List.countP_eq_zero.mpr fun _ _ => Bool.false_ne_true
  rw [hstart, hdone] at htotal
  exact (UInt64.add_zero _).symm.trans htotal

/-! ## One directive after another -/

/-- The schedule that gets some directives done one after another, from an index on. -/
def inOrder (first : Nat) : Nat → List Nat
  | 0 => []
  | count + 1 => first :: first :: inOrder (first + 1) count

theorem two_le_count_inOrder {first count index : Nat} (hfirst : first ≤ index)
    (hlast : index < first + count) : 2 ≤ (inOrder first count).count index := by
  induction count generalizing first with
  | zero => omega
  | succ count ih =>
    rw [inOrder, List.count_cons, List.count_cons]
    by_cases heq : first = index
    · simp [heq]
    · have hmore : 2 ≤ (inOrder (first + 1) count).count index := ih (by omega) (by omega)
      omega

/-- This schedule gets them done. -/
theorem completes_inOrder (directives : List String) :
    Completes (inOrder 0 directives.length) directives :=
  fun index hindex => two_le_count_inOrder (Nat.zero_le index) (by omega)

theorem step_append (session : Session) (before after : List Job) (job : Job) :
    (Pool.mk session (before ++ job :: after)).step before.length
      = ⟨(job.step session).2, before ++ (job.step session).1 :: after⟩ := by
  simp [step]

/-- One directive after another is parsed as the session parses them, behind any others. -/
theorem run_inOrder_behind (session : Session) (before : List Job) (directives : List String) :
    (Pool.mk session (before ++ (start session directives).jobs)).run
        (inOrder before.length directives.length)
      = ⟨(session.parseAll directives).2, before
          ++ List.zipWith (fun raw found => ⟨raw, .done found⟩) directives
            (session.parseAll directives).1⟩ := by
  induction directives generalizing session before with
  | nil => rfl
  | cons raw more ih =>
    have hmore := ih (session.parse raw).2 (before ++ [⟨raw, .done (session.parse raw).1⟩])
    rw [List.append_assoc, List.append_assoc, List.length_append] at hmore
    change (Pool.mk session (before ++ ⟨raw, .waiting⟩ :: (start session more).jobs)).run
      (before.length :: before.length :: inOrder (before.length + 1) more.length) = _
    -- the two steps of the first worker parse its directive
    rw [run, run, step_append, step_append, Job.step_step]
    exact hmore

/-- The schedule in which one directive is parsed after another is that of the session. -/
theorem run_inOrder (session : Session) (directives : List String) :
    (start session directives).run (inOrder 0 directives.length)
      = ⟨(session.parseAll directives).2,
          List.zipWith (fun raw found => ⟨raw, .done found⟩) directives
            (session.parseAll directives).1⟩ :=
  run_inOrder_behind session [] directives

/-- Two workers on the same directive may both have to scan it, although one after the other they
would have to scan it once. -/
example :
    let session := Session.start (.empty (some ⟨1, by decide⟩))
    ((start session ["a", "a"]).run [0, 1, 0, 1]).session.misses = 2
      ∧ ((start session ["a", "a"]).run (inOrder 0 2)).session.misses = 1 := by
  decide +kernel

end Pool

/-- What is printed of some directives does not depend on the schedule. -/
theorem Session.renderAll_eq_of_schedule {session : Session} (hcache : session.cache.Faithful)
    (format : Format) {directives : List String} {schedule : List Nat}
    (h : Pool.Completes schedule directives) :
    (session.renderAll format directives).1
      = ((Pool.start session directives).run schedule).descriptors.map format.render := by
  rw [Pool.descriptors_run hcache h, ← parseAll_fst hcache]
  rfl

end Directive
