-- The series of scheduled jobs. Whatever is added, removed and run, in whatever order, a
-- stored job is due at its start plus a whole number of its intervals, and a job that is gone
-- stays gone.
import Mathlib.Data.List.Induction
import Mathlib.Data.List.Nodup
import TickScript.Schedule

namespace TickScript

variable {id : Nat}

/-! ## Histories -/

/-- What can be asked of a schedule. -/
inductive Request where
  | add (script : Script) (interval : Nat) (count : Option Nat) (now : Nat)
  | remove (id : Nat)
  | clear
  /-- Run the jobs that are due. -/
  | tick (now : Nat)

/-- The request takes the job of a number away. -/
def Request.removes : Request → Nat → Prop
  | .remove id, other => id = other
  | .clear, _ => True
  | .add .., _ | .tick _, _ => False

namespace Schedule

/-- Does what is asked: the numbers of the jobs that run thereby, in order, and the schedule
afterwards. -/
def perform (s : Schedule) : Request → List Nat × Schedule
  | .add script interval count now => ([], (s.add script interval count now).2)
  | .remove id => ([], (s.remove id).2)
  | .clear => ([], s.clear)
  | .tick now => ((s.tick now).1.map (·.1.id), (s.tick now).2)

/-- The schedule after some requests. -/
def performAll (s : Schedule) : List Request → Schedule
  | [] => s
  | r :: rest => (s.perform r).2.performAll rest

/-- How often the job of a number runs during some requests. -/
def runs (s : Schedule) (id : Nat) : List Request → Nat
  | [] => 0
  | r :: rest => (s.perform r).1.count id + (s.perform r).2.runs id rest

/-- There is a job with this number. -/
def Stores (s : Schedule) (id : Nat) : Prop := ∃ job ∈ s.jobs, job.id = id

/-- Each stored job has a number of its own, and one that was given away. -/
structure Sound (s : Schedule) : Prop where
  distinct : (s.jobs.map (·.id)).Nodup
  issued : ∀ job ∈ s.jobs, job.id < s.nextId

theorem performAll_append (s : Schedule) (before rest : List Request) :
    s.performAll (before ++ rest) = (s.performAll before).performAll rest := by
  induction before generalizing s with
  | nil => rfl
  | cons r before ih => exact ih _

theorem runs_append (s : Schedule) (id : Nat) (before rest : List Request) :
    s.runs id (before ++ rest) = s.runs id before + (s.performAll before).runs id rest := by
  induction before generalizing s with
  | nil => simp [runs, performAll]
  | cons r before ih => simp [runs, performAll, ih, Nat.add_assoc]

end Schedule

/-! ## A run of a job -/

namespace Job

/-- The job after so many runs, if it goes on. -/
def later (j : Job) (k : Nat) : Job :=
  { j with nextTick := j.nextTick + k * j.interval, runsLeft := j.runsLeft.map (· - k) }

theorem later_zero (j : Job) : j.later 0 = j := by
  simp [later]

theorem later_later (j : Job) (k l : Nat) : (j.later k).later l = j.later (k + l) := by
  have hruns : (j.runsLeft.map (· - k)).map (· - l) = j.runsLeft.map (· - (k + l)) := by
    cases j.runsLeft with
    | none => rfl
    | some c =>
      simp only [Option.map_some]
      congr 1
      omega
  simp only [later, hruns, Nat.add_mul, Nat.add_assoc]

@[simp] theorem tick_id (j : Job) : j.tick.1.id = j.id := by
  unfold tick
  split
  · rfl
  · split <;> rfl

/-- A job that goes on after a run is the job after one run. -/
theorem tick_of_again {j : Job} (h : j.tick.2 = true) : j.tick.1 = j.later 1 := by
  unfold tick at h ⊢
  split
  · rename_i hruns
    simp [later, hruns]
  · rename_i n hruns
    simp only [hruns] at h
    split
    · rename_i hlast
      simp [hlast] at h
    · simp [later, hruns]

/-- A job goes on unless its last run is counted, and a job that counts none has one. -/
theorem again_iff (j : Job) : j.tick.2 = true ↔ ∀ c, j.runsLeft = some c → 1 < max c 1 := by
  unfold tick
  split
  · rename_i hruns
    simp [hruns]
  · rename_i n hruns
    simp only [hruns, Option.some.injEq, forall_eq']
    split
    · simp only [Bool.false_eq_true, false_iff]
      omega
    · simp only [true_iff]
      omega

end Job

/-! ## What a request does to the store -/

namespace Schedule

variable {s : Schedule} {j : Job}

/-- The jobs that go on after a run, as they then are. -/
def continued (due : List Job) : List Job := ((due.map Job.tick).filter (·.2)).map (·.1)

theorem mem_continued {due : List Job} {job : Job} :
    job ∈ continued due ↔ ∃ j ∈ due, j.tick.2 = true ∧ job = j.tick.1 := by
  simp only [continued, List.mem_map, List.mem_filter]
  constructor
  · rintro ⟨_, ⟨⟨j, hj, rfl⟩, hagain⟩, rfl⟩
    exact ⟨j, hj, hagain, rfl⟩
  · rintro ⟨j, hj, hagain, rfl⟩
    exact ⟨j.tick, ⟨⟨j, hj, rfl⟩, hagain⟩, rfl⟩

theorem ids_continued (due : List Job) :
    ((continued due).map (·.id)).Sublist (due.map (·.id)) := by
  have hids : (due.map Job.tick).map (·.1.id) = due.map (·.id) := by
    simp [List.map_map, Function.comp_def]
  rw [← hids, continued, List.map_map]
  exact List.Sublist.map _ List.filter_sublist

theorem finish_eq (s : Schedule) (due : List Job) :
    s.finish due = (due.map Job.tick, { s with jobs := s.jobs ++ continued due }) := by
  induction due generalizing s with
  | nil => simp [finish, continued]
  | cons j rest ih =>
    simp only [finish, ih, List.map_cons, Prod.mk.injEq, Prod.eta, true_and]
    cases hagain : j.tick.2 <;> simp [continued, putBack, hagain]

theorem tick_eq (s : Schedule) (now : Nat) :
    s.tick now =
      ((s.jobs.filter (·.isDue now)).map Job.tick,
        { s with
          jobs := s.jobs.filter (!·.isDue now) ++ continued (s.jobs.filter (·.isDue now)) }) := by
  simp only [tick, takeDue, finish_eq]

theorem ran_tick (s : Schedule) (now : Nat) :
    (s.perform (.tick now)).1 = (s.jobs.filter (·.isDue now)).map (·.id) := by
  simp [perform, tick_eq, List.map_map, Function.comp_def]

theorem jobs_tick (s : Schedule) (now : Nat) :
    (s.perform (.tick now)).2.jobs =
      s.jobs.filter (!·.isDue now) ++ continued (s.jobs.filter (·.isDue now)) := by
  simp only [perform, tick_eq]

theorem nextId_le_perform (s : Schedule) (r : Request) : s.nextId ≤ (s.perform r).2.nextId := by
  cases r with
  | add => exact Nat.le_succ _
  | remove | clear => exact Nat.le_refl _
  | tick now => simp [perform, tick_eq]

theorem nextId_le_performAll (s : Schedule) (rest : List Request) :
    s.nextId ≤ (s.performAll rest).nextId := by
  induction rest generalizing s with
  | nil => exact Nat.le_refl _
  | cons r rest ih => exact Nat.le_trans (s.nextId_le_perform r) (ih _)

/-! ## Numbers -/

theorem sound_empty : empty.Sound := ⟨List.nodup_nil, by simp [empty]⟩

theorem Sound.add (hs : s.Sound) (script : Script) (interval : Nat) (count : Option Nat)
    (now : Nat) : (s.add script interval count now).2.Sound := by
  constructor
  · simp only [Schedule.add, List.map_append, List.map_cons, List.map_nil]
    refine List.nodup_append.mpr ⟨hs.distinct, by simp, ?_⟩
    -- The new number is greater than all that are stored.
    intro id hid other hother
    obtain ⟨job, hjob, rfl⟩ := List.mem_map.mp hid
    have hnew : other = s.nextId := by simpa using hother
    have := hs.issued job hjob
    omega
  · intro job hjob
    simp only [Schedule.add, List.mem_append, List.mem_singleton] at hjob ⊢
    rcases hjob with hjob | rfl
    · exact Nat.lt_succ_of_lt (hs.issued job hjob)
    · exact Nat.lt_succ_self _

theorem Sound.tick (hs : s.Sound) (now : Nat) : (s.tick now).2.Sound := by
  rw [tick_eq]
  constructor
  · have hsplit : ((s.jobs.filter (!·.isDue now) ++ s.jobs.filter (·.isDue now)).map
        (·.id)).Nodup :=
      ((List.perm_append_comm.trans (List.filter_append_perm _ _)).map _).nodup_iff.mpr
        hs.distinct
    rw [List.map_append] at hsplit
    rw [List.map_append]
    exact hsplit.sublist (List.Sublist.append_left (ids_continued _) _)
  · intro job hjob
    rcases List.mem_append.mp hjob with hjob | hjob
    · exact hs.issued job (List.mem_of_mem_filter hjob)
    · obtain ⟨j, hj, _, rfl⟩ := mem_continued.mp hjob
      rw [Job.tick_id]
      exact hs.issued j (List.mem_of_mem_filter hj)

theorem Sound.perform (hs : s.Sound) (r : Request) : (s.perform r).2.Sound := by
  cases r with
  | add script interval count now => exact hs.add script interval count now
  | remove id =>
    exact ⟨hs.distinct.sublist (List.filter_sublist.map _),
      fun job hjob => hs.issued job (List.mem_of_mem_filter hjob)⟩
  | clear => exact ⟨List.nodup_nil, by simp [Schedule.perform, Schedule.clear]⟩
  | tick now => exact hs.tick now

theorem Sound.performAll (hs : s.Sound) (rest : List Request) : (s.performAll rest).Sound := by
  induction rest generalizing s with
  | nil => exact hs
  | cons r rest ih => exact ih (hs.perform r)

theorem Sound.eq_of_id (hs : s.Sound) {job : Job} (hj : j ∈ s.jobs) (hjob : job ∈ s.jobs)
    (h : job.id = j.id) : job = j :=
  List.inj_on_of_nodup_map hs.distinct hjob hj h

/-- The number of a stored job only is run. -/
theorem count_ran_of_not_stored (h : ¬ s.Stores id) (r : Request) :
    (s.perform r).1.count id = 0 := by
  cases r with
  | add | remove | clear => rfl
  | tick now =>
    rw [ran_tick, List.count_eq_zero, List.mem_map]
    rintro ⟨job, hjob, heq⟩
    exact h ⟨job, List.mem_of_mem_filter hjob, heq⟩

/-- A number that is not given away yet has not been run. -/
theorem Sound.runs_eq_zero (hs : s.Sound) {rest : List Request}
    (hid : (s.performAll rest).nextId ≤ id) : s.runs id rest = 0 := by
  induction rest generalizing s with
  | nil => rfl
  | cons r rest ih =>
    have hnew : s.nextId ≤ id := Nat.le_trans (s.nextId_le_performAll (r :: rest)) hid
    have hstored : ¬ s.Stores id := by
      rintro ⟨job, hjob, rfl⟩
      exact absurd (hs.issued job hjob) (Nat.not_lt.mpr hnew)
    rw [runs, count_ran_of_not_stored hstored r, ih (hs.perform r) hid]

/-! ## Jobs that are gone -/

/-- A number that is stored after a request was stored before, or was given away by it. -/
theorem stores_of_perform {r : Request} (h : (s.perform r).2.Stores id) :
    s.Stores id ∨
      id = s.nextId ∧ ∃ script interval count now, r = .add script interval count now := by
  obtain ⟨job, hjob, rfl⟩ := h
  cases r with
  | add script interval count now =>
    rcases List.mem_append.mp hjob with hjob | hjob
    · exact Or.inl ⟨job, hjob, rfl⟩
    · rw [List.mem_singleton.mp hjob]
      exact Or.inr ⟨rfl, script, interval, count, now, rfl⟩
  | remove other => exact Or.inl ⟨job, List.mem_of_mem_filter hjob, rfl⟩
  | clear => simp [perform, clear] at hjob
  | tick now =>
    rw [jobs_tick] at hjob
    rcases List.mem_append.mp hjob with hjob | hjob
    · exact Or.inl ⟨job, List.mem_of_mem_filter hjob, rfl⟩
    · obtain ⟨j, hj, _, rfl⟩ := mem_continued.mp hjob
      exact Or.inl ⟨j, List.mem_of_mem_filter hj, (Job.tick_id j).symm⟩

/-- A number that was given away and is not stored is not run, nor is it given away again. -/
theorem perform_gone (hid : id < s.nextId) (h : ¬ s.Stores id) (r : Request) :
    (s.perform r).1.count id = 0 ∧ ¬ (s.perform r).2.Stores id := by
  refine ⟨count_ran_of_not_stored h r, fun hstores => ?_⟩
  rcases stores_of_perform hstores with hstored | ⟨rfl, _⟩
  · exact h hstored
  · exact absurd hid (Nat.lt_irrefl _)

theorem performAll_gone (hid : id < s.nextId) (h : ¬ s.Stores id) (rest : List Request) :
    s.runs id rest = 0 ∧ ¬ (s.performAll rest).Stores id := by
  induction rest generalizing s with
  | nil => exact ⟨rfl, h⟩
  | cons r rest ih =>
    obtain ⟨hran, hgone⟩ := perform_gone hid h r
    obtain ⟨hruns, hend⟩ := ih (Nat.lt_of_lt_of_le hid (s.nextId_le_perform r)) hgone
    exact ⟨by simp [runs, hran, hruns], hend⟩

/-! ## Jobs that are stored -/

/-- What a request can do to a stored job: it runs so many times, and `t` is the schedule
afterwards. -/
inductive Fate (j : Job) (r : Request) : Nat → Schedule → Prop
  | waits {t : Schedule} : ¬ r.removes j.id → j ∈ t.jobs → Fate j r 0 t
  | removed {t : Schedule} : r.removes j.id → ¬ t.Stores j.id → Fate j r 0 t
  | goesOn {t : Schedule} :
      ¬ r.removes j.id → j.tick.2 = true → j.later 1 ∈ t.jobs → Fate j r 1 t
  | ends {t : Schedule} :
      ¬ r.removes j.id → j.tick.2 = false → ¬ t.Stores j.id → Fate j r 1 t

/-- A stored job is run by a tick once if it is due, and otherwise not at all. -/
theorem count_ran_tick (hs : s.Sound) (hj : j ∈ s.jobs) (now : Nat) :
    (s.perform (.tick now)).1.count j.id = if j.nextTick ≤ now then 1 else 0 := by
  have hdistinct : ((s.jobs.filter (·.isDue now)).map (·.id)).Nodup :=
    hs.distinct.sublist (List.filter_sublist.map _)
  rw [ran_tick]
  split
  · rename_i hdue
    refine List.count_eq_one_of_mem hdistinct (List.mem_map.mpr ⟨j, ?_, rfl⟩)
    exact List.mem_filter.mpr ⟨hj, by simpa [Job.isDue] using hdue⟩
  · rename_i hdue
    rw [List.count_eq_zero, List.mem_map]
    rintro ⟨job, hjob, heq⟩
    obtain ⟨hjob, hjobDue⟩ := List.mem_filter.mp hjob
    rw [hs.eq_of_id hj hjob heq] at hjobDue
    exact hdue (by simpa [Job.isDue] using hjobDue)

theorem fate_tick (hs : s.Sound) (hj : j ∈ s.jobs) (now : Nat) :
    Fate j (.tick now) ((s.perform (.tick now)).1.count j.id) (s.perform (.tick now)).2 := by
  rw [count_ran_tick hs hj]
  by_cases hdue : j.nextTick ≤ now
  · rw [if_pos hdue]
    have hmem : j ∈ s.jobs.filter (·.isDue now) :=
      List.mem_filter.mpr ⟨hj, by simpa [Job.isDue] using hdue⟩
    cases hagain : j.tick.2 with
    | true =>
      refine .goesOn id hagain ?_
      rw [jobs_tick, ← Job.tick_of_again hagain]
      exact List.mem_append_right _ (mem_continued.mpr ⟨j, hmem, hagain, rfl⟩)
    | false =>
      refine .ends id hagain ?_
      rintro ⟨job, hjob, heq⟩
      rw [jobs_tick] at hjob
      -- Any job of this number that is stored now comes from `j` itself.
      rcases List.mem_append.mp hjob with hjob | hjob
      · obtain ⟨hjob, hnot⟩ := List.mem_filter.mp hjob
        rw [hs.eq_of_id hj hjob heq] at hnot
        simp [Job.isDue, hdue] at hnot
      · obtain ⟨i, hi, hgoes, rfl⟩ := mem_continued.mp hjob
        rw [Job.tick_id] at heq
        rw [hs.eq_of_id hj (List.mem_of_mem_filter hi) heq, hagain] at hgoes
        cases hgoes
  · rw [if_neg hdue]
    refine .waits id ?_
    rw [jobs_tick]
    exact List.mem_append_left _ (List.mem_filter.mpr ⟨hj, by simpa [Job.isDue] using hdue⟩)

theorem fate (hs : s.Sound) (hj : j ∈ s.jobs) (r : Request) :
    Fate j r ((s.perform r).1.count j.id) (s.perform r).2 := by
  cases r with
  | add script interval count now => exact .waits id (List.mem_append_left _ hj)
  | remove other =>
    by_cases h : other = j.id
    · refine .removed h ?_
      rintro ⟨job, hjob, heq⟩
      have hne : job.id ≠ other := by simpa using (List.mem_filter.mp hjob).2
      exact hne (heq.trans h.symm)
    · refine .waits h (List.mem_filter.mpr ⟨hj, ?_⟩)
      simpa using Ne.symm h
  | clear =>
    refine .removed trivial ?_
    rintro ⟨job, hjob, _⟩
    simp [perform, clear] at hjob
  | tick now => exact fate_tick hs hj now

/-- How a job that was stored stands after some requests, during which it ran `k` times. -/
structure Follows (j : Job) (rest : List Request) (k : Nat) (t : Schedule) : Prop where
  /-- If it is stored, then as the job after so many runs. -/
  stored : ∀ job ∈ t.jobs, job.id = j.id → job = j.later k
  /-- It is stored unless it was taken away or has run as often as it was to. -/
  remains : t.Stores j.id ↔
    (∀ r ∈ rest, ¬ r.removes j.id) ∧ ∀ c, j.runsLeft = some c → k < max c 1
  bounded : ∀ c, j.runsLeft = some c → k ≤ max c 1

namespace Follows

variable {rest : List Request} {r : Request} {k : Nat} {t : Schedule}

/-- A request that lets the job wait comes before the others. -/
theorem waits (hr : ¬ r.removes j.id) (h : Follows j rest k t) : Follows j (r :: rest) k t := by
  refine ⟨h.stored, ?_, h.bounded⟩
  rw [h.remains, List.forall_mem_cons]
  simp only [hr, not_false_eq_true, true_and]

/-- A request that runs the job comes before the others. -/
theorem goesOn (hr : ¬ r.removes j.id) (hagain : j.tick.2 = true)
    (h : Follows (j.later 1) rest k t) : Follows j (r :: rest) (1 + k) t := by
  have hcounts : ∀ c, j.runsLeft = some c → (j.later 1).runsLeft = some (c - 1) ∧ 1 < c := by
    intro c hc
    have := (j.again_iff.mp hagain) c hc
    exact ⟨by simp [Job.later, hc], by omega⟩
  constructor
  · intro job hjob hid
    rw [h.stored job hjob hid, Job.later_later]
  · have hruns : (∀ c, (j.later 1).runsLeft = some c → k < max c 1) ↔
        ∀ c, j.runsLeft = some c → 1 + k < max c 1 := by
      cases hc : j.runsLeft with
      | none => simp [Job.later, hc]
      | some c =>
        obtain ⟨hlater, hlt⟩ := hcounts c hc
        simp only [hlater, Option.some.injEq, forall_eq']
        omega
    have hremains : t.Stores j.id ↔ (∀ r ∈ rest, ¬ r.removes j.id) ∧ _ := h.remains
    rw [hremains, hruns, List.forall_mem_cons]
    simp only [hr, not_false_eq_true, true_and]
  · intro c hc
    obtain ⟨hlater, hlt⟩ := hcounts c hc
    have := h.bounded (c - 1) hlater
    omega

/-- A job that is gone was taken away, or has run as often as it was to. -/
theorem gone (hgone : ¬ t.Stores j.id)
    (hwhy : (∃ r ∈ rest, r.removes j.id) ∨ ∃ c, j.runsLeft = some c ∧ max c 1 ≤ k)
    (hbounded : ∀ c, j.runsLeft = some c → k ≤ max c 1) : Follows j rest k t := by
  refine ⟨fun job hjob hid => absurd ⟨job, hjob, hid⟩ hgone, iff_of_false hgone ?_, hbounded⟩
  rintro ⟨hkept, hruns⟩
  rcases hwhy with ⟨r, hr, hremoves⟩ | ⟨c, hc, hk⟩
  · exact hkept r hr hremoves
  · exact absurd (hruns c hc) (Nat.not_lt.mpr hk)

end Follows

/-- What becomes of a stored job, from what each request can do to it. -/
theorem follows_performAll (hs : s.Sound) (hj : j ∈ s.jobs) (rest : List Request) :
    Follows j rest (s.runs j.id rest) (s.performAll rest) := by
  induction rest generalizing s j with
  | nil =>
    refine ⟨fun job hjob hid => ?_, ?_, fun c _ => Nat.zero_le _⟩
    · rw [runs, Job.later_zero]
      exact hs.eq_of_id hj hjob hid
    · refine iff_of_true ⟨j, hj, rfl⟩ ⟨by simp, fun c _ => ?_⟩
      simp only [runs]
      omega
  | cons r rest ih =>
    have hissued := Nat.lt_of_lt_of_le (hs.issued j hj) (s.nextId_le_perform r)
    simp only [runs, performAll]
    generalize hcount : (s.perform r).1.count j.id = n
    have hfate := fate hs hj r
    rw [hcount] at hfate
    cases hfate with
    | waits hr hmem =>
      rw [Nat.zero_add]
      exact (ih (hs.perform r) hmem).waits hr
    | removed hr hgone =>
      obtain ⟨hruns, hend⟩ := performAll_gone hissued hgone rest
      rw [hruns]
      exact .gone hend (Or.inl ⟨r, by simp, hr⟩) fun c _ => Nat.zero_le _
    | goesOn hr hagain hmem => exact (ih (hs.perform r) hmem).goesOn hr hagain
    | ends hr hagain hgone =>
      obtain ⟨hruns, hend⟩ := performAll_gone hissued hgone rest
      rw [hruns]
      refine .gone hend (Or.inr ?_) fun c _ => Nat.le_max_right c 1
      by_contra hmore
      have hgoes : j.tick.2 = true := by
        refine j.again_iff.mpr fun c hc => ?_
        by_contra hc1
        exact hmore ⟨c, hc, by omega⟩
      rw [hagain] at hgoes
      cases hgoes

/-! ## Histories from the start -/

/-- Every stored job was added at some time, and got the number that was next then. -/
theorem added_of_stores {requests : List Request} (h : (empty.performAll requests).Stores id) :
    ∃ before script interval count now rest,
      requests = before ++ .add script interval count now :: rest ∧
        id = (empty.performAll before).nextId := by
  induction requests using List.reverseRecOn with
  | nil =>
    obtain ⟨job, hjob, _⟩ := h
    simp [performAll, empty] at hjob
  | append_singleton requests r ih =>
    rw [performAll_append] at h
    rcases stores_of_perform h with h | ⟨hid, script, interval, count, now, rfl⟩
    · obtain ⟨before, script, interval, count, now, rest, rfl, hid⟩ := ih h
      exact ⟨before, script, interval, count, now, rest ++ [r], by simp, hid⟩
    · exact ⟨requests, script, interval, count, now, [], rfl, hid⟩

/-- What becomes of a job from the time it is added. -/
theorem follows_added (before : List Request) (script : Script) (interval : Nat)
    (count : Option Nat) (now : Nat) (rest : List Request) :
    let requests := before ++ .add script interval count now :: rest
    let id := (empty.performAll before).nextId
    Follows ⟨id, script, max interval 1, now + max interval 1, count⟩ rest
      (empty.runs id requests) (empty.performAll requests) := by
  intro requests id
  let added := ((empty.performAll before).perform (.add script interval count now)).2
  let job : Job := ⟨id, script, max interval 1, now + max interval 1, count⟩
  have hsound : added.Sound := (sound_empty.performAll before).perform _
  have hjob : job ∈ added.jobs := List.mem_append_right _ (List.mem_singleton.mpr rfl)
  have hruns : empty.runs id requests = added.runs id rest := by
    rw [runs_append, sound_empty.runs_eq_zero (Nat.le_refl _), Nat.zero_add]
    exact Nat.zero_add _
  rw [hruns, performAll_append]
  exact follows_performAll hsound hjob rest

/-- However jobs are added, removed and run: the stored ones have different numbers, all given
away by an addition. A job that was added at tick `now` and has run `k` times is stored as it
was added but for the runs that it has left and for its next tick, which is `k + 1` intervals
after `now`; it is stored as long as it is not removed and has a run left, and a job that
counts its runs has no more than it counts, but at least one. A tick runs each stored job that
is due once and no other job, and the others stay as and where they are. A number that was
given away and is not stored never comes back. -/
theorem jobs_keep_their_series (requests : List Request) :
    let s := empty.performAll requests
    (s.jobs.map (·.id)).Nodup ∧
    (∀ job ∈ s.jobs, job.id < s.nextId ∧
      ∃ before script interval count now rest,
        requests = before ++ .add script interval count now :: rest ∧
          job.id = (empty.performAll before).nextId) ∧
    (∀ before script interval count now rest,
      requests = before ++ .add script interval count now :: rest →
      let id := (empty.performAll before).nextId
      let d := max interval 1
      let k := empty.runs id requests
      (∀ job ∈ s.jobs, job.id = id →
        job = ⟨id, script, d, now + (k + 1) * d, count.map (· - k)⟩) ∧
      (s.Stores id ↔
        (∀ r ∈ rest, ¬ r.removes id) ∧ ∀ c, count = some c → k < max c 1) ∧
      (∀ c, count = some c → k ≤ max c 1)) ∧
    (∀ now,
      (∀ job ∈ s.jobs,
        (s.perform (.tick now)).1.count job.id = if job.nextTick ≤ now then 1 else 0) ∧
      (∀ id, ¬ s.Stores id → (s.perform (.tick now)).1.count id = 0) ∧
      s.jobs.filter (now < ·.nextTick) <+: (s.perform (.tick now)).2.jobs) ∧
    (∀ id < s.nextId, ¬ s.Stores id →
      ∀ more, s.runs id more = 0 ∧ ¬ (s.performAll more).Stores id) := by
  intro s
  have hs : s.Sound := sound_empty.performAll requests
  refine ⟨hs.distinct, ?_, ?_, ?_, ?_⟩
  · intro job hjob
    exact ⟨hs.issued job hjob, added_of_stores ⟨job, hjob, rfl⟩⟩
  · rintro before script interval count now rest rfl id d k
    have h := follows_added before script interval count now rest
    refine ⟨fun job hjob hid => ?_, h.remains, h.bounded⟩
    have hnext : now + d + k * d = now + (k + 1) * d := by
      rw [Nat.add_mul]
      omega
    rw [h.stored job hjob hid, ← hnext]
    rfl
  · intro now
    refine ⟨fun job hjob => count_ran_tick hs hjob now,
      fun id hid => count_ran_of_not_stored hid _, ?_⟩
    rw [jobs_tick]
    have hpending : (fun job : Job => decide (now < job.nextTick)) = (!·.isDue now) := by
      funext job
      simp only [Job.isDue, ← decide_not, Nat.not_le]
    rw [hpending]
    exact List.prefix_append _ _
  · intro id hid hgone more
    exact performAll_gone hid hgone more

-- A job of every second tick whose first run is late: its second run is due at once, and its
-- third run, the last one, at the sixth tick.
example :
    let script : Script := ⟨.text "x", ⟨"'x'", none⟩⟩
    let s := empty.performAll [.add script 2 (some 3) 0, .tick 5, .tick 5]
    s.jobs.map (fun job => (job.nextTick, job.runsLeft)) = [(6, some 1)] ∧
      (s.performAll [.tick 5]).jobs.length = 1 ∧ (s.performAll [.tick 6]).jobs.length = 0 := by
  decide

end Schedule

end TickScript
