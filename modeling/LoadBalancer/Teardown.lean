import LoadBalancer.Supervisor

/-! What the supervisor guarantees. It exits when every worker it forked has been waited for, with a code that
says whether all of them ended well; it signals none but its own workers; and once a worker has ended the
others come down, except those on which a `SIGTERM` was lost while they started. -/

namespace LoadBalancer

namespace Supervisor

/-- The exit code that the statuses lead to. -/
def exitCodeOf (reaped : List (Nat × WaitStatus)) : Nat := reaped.foldl (fun code p => updateExitCode code p.2) 0

theorem exitCodeOf_concat (reaped : List (Nat × WaitStatus)) (p : Nat × WaitStatus) :
    exitCodeOf (reaped ++ [p]) = updateExitCode (exitCodeOf reaped) p.2 := by
  simp [exitCodeOf]

theorem updateExitCode_eq_zero {code : Nat} {status : WaitStatus} :
    updateExitCode code status = 0 ↔ code = 0 ∧ status = .exited 0 := by
  cases status with
  | exited n =>
      by_cases hn : n = 0
      · simp [updateExitCode, hn]
      · simp [updateExitCode, hn]
  | signaled sig => simp [updateExitCode]
  | other status => simp [updateExitCode]

theorem exitCodeOf_eq_zero {reaped : List (Nat × WaitStatus)} :
    exitCodeOf reaped = 0 ↔ ∀ p ∈ reaped, p.2 = .exited 0 := by
  induction reaped using List.reverseRecOn with
  | nil => simp [exitCodeOf]
  | append_singleton reaped p ih =>
      rw [exitCodeOf_concat, updateExitCode_eq_zero, ih, List.forall_mem_append, List.forall_mem_singleton]

/-! ### Processes -/

section Processes

variable {s : Supervisor} {pid pid' : Nat} {process : Process} {status : WaitStatus}

@[simp] theorem get?_setProcess :
    (s.setProcess pid process).processes.get? pid' =
      if pid = pid' then some process else s.processes.get? pid' := Dict.get?_set _ _ _ _

@[simp] theorem get?_endProcess :
    (s.endProcess pid status).processes.get? pid' =
      if pid = pid' then some (.ended status) else s.processes.get? pid' := Dict.get?_set _ _ _ _

theorem isRunning_iff : s.isRunning pid = true ↔
    ∃ stage deaf, s.processes.get? pid = some (.running stage deaf) := by
  unfold isRunning
  cases h : s.processes.get? pid with
  | none => simp
  | some process => cases process <;> simp [Process.isRunning]

theorem mem_pending_kill {pids : List Nat} :
    pid ∈ (s.kill pids).pending ↔ pid ∈ s.pending ∨ pid ∈ pids ∧ s.isRunning pid = true := by
  simp [kill]

end Processes

/-- Nothing of the parent changes, and no process is added or waited for. -/
structure OnlyWorkers (s s' : Supervisor) : Prop where
  place : s'.place = s.place
  children : s'.children = s.children
  exitCode : s'.exitCode = s.exitCode
  told : s'.told = s.told
  reaped : s'.reaped = s.reaped
  present : ∀ pid, s'.processes.get? pid = none ↔ s.processes.get? pid = none

section OnlyWorkers

variable {s s' s'' : Supervisor} {pid : Nat} {old : Process}

theorem OnlyWorkers.trans (h : OnlyWorkers s s') (h' : OnlyWorkers s' s'') : OnlyWorkers s s'' where
  place := h'.place.trans h.place
  children := h'.children.trans h.children
  exitCode := h'.exitCode.trans h.exitCode
  told := h'.told.trans h.told
  reaped := h'.reaped.trans h.reaped
  present pid := (h'.present pid).trans (h.present pid)

theorem onlyWorkers_pending (s : Supervisor) (pending : Finset Nat) :
    OnlyWorkers s { s with pending := pending } := ⟨rfl, rfl, rfl, rfl, rfl, fun _ => Iff.rfl⟩

theorem onlyWorkers_setProcess (hold : s.processes.get? pid = some old) (process : Process) :
    OnlyWorkers s (s.setProcess pid process) := by
  refine ⟨rfl, rfl, rfl, rfl, rfl, fun pid' => ?_⟩
  rw [get?_setProcess]
  split
  · next heq => simp [← heq, hold]
  · exact Iff.rfl

theorem onlyWorkers_endProcess (hold : s.processes.get? pid = some old) (status : WaitStatus) :
    OnlyWorkers s (s.endProcess pid status) :=
  (onlyWorkers_setProcess hold _).trans (onlyWorkers_pending _ _)

theorem onlyWorkers_receive (hold : s.processes.get? pid = some old) (deaf : Bool) (stage : Stage) :
    OnlyWorkers s (s.receive pid deaf stage) := by
  have hreceived : ∀ process, OnlyWorkers s ({ s with pending := s.pending.erase pid }.setProcess pid process) :=
    fun process => (onlyWorkers_setProcess hold process).trans (onlyWorkers_pending _ _)
  cases stage with
  | inherited children => exact (hreceived _).trans (onlyWorkers_pending _ _)
  | default => exact onlyWorkers_endProcess hold _
  | starting => exact hreceived _
  | serving => exact hreceived _
  | stopping => exact onlyWorkers_pending s _

end OnlyWorkers

/-! ### The parent's account of its workers -/

/-- The children that have not been waited for, seen from the list that the parent keeps. -/
def Unreaped (children : List Nat) (pid : Nat) : Place → Prop
  | .forked new _ => pid = new ∨ pid ∈ children
  | .reaped old _ => pid ≠ old ∧ pid ∈ children
  | _ => pid ∈ children

/-- What holds at each place. -/
def Placed (workers : Nat) (children told : List Nat) (reaped : List (Nat × WaitStatus)) (exitCode : Nat) :
    Place → Prop
  | .forking left => reaped = [] ∧ children.length + left = workers
  | .forked pid left => reaped = [] ∧ pid ∉ children ∧ children.length + (left + 1) = workers
  | .waiting => exitCode = exitCodeOf reaped ∧ children.length + reaped.length = workers ∧
      (reaped ≠ [] → ∀ pid ∈ children, pid ∈ told)
  | .reaped pid status => pid ∈ children ∧ ∃ before, reaped = before ++ [(pid, status)] ∧
      exitCode = exitCodeOf before ∧ children.length + before.length = workers
  | .teardown remaining => exitCode = exitCodeOf reaped ∧ children.length + reaped.length = workers ∧
      (∀ pid ∈ remaining, pid ∈ children) ∧ ∀ pid ∈ children, pid ∈ remaining ∨ pid ∈ told
  | .exited code => code = exitCodeOf reaped ∧ reaped.length = workers ∧ children = []
  | .crashed => reaped = [] ∧ children.length < workers

theorem Placed.told_mono {workers exitCode : Nat} {children told told' : List Nat}
    {reaped : List (Nat × WaitStatus)} {place : Place} (h : Placed workers children told reaped exitCode place)
    (hsub : told ⊆ told') : Placed workers children told' reaped exitCode place := by
  cases place with
  | waiting => exact ⟨h.1, h.2.1, fun hne pid hpid => hsub (h.2.2 hne pid hpid)⟩
  | teardown remaining =>
      exact ⟨h.1, h.2.1, h.2.2.1, fun pid hpid => (h.2.2.2 pid hpid).imp id fun htold => hsub htold⟩
  | _ => exact h

structure Sound (workers : Nat) (s : Supervisor) : Prop where
  distinct : s.children.Nodup
  owned : ∀ pid, s.processes.get? pid ≠ none ↔ Unreaped s.children pid s.place
  once : (s.reaped.map Prod.fst).Nodup
  gone : ∀ p ∈ s.reaped, s.processes.get? p.1 = none
  known : ∀ pid ∈ s.told, s.processes.get? pid ≠ none ∨ pid ∈ s.reaped.map Prod.fst
  placed : Placed workers s.children s.told s.reaped s.exitCode s.place

section Sound

variable {workers : Nat} {s s' : Supervisor} {e : Event}

theorem sound_init (workers : Nat) : Sound workers (init true workers) where
  distinct := List.nodup_nil
  owned _ := iff_of_false (fun h => h rfl) List.not_mem_nil
  once := List.nodup_nil
  gone _ hp := absurd hp List.not_mem_nil
  known _ hpid := absurd hpid List.not_mem_nil
  placed := ⟨rfl, Nat.zero_add workers⟩

theorem Sound.onlyWorkers (h : Sound workers s) (hsame : OnlyWorkers s s') : Sound workers s' where
  distinct := hsame.children ▸ h.distinct
  owned pid := by
    rw [hsame.children, hsame.place, ← h.owned pid]
    exact not_congr (hsame.present pid)
  once := hsame.reaped ▸ h.once
  gone p hp := (hsame.present p.1).mpr (h.gone p (hsame.reaped ▸ hp))
  known pid hpid := by
    rw [hsame.reaped]
    exact (h.known pid (hsame.told ▸ hpid)).imp_left (mt (hsame.present pid).mp)
  placed := by
    rw [hsame.children, hsame.told, hsame.reaped, hsame.exitCode, hsame.place]
    exact h.placed

/-- A child in the list has not been waited for, or has been just now. -/
theorem Sound.child (h : Sound workers s) {pid : Nat} (hpid : pid ∈ s.children) :
    s.processes.get? pid ≠ none ∨ ∃ status, s.place = .reaped pid status := by
  by_cases hnow : ∃ status, s.place = .reaped pid status
  · exact Or.inr hnow
  · refine Or.inl ((h.owned pid).mpr ?_)
    cases hplace : s.place with
    | forked new left => exact Or.inr hpid
    | reaped old status =>
        refine ⟨fun heq => hnow ⟨status, ?_⟩, hpid⟩
        rw [hplace, heq]
    | _ => exact hpid

/-- The parent signals its children. -/
theorem Sound.terminate (h : Sound workers s) {pids : List Nat} (hpids : ∀ pid ∈ pids, pid ∈ s.children) :
    Sound workers (s.terminate pids) where
  distinct := h.distinct
  owned := h.owned
  once := h.once
  gone := h.gone
  known pid hpid := by
    rcases List.mem_append.mp hpid with hpid | hpid
    · exact h.known pid hpid
    · rcases h.child (hpids pid hpid) with hpresent | ⟨status, hplace⟩
      · exact Or.inl hpresent
      · have hplaced := h.placed
        rw [hplace] at hplaced
        obtain ⟨-, before, hreaped, -, -⟩ := hplaced
        refine Or.inr ?_
        show pid ∈ s.reaped.map Prod.fst
        simp [hreaped]
  placed := h.placed.told_mono (List.subset_append_left _ _)

theorem Sound.fork (h : Sound workers s) {pid left : Nat} (hplace : s.place = .forking (left + 1))
    (hfresh : s.processes.get? pid = none) :
    Sound workers { s.setProcess pid (.running (.inherited s.children) false) with place := .forked pid left } := by
  obtain ⟨hdistinct, howned, honce, -, hknown, hplaced⟩ := h
  rw [hplace] at hplaced howned
  obtain ⟨hnone, hcount⟩ := hplaced
  refine ⟨hdistinct, fun pid' => ?_, honce, ?_, fun pid' hpid' => ?_, hnone, ?_, hcount⟩
  · show (s.setProcess pid _).processes.get? pid' ≠ none ↔ pid' = pid ∨ pid' ∈ s.children
    rw [get?_setProcess]
    by_cases hnew : pid = pid'
    · simp [hnew]
    · rw [if_neg hnew, howned pid', or_iff_right (Ne.symm hnew)]
      rfl
  · show ∀ p ∈ s.reaped, _
    rw [hnone]
    exact fun p hp => absurd hp List.not_mem_nil
  · refine (hknown pid' hpid').imp_left fun hpresent => ?_
    show (s.setProcess pid _).processes.get? pid' ≠ none
    rw [get?_setProcess]
    split
    · exact Option.some_ne_none _
    · exact hpresent
  · exact fun hmem => (howned pid).mpr hmem hfresh

theorem Sound.append (h : Sound workers s) {pid left : Nat} (hplace : s.place = .forked pid left) :
    Sound workers { s with children := s.children ++ [pid], place := .forking left } := by
  obtain ⟨hdistinct, howned, honce, hgone, hknown, hplaced⟩ := h
  rw [hplace] at hplaced howned
  obtain ⟨hnone, hnew, hcount⟩ := hplaced
  refine ⟨?_, fun pid' => ?_, honce, hgone, hknown, hnone, ?_⟩
  · exact List.nodup_append.mpr ⟨hdistinct, List.nodup_singleton pid, fun a ha b hb heq => by
      rw [List.mem_singleton.mp hb] at heq
      exact hnew (heq ▸ ha)⟩
  · show s.processes.get? pid' ≠ none ↔ pid' ∈ s.children ++ [pid]
    rw [List.mem_append, List.mem_singleton]
    exact (howned pid').trans or_comm
  · simp only [List.length_append, List.length_singleton]
    omega

theorem Sound.waitpid (h : Sound workers s) {pid : Nat} {status : WaitStatus} (hplace : s.place = .waiting)
    (hended : s.processes.get? pid = some (.ended status)) :
    Sound workers
      { s with
        place := .reaped pid status
        processes := s.processes.pop pid
        reaped := s.reaped ++ [(pid, status)] } := by
  obtain ⟨hdistinct, howned, honce, hgone, hknown, hplaced⟩ := h
  rw [hplace] at hplaced howned
  obtain ⟨hcode, hcount, -⟩ := hplaced
  have hpresent : s.processes.get? pid ≠ none := by simp [hended]
  refine ⟨hdistinct, fun pid' => ?_, ?_, ?_, fun pid' hpid' => ?_, ?_⟩
  · rw [Dict.get?_pop, Unreaped]
    by_cases hold : pid = pid'
    · simp [hold]
    · rw [if_neg hold, howned pid', and_iff_right (Ne.symm hold)]
      rfl
  · rw [List.map_append]
    refine List.nodup_append.mpr ⟨honce, List.nodup_singleton pid, fun a ha b hb heq => ?_⟩
    obtain ⟨p, hp, rfl⟩ := List.mem_map.mp ha
    rw [List.mem_singleton.mp hb] at heq
    have hgone := hgone p hp
    rw [heq] at hgone
    exact hpresent hgone
  · intro p hp
    rw [Dict.get?_pop]
    split
    · rfl
    · next hne =>
      rcases List.mem_append.mp hp with hp | hp
      · exact hgone p hp
      · exact absurd (congrArg Prod.fst (List.mem_singleton.mp hp)).symm hne
  · show (s.processes.pop pid).get? pid' ≠ none ∨ pid' ∈ (s.reaped ++ [(pid, status)]).map Prod.fst
    rw [Dict.get?_pop, List.map_append, List.mem_append]
    by_cases hold : pid = pid'
    · exact Or.inr (Or.inr (List.mem_singleton.mpr hold.symm))
    · rw [if_neg hold]
      exact (hknown pid' hpid').imp id Or.inl
  · exact ⟨(howned pid).mp hpresent, s.reaped, rfl, hcode, hcount⟩

theorem Sound.handleExit (h : Sound workers s) {pid : Nat} {status : WaitStatus}
    (hplace : s.place = .reaped pid status) :
    Sound workers
      { s with
        children := s.children.erase pid
        exitCode := updateExitCode s.exitCode status
        place := .teardown (s.children.erase pid) } := by
  obtain ⟨hdistinct, howned, honce, hgone, hknown, hplaced⟩ := h
  rw [hplace] at hplaced howned
  obtain ⟨hown, before, hreaped, hcode, hcount⟩ := hplaced
  refine ⟨hdistinct.erase pid, fun pid' => ?_, honce, hgone, hknown, ?_, ?_, fun _ => id, fun _ => Or.inl⟩
  · show s.processes.get? pid' ≠ none ↔ pid' ∈ s.children.erase pid
    rw [List.Nodup.mem_erase_iff hdistinct]
    exact howned pid'
  · rw [hreaped, exitCodeOf_concat, hcode]
  · have hpos := List.length_pos_of_mem hown
    simp only [List.length_erase_of_mem hown, hreaped, List.length_append, List.length_singleton]
    omega

theorem Sound.step (h : Sound workers s) (hmoves : Moves s e s') : Sound workers s' := by
  cases hmoves with
  | fork hplace hfresh => exact h.fork hplace hfresh
  | forkFails hplace =>
      obtain ⟨hdistinct, howned, honce, hgone, hknown, hplaced⟩ := h
      rw [hplace] at hplaced howned
      refine ⟨hdistinct, howned, honce, hgone, hknown, hplaced.1, ?_⟩
      show s.children.length < workers
      have hcount := hplaced.2
      omega
  | append hplace => exact h.append hplace
  | enterLoop hplace =>
      obtain ⟨hdistinct, howned, honce, hgone, hknown, hplaced⟩ := h
      rw [hplace] at hplaced howned
      obtain ⟨hnone, hcount⟩ := hplaced
      refine ⟨hdistinct, howned, honce, hgone, hknown, ?_, ?_, fun hne => absurd hnone hne⟩
      · rw [hnone]
        rfl
      · simp only [hnone, List.length_nil]
        omega
  | waitpid hplace hended => exact h.waitpid hplace hended
  | noChild hplace hchildren hempty =>
      -- a child in the list is still a process
      obtain ⟨pid, hpid⟩ := List.exists_mem_of_ne_nil _ hchildren
      have howned := h.owned pid
      rw [hplace] at howned
      exact absurd (by rw [Dict.get?, hempty]; rfl) (howned.mpr hpid)
  | leave hplace hempty =>
      obtain ⟨hdistinct, howned, honce, hgone, hknown, hplaced⟩ := h
      rw [hplace] at hplaced howned
      obtain ⟨hcode, hcount, -⟩ := hplaced
      refine ⟨hdistinct, howned, honce, hgone, hknown, hcode, ?_, hempty⟩
      simpa [hempty] using hcount
  | stranger hplace hother =>
      have hplaced := h.placed
      rw [hplace] at hplaced
      exact absurd hplaced.1 hother
  | handleExit hplace hown => exact h.handleExit hplace
  | allTold hplace =>
      obtain ⟨hdistinct, howned, honce, hgone, hknown, hplaced⟩ := h
      rw [hplace] at hplaced howned
      obtain ⟨hcode, hcount, -, htold⟩ := hplaced
      exact ⟨hdistinct, howned, honce, hgone, hknown, hcode, hcount,
        fun _ pid hpid => (htold pid hpid).resolve_left List.not_mem_nil⟩
  | @killNext pid remaining hplace =>
      have hplaced := h.placed
      rw [hplace] at hplaced
      obtain ⟨hcode, hcount, hsub, htold⟩ := hplaced
      have hchild : ∀ pid' ∈ [pid], pid' ∈ s.children := fun pid' hpid' =>
        hsub pid' (List.mem_singleton.mp hpid' ▸ List.mem_cons_self)
      obtain ⟨hdistinct, howned, honce, hgone, hknown, -⟩ := h.terminate hchild
      refine ⟨hdistinct, fun pid' => ?_, honce, hgone, hknown, hcode, hcount,
        fun pid' hpid' => hsub pid' (List.mem_cons_of_mem _ hpid'), fun pid' hpid' => ?_⟩
      · have hpid' := howned pid'
        show s.processes.get? pid' ≠ none ↔ pid' ∈ s.children
        rwa [show (s.terminate [pid]).place = .teardown (pid :: remaining) from hplace] at hpid'
      · rcases htold pid' hpid' with hmem | htold
        · rcases List.mem_cons.mp hmem with rfl | hmem
          · exact Or.inr (List.mem_append_right _ (List.mem_singleton_self _))
          · exact Or.inl hmem
        · exact Or.inr (List.mem_append_left _ htold)
  | interrupt _ => exact h.terminate fun _ => id
  | advance hrunning _ => exact h.onlyWorkers (onlyWorkers_setProcess hrunning _)
  | deliver hrunning _ => exact h.onlyWorkers (onlyWorkers_receive hrunning _ _)
  | ends hrunning => exact h.onlyWorkers (onlyWorkers_endProcess hrunning _)
  | outsider => exact h.onlyWorkers (onlyWorkers_pending s _)

end Sound

/-! ### What becomes of the signals -/

/-- Every `SIGTERM` of the parent is on its way, has taken effect, or was lost on a worker that is deaf since. -/
structure Heard (s : Supervisor) : Prop where
  running : ∀ pid ∈ s.pending, s.isRunning pid = true
  heard : ∀ pid ∈ s.told, ∀ stage deaf, s.processes.get? pid = some (.running stage deaf) →
    pid ∈ s.pending ∨ stage = .stopping ∨ deaf = true

section Heard

variable {workers : Nat} {s s' : Supervisor} {e : Event} {pid : Nat} {stage : Stage} {deaf : Bool}

theorem Heard.kill (h : Heard s) (pids : List Nat) : Heard (s.kill pids) where
  running pid hpid := (mem_pending_kill.mp hpid).elim (h.running pid) And.right
  heard pid htold stage deaf hrunning :=
    (h.heard pid htold stage deaf hrunning).imp_left fun hpending => mem_pending_kill.mpr (Or.inl hpending)

theorem Heard.terminate (h : Heard s) (pids : List Nat) : Heard (s.terminate pids) where
  running := (h.kill pids).running
  heard pid htold stage deaf hrunning := by
    rcases List.mem_append.mp htold with htold | hnow
    · exact (h.kill pids).heard pid htold stage deaf hrunning
    · exact Or.inl (mem_pending_kill.mpr (Or.inr ⟨hnow, isRunning_iff.mpr ⟨stage, deaf, hrunning⟩⟩))

/-- A worker has received its `SIGTERM`, or has ended. -/
theorem Heard.settle (h : Heard s) (pid : Nat) {process : Process}
    (hsettled : ∀ stage deaf, process = .running stage deaf → stage = .stopping ∨ deaf = true) :
    Heard ({ s with pending := s.pending.erase pid }.setProcess pid process) where
  running pid' hpid' := by
    obtain ⟨hne, hpending⟩ := Finset.mem_erase.mp hpid'
    obtain ⟨stage, deaf, hrunning⟩ := isRunning_iff.mp (h.running pid' hpending)
    refine isRunning_iff.mpr ⟨stage, deaf, ?_⟩
    rw [get?_setProcess, if_neg (Ne.symm hne)]
    exact hrunning
  heard pid' htold stage deaf hrunning := by
    rw [get?_setProcess] at hrunning
    split at hrunning
    · exact Or.inr (hsettled stage deaf (Option.some.inj hrunning))
    · next hne =>
      refine (h.heard pid' htold stage deaf hrunning).imp_left fun hpending => ?_
      exact Finset.mem_erase.mpr ⟨Ne.symm hne, hpending⟩

theorem Heard.receive (h : Heard s) (hrunning : s.processes.get? pid = some (.running stage deaf)) :
    Heard (s.receive pid deaf stage) := by
  cases stage with
  | inherited children =>
      refine (h.settle pid fun stage deaf heq => Or.inr ?_).kill children
      exact (Process.running.inj heq).2.symm
  | default => exact h.settle pid fun _ _ => Process.noConfusion
  | starting => exact h.settle pid fun stage deaf heq => Or.inr (Process.running.inj heq).2.symm
  | serving => exact h.settle pid fun stage deaf heq => Or.inl (Process.running.inj heq).1.symm
  | stopping =>
      refine ⟨fun pid' hpid' => h.running pid' (Finset.mem_of_mem_erase hpid'),
    fun pid' htold stage' deaf' h' => ?_⟩
      by_cases hsame : pid' = pid
      · subst hsame
        obtain ⟨rfl, -⟩ := Process.running.inj (Option.some.inj (hrunning.symm.trans h'))
        exact Or.inr (Or.inl rfl)
      · exact (h.heard pid' htold stage' deaf' h').imp_left fun hpending =>
          Finset.mem_erase.mpr ⟨hsame, hpending⟩

theorem Heard.advance (h : Heard s) {next : Stage}
    (hrunning : s.processes.get? pid = some (.running stage deaf)) (hnext : stage.next = some next) :
    Heard (s.setProcess pid (.running next deaf)) where
  running pid' hpid' := by
    rw [isRunning_iff]
    by_cases hsame : pid = pid'
    · exact ⟨next, deaf, by rw [get?_setProcess, if_pos hsame]⟩
    · rw [get?_setProcess, if_neg hsame]
      exact isRunning_iff.mp (h.running pid' hpid')
  heard pid' htold stage' deaf' h' := by
    rw [get?_setProcess] at h'
    split at h'
    · next hsame =>
      subst hsame
      obtain ⟨rfl, rfl⟩ := Process.running.inj (Option.some.inj h')
      rcases h.heard pid htold stage deaf hrunning with hpending | rfl | hdeaf
      · exact Or.inl hpending
      · cases hnext
      · exact Or.inr (Or.inr hdeaf)
    · exact h.heard pid' htold stage' deaf' h'

/-- A new worker has been told nothing. -/
theorem Heard.fork (h : Heard s) (hsound : Sound workers s) {left : Nat}
    (hplace : s.place = .forking (left + 1)) (hfresh : s.processes.get? pid = none) (process : Process) :
    Heard (s.setProcess pid process) where
  running pid' hpid' := by
    obtain ⟨stage, deaf, hrunning⟩ := isRunning_iff.mp (h.running pid' hpid')
    refine isRunning_iff.mpr ⟨stage, deaf, ?_⟩
    rw [get?_setProcess, if_neg]
    · exact hrunning
    · rintro rfl
      rw [hfresh] at hrunning
      cases hrunning
  heard pid' htold stage' deaf' h' := by
    have hnew : pid ≠ pid' := by
      rintro rfl
      have hplaced := hsound.placed
      rw [hplace] at hplaced
      have hpresent := (hsound.known pid htold).resolve_right (by simp [hplaced.1])
      exact hpresent hfresh
    rw [get?_setProcess, if_neg hnew] at h'
    exact h.heard pid' htold stage' deaf' h'

theorem Heard.waitpid (h : Heard s) {status : WaitStatus}
    (hended : s.processes.get? pid = some (.ended status)) :
    Heard { s with processes := s.processes.pop pid } where
  running pid' hpid' := by
    obtain ⟨stage, deaf, hrunning⟩ := isRunning_iff.mp (h.running pid' hpid')
    refine isRunning_iff.mpr ⟨stage, deaf, ?_⟩
    rw [Dict.get?_pop, if_neg]
    · exact hrunning
    · rintro rfl
      rw [hended] at hrunning
      cases hrunning
  heard pid' htold stage' deaf' h' := by
    rw [Dict.get?_pop] at h'
    split at h'
    · cases h'
    · exact h.heard pid' htold stage' deaf' h'

theorem Heard.step (h : Heard s) (hsound : Sound workers s) (hmoves : Moves s e s') : Heard s' := by
  cases hmoves with
  | fork hplace hfresh =>
      have hforked := h.fork hsound hplace hfresh (.running (.inherited s.children) false)
      exact ⟨hforked.running, hforked.heard⟩
  | waitpid _ hended => exact ⟨(h.waitpid hended).running, (h.waitpid hended).heard⟩
  | @killNext pid _ _ => exact ⟨(h.terminate [pid]).running, (h.terminate [pid]).heard⟩
  | interrupt _ => exact h.terminate s.children
  | advance hrunning hnext => exact h.advance hrunning hnext
  | deliver hrunning _ => exact h.receive hrunning
  | ends _ => exact h.settle _ fun _ _ => Process.noConfusion
  | outsider => exact h.kill _
  | _ => exact ⟨h.running, h.heard⟩

end Heard

/-! ### Runs -/

section Runs

variable {workers : Nat} {s s' : Supervisor} {events : List Event} {e : Event}

theorem sound_of_run (hrun : Machine.run step (init true workers) events = some s) :
    Sound workers s ∧ Heard s := by
  refine Machine.run_invariant (fun s => Sound workers s ∧ Heard s) ?_ ⟨sound_init workers, ?_⟩ hrun
  · intro s e s' ⟨hsound, hheard⟩ hstep
    have hmoves := moves_of_step hstep
    exact ⟨hsound.step hmoves, hheard.step hsound hmoves⟩
  · exact ⟨fun _ hpid => absurd hpid (Finset.notMem_empty _), fun _ htold => absurd htold List.not_mem_nil⟩

/-- Without `SO_REUSEPORT` there is never anyone to wait for. -/
theorem run_without_reuseport (hrun : Machine.run step (init false workers) events = some s) :
    s = init false workers := by
  refine Machine.run_invariant (fun s => s = init false workers) ?_ rfl hrun
  rintro s e s' rfl hstep
  have hnone : ∀ pid, (init false workers).processes.get? pid = none := fun _ => rfl
  cases moves_of_step hstep with
  | outsider =>
      rw [kill, Finset.filter_false_of_mem]
      · rfl
      · rintro pid -
        rw [isRunning, hnone]
        exact Bool.false_ne_true
  | advance hrunning _ | deliver hrunning _ | ends hrunning =>
      rw [hnone] at hrunning
      cases hrunning
  | fork hplace _ | forkFails hplace | append hplace | enterLoop hplace | waitpid hplace _ | noChild hplace _ _
  | leave hplace _ | stranger hplace _ | handleExit hplace _ | allTold hplace | killNext hplace
  | interrupt hplace =>
      cases hplace

/-- **It exits after all.** In every run, whatever the processes do and whenever signals come: `os.waitpid`
returns only workers that are waited for, and never finds that there are none. When the supervisor exits, every
worker that it was to fork has been waited for, once, and none is left; its code is 0 exactly if all of them
exited with 0. Workers are left behind only where `os.fork` fails, and then all that were forked. Without
`SO_REUSEPORT` it exits at once, with 1. -/
theorem exits_after_all {hasReuseport : Bool}
    (hrun : Machine.run step (init hasReuseport workers) events = some s) :
    s.step .noChild = none ∧
    (∀ pid status, s.place = .reaped pid status → pid ∈ s.children) ∧
    (∀ code, s.place = .exited code →
      (∀ pid, s.processes.get? pid = none) ∧ s.reaped.length = (if hasReuseport then workers else 0) ∧
      (s.reaped.map Prod.fst).Nodup ∧
      (code = 0 ↔ hasReuseport = true ∧ ∀ p ∈ s.reaped, p.2 = .exited 0)) ∧
    (s.place = .crashed →
      s.reaped = [] ∧ s.children.length < workers ∧ ∀ pid, s.processes.get? pid ≠ none ↔ pid ∈ s.children) ∧
    (hasReuseport = false → s = init false workers) := by
  cases hasReuseport with
  | false =>
      obtain rfl := run_without_reuseport hrun
      refine ⟨rfl, nofun, ?_, nofun, fun _ => rfl⟩
      rintro code ⟨⟩
      exact ⟨fun _ => rfl, rfl, List.nodup_nil, by simp⟩
  | true =>
      obtain ⟨hsound, -⟩ := sound_of_run hrun
      refine ⟨?_, fun pid status hplace => ?_, fun code hplace => ?_, fun hplace => ?_, by rintro ⟨⟩⟩
      · cases hstep : s.step .noChild with
        | none => rfl
        | some s' =>
            cases moves_of_step hstep with
            | noChild hplace hchildren hempty =>
                obtain ⟨pid, hpid⟩ := List.exists_mem_of_ne_nil _ hchildren
                have howned := hsound.owned pid
                rw [hplace] at howned
                exact absurd (by rw [Dict.get?, hempty]; rfl) (howned.mpr hpid)
      · have hplaced := hsound.placed
        rw [hplace] at hplaced
        exact hplaced.1
      · have hplaced := hsound.placed
        rw [hplace] at hplaced
        obtain ⟨rfl, hcount, hnone⟩ := hplaced
        refine ⟨fun pid => ?_, hcount, hsound.once, exitCodeOf_eq_zero.trans (and_iff_right rfl).symm⟩
        by_contra hpresent
        have hchild := (hsound.owned pid).mp hpresent
        rw [hplace, hnone] at hchild
        exact List.not_mem_nil hchild
      · have hplaced := hsound.placed
        rw [hplace] at hplaced
        refine ⟨hplaced.1, hplaced.2, fun pid => ?_⟩
        have howned := hsound.owned pid
        rwa [hplace] at howned

/-- The first of two workers crashes while both serve. -/
def oneCrashes : List Event :=
  [.fork 100, .append, .fork 101, .append, .enterLoop, .advance 100, .advance 100, .advance 100, .advance 101,
    .advance 101, .advance 101, .ends 100 (.exited 1), .waitpid 100, .handleExit, .killNext, .killNext,
    .deliver 101, .ends 101 (.exited 0), .waitpid 101, .handleExit, .killNext, .leave]

theorem exits_after_all_oneCrashes : ∃ s code,
    Machine.run step (init true 2) oneCrashes = some s ∧ s.place = .exited code ∧
    (∀ pid, s.processes.get? pid = none) ∧ s.reaped.length = 2 ∧
    (code = 0 ↔ ∀ p ∈ s.reaped, p.2 = .exited 0) := by
  obtain ⟨s, hrun, hplace⟩ : ∃ s, Machine.run step (init true 2) oneCrashes = some s ∧ s.place = .exited 1 :=
    ⟨_, rfl, rfl⟩
  obtain ⟨hnone, hcount, -, hcode⟩ := (exits_after_all hrun).2.2.1 1 hplace
  exact ⟨s, 1, hrun, hplace, hnone, hcount, hcode.trans (and_iff_right rfl)⟩

/-- Where the parent sends `SIGTERM` at an event. -/
def targets (s : Supervisor) : Event → List Nat
  | .interrupt => s.children
  | .killNext =>
      match s.place with
      | .teardown (pid :: _) => [pid]
      | _ => []
  | _ => []

theorem told_of_step (hmoves : Moves s e s') : s'.told = s.told ++ s.targets e := by
  cases hmoves with
  | allTold hplace => simp [targets, hplace]
  | killNext hplace => simp [targets, hplace, terminate]
  | interrupt _ => rfl
  | deliver hrunning _ =>
      rw [(onlyWorkers_receive hrunning _ _).told]
      exact (List.append_nil _).symm
  | _ => exact (List.append_nil _).symm

/-- **It signals its own workers.** In every run, the parent sends `SIGTERM` only to children that it has in its
list, and that have not been waited for, except where a signal reaches it between `os.waitpid` and
`children.remove`; and whenever it waits again after a worker has ended, it has signalled all that are left. -/
theorem signals_own_workers (hrun : Machine.run step (init true workers) events = some s) :
    (∀ e s', s.step e = some s' → s'.told = s.told ++ s.targets e ∧
      ∀ pid ∈ s.targets e, pid ∈ s.children ∧
        (s.processes.get? pid ≠ none ∨ e = .interrupt ∧ ∃ status, s.place = .reaped pid status)) ∧
    (s.place = .waiting → s.reaped ≠ [] → ∀ pid, s.processes.get? pid ≠ none → pid ∈ s.told) := by
  obtain ⟨hsound, -⟩ := sound_of_run hrun
  have hplaced := hsound.placed
  refine ⟨fun e s' hstep => ⟨told_of_step (moves_of_step hstep), fun pid hpid => ?_⟩,
    fun hplace hne pid hpresent => ?_⟩
  · cases e with
    | interrupt => exact ⟨hpid, (hsound.child hpid).imp id fun hnow => ⟨rfl, hnow⟩⟩
    | killNext =>
        simp only [targets] at hpid
        split at hpid
        · next pid' remaining hplace =>
          obtain rfl := List.mem_singleton.mp hpid
          rw [hplace] at hplaced
          have hchild : pid ∈ s.children := hplaced.2.2.1 pid List.mem_cons_self
          refine ⟨hchild, Or.inl ((hsound.owned pid).mpr ?_)⟩
          rw [hplace]
          exact hchild
        · exact absurd hpid List.not_mem_nil
    | _ => exact absurd hpid List.not_mem_nil
  · rw [hplace] at hplaced
    have hchild := (hsound.owned pid).mp hpresent
    rw [hplace] at hchild
    exact hplaced.2.2 hne pid hchild

theorem signals_own_workers_oneCrashes : ∃ s,
    Machine.run step (init true 2) (oneCrashes.take 16) = some s ∧ s.place = .waiting ∧
    ∀ pid, s.processes.get? pid ≠ none → pid ∈ s.told := by
  obtain ⟨s, hrun, hplace, hreaped⟩ : ∃ s, Machine.run step (init true 2) (oneCrashes.take 16) = some s ∧
      s.place = .waiting ∧ s.reaped = [(100, .exited 1)] := ⟨_, rfl, rfl, rfl⟩
  have hne : s.reaped ≠ [] := by simp [hreaped]
  exact ⟨s, hrun, hplace, (signals_own_workers hrun).2 hplace hne⟩

/-- The statements of the parent. -/
def Event.isParents : Event → Bool
  | .fork _ | .forkFails | .append | .enterLoop | .waitpid _ | .noChild | .leave | .handleExit | .killNext => true
  | .interrupt | .advance _ | .deliver _ | .ends _ _ | .outsider _ => false

/-- **The others come down.** In every run, once a worker has been waited for, or the children known have all been
signalled, the system does not stand still before the supervisor is gone, unless some worker is deaf, having
lost a `SIGTERM` before its reactor ran: the parent can go on, or a `SIGTERM` is about to be delivered, or a
worker is stopping. -/
theorem teardown_goes_on (hrun : Machine.run step (init true workers) events = some s)
    (hbegun : s.reaped ≠ [] ∨ ∀ pid ∈ s.children, pid ∈ s.told) (hplace : s.place.handlesSignals = true)
    (hhears : ∀ pid stage, s.processes.get? pid ≠ some (.running stage true)) :
    (∃ e, e.isParents = true ∧ (s.step e).isSome = true) ∨ (∃ pid, (s.step (.deliver pid)).isSome = true) ∨
      ∃ pid, s.processes.get? pid = some (.running .stopping false) := by
  obtain ⟨hsound, hheard⟩ := sound_of_run hrun
  have hplaced := hsound.placed
  cases hat : s.place with
  | forking left =>
      cases left with
      | zero => exact Or.inl ⟨.enterLoop, rfl, by simp [step, hat]⟩
      | succ left => exact Or.inl ⟨.forkFails, rfl, by simp [step, hat]⟩
  | forked pid left => exact Or.inl ⟨.append, rfl, by simp [step, hat]⟩
  | reaped pid status =>
      rw [hat] at hplaced
      exact Or.inl ⟨.handleExit, rfl, by simp [step, hat, hplaced.1]⟩
  | teardown remaining =>
      cases remaining with
      | nil => exact Or.inl ⟨.killNext, rfl, by simp [step, hat]⟩
      | cons pid remaining => exact Or.inl ⟨.killNext, rfl, by simp [step, hat]⟩
  | exited code => simp [hat, Place.handlesSignals] at hplace
  | crashed => simp [hat, Place.handlesSignals] at hplace
  | waiting =>
      rw [hat] at hplaced
      cases hchildren : s.children with
      | nil => exact Or.inl ⟨.leave, rfl, by simp [step, hat, hchildren]⟩
      | cons pid rest =>
          have hchild : pid ∈ s.children := hchildren ▸ List.mem_cons_self
          have hpresent := (hsound.owned pid).mpr (by rw [hat]; exact hchild)
          obtain ⟨process, hprocess⟩ := Option.ne_none_iff_exists'.mp hpresent
          cases process with
          | ended status => exact Or.inl ⟨.waitpid pid, rfl, by simp [step, hat, hchildren, hprocess]⟩
          | running stage deaf =>
              have htold : pid ∈ s.told :=
                hbegun.elim (fun hne => hplaced.2.2 hne pid hchild) fun hall => hall pid hchild
              rcases hheard.heard pid htold stage deaf hprocess with hpending | rfl | rfl
              · exact Or.inr (Or.inl ⟨pid, by simp [step, hprocess, hpending]⟩)
              · cases deaf with
                | false => exact Or.inr (Or.inr ⟨pid, hprocess⟩)
                | true => exact absurd hprocess (hhears pid _)
              · exact absurd hprocess (hhears pid stage)

/-- Both serve, one has crashed, and the parent has signalled the other. -/
theorem teardown_goes_on_oneCrashes : ∃ s,
    Machine.run step (init true 2) (oneCrashes.take 16) = some s ∧
    ((∃ e, e.isParents = true ∧ (s.step e).isSome = true) ∨ (∃ pid, (s.step (.deliver pid)).isSome = true) ∨
      ∃ pid, s.processes.get? pid = some (.running .stopping false)) := by
  obtain ⟨s, hrun, hplace, hreaped, hprocesses⟩ : ∃ s,
      Machine.run step (init true 2) (oneCrashes.take 16) = some s ∧ s.place.handlesSignals = true ∧
      s.reaped = [(100, .exited 1)] ∧ s.processes.items = [(101, .running .serving false)] :=
    ⟨_, rfl, rfl, rfl, rfl⟩
  refine ⟨s, hrun, teardown_goes_on hrun (Or.inl (by simp [hreaped])) hplace fun pid stage hdeaf => ?_⟩
  rw [Dict.get?_eq_some_iff, hprocesses, List.mem_singleton] at hdeaf
  cases hdeaf

end Runs

end Supervisor

end LoadBalancer
