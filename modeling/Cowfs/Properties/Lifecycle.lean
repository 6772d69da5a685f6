import Cowfs.Construction.Lifecycle

/-!
# While the module is loaded and unloaded

Whatever user space does meanwhile, the caches exist as long as the worker is queued, the device or
the file system is registered, a pass is under way or something is mounted, and a module that is
gone leaves nothing set up, wherever its `cowfs_init` failed (`set_up_in_order`).

One thing is not ordered: the device is registered before the file system.  A device opened in
between, while `register_filesystem` is about to fail, stays open when the module is discarded, and
its next `ioctl` runs code that is gone.  `device_secure_iff` says that this is the only way.
-/

namespace Cowfs

/-! ## Statement -/

/-- What uses the caches finds them. -/
def Setup.Sound (u : Setup) : Prop :=
  u.work = true ∨ u.device = true ∨ u.fs = true → u.versions = true ∧ u.infos = true

instance (u : Setup) : Decidable u.Sound := inferInstanceAs (Decidable (_ → _))

/-- Only the rest of `cowfs_init` or `cowfs_exit` runs. -/
def Finishing (as : List ModAct) : Prop := ∀ a ∈ as, a = .instr ∨ a = .endPass

/-- However `cowfs_init` or `cowfs_exit` goes on, no open device outlives the module. -/
def Secure (s : ModState) : Prop :=
  ∀ as, Finishing as → 0 < (run ModState.step s as).fds →
    (run ModState.step s as).phase ≠ .absent

/-- The device is not opened while `cowfs_init` is about to fail. -/
def OpensLater (s : ModState) (a : ModAct) : Prop :=
  a = .openDevice → s.setup.device = true → s.phase ≠ .loading false

/-! ## Plans -/

/-- What is set up after these instructions. -/
def Setup.performAll (u : Setup) (is : List ModInstr) : Setup := is.foldl Setup.perform u

/-- Every state on the way is sound, and the last one is `final`. -/
structure Plan (u final : Setup) (is : List ModInstr) : Prop where
  sound : ∀ n, (u.performAll (is.take n)).Sound
  final : u.performAll is = final

lemma Plan.next {u final : Setup} {i : ModInstr} {is : List ModInstr} (h : Plan u final (i :: is)) :
    Plan (u.perform i) final is :=
  ⟨fun n => h.sound (n + 1), h.final⟩

lemma Plan.now {u final : Setup} {is : List ModInstr} (h : Plan u final is) : u.Sound := h.sound 0

lemma plan_of_le {u final : Setup} {is : List ModInstr} {k : ℕ} (hk : is.length ≤ k)
    (hsound : ∀ n ≤ k, (u.performAll (is.take n)).Sound) (hfinal : u.performAll is = final) :
    Plan u final is := by
  refine ⟨fun n => ?_, hfinal⟩
  by_cases hn : n ≤ k
  · exact hsound n hn
  · rw [List.take_of_length_le (by omega), ← List.take_of_length_le hk]
    exact hsound k le_rfl

/-- `cowfs_init` goes through sound states, and where it fails it leaves nothing. -/
lemma plan_init (φ : InitFaults) :
    Plan .none (if (cowfsInit φ).1 then .all else .none) (cowfsInit φ).2 := by
  obtain ⟨versions, infos, device, fs⟩ := φ
  cases versions <;> cases infos <;> cases device <;> cases fs <;>
    exact plan_of_le (k := 9) (by decide) (by decide) (by decide)

lemma plan_exit : Plan .all .none cowfsExit :=
  plan_of_le (k := 6) (by decide) (by decide) (by decide)

/-! ## The invariant -/

/-- What a phase ends with. -/
def Phase.final : Phase → Setup
  | .loading true | .live => .all
  | .loading false | .unloading | .absent => .none

structure Ordered (s : ModState) : Prop where
  plan : Plan s.setup s.phase.final s.todo
  idle : s.phase = .absent ∨ s.phase = .live → s.todo = []
  running : s.running = true → s.setup.work = true
  mounted : 0 < s.mounts → s.setup.fs = true
  leaves : .unregisterFs ∈ s.todo → s.phase = .unloading
  unused : s.phase = .unloading → s.fds = 0 ∧ s.mounts = 0

variable {s : ModState} {a : ModAct}

lemma Ordered.setup_eq (h : Ordered s) (htodo : s.todo = []) : s.setup = s.phase.final := by
  have hfinal := h.plan.final
  rw [htodo] at hfinal
  exact hfinal

lemma Ordered.absent (h : Ordered s) (habsent : s.phase = .absent) : s.setup = .none := by
  rw [h.setup_eq (h.idle (.inl habsent)), habsent]
  rfl

lemma ordered_init : Ordered .init where
  plan := ⟨fun n => by simp [ModState.init, Setup.performAll, Setup.Sound, Setup.none], rfl⟩
  idle _ := rfl
  running h := by cases h
  mounted h := by cases h
  leaves h := by cases h
  unused h := by cases h

lemma Ordered.load (h : Ordered s) (habsent : s.phase = .absent) (φ : InitFaults) :
    Ordered { s with phase := .loading (cowfsInit φ).1, todo := (cowfsInit φ).2 } := by
  have hnone := h.absent habsent
  refine ⟨?_, fun hidle => by simp at hidle, h.running, h.mounted, fun hleaves => ?_, nofun⟩
  · have hplan := plan_init φ
    show Plan s.setup (Phase.final (.loading (cowfsInit φ).1)) _
    rw [hnone]
    rcases hok : (cowfsInit φ).1 with _ | _ <;> rw [hok] at hplan <;> exact hplan
  · have hnot : ModInstr.unregisterFs ∉ (cowfsInit φ).2 := by
      obtain ⟨versions, infos, device, fs⟩ := φ
      cases versions <;> cases infos <;> cases device <;> cases fs <;> decide
    exact absurd hleaves hnot

lemma Ordered.unload (h : Ordered s) (hlive : s.phase = .live) (hfds : s.fds = 0)
    (hmounts : s.mounts = 0) : Ordered { s with phase := .unloading, todo := cowfsExit } := by
  have hall : s.setup = .all := by
    rw [h.setup_eq (h.idle (.inr hlive)), hlive]
    rfl
  refine ⟨?_, fun hidle => by simp at hidle, h.running, h.mounted, fun _ => rfl,
    fun _ => ⟨hfds, hmounts⟩⟩
  show Plan s.setup .none cowfsExit
  rw [hall]
  exact plan_exit

lemma Ordered.finish (h : Ordered s) (htodo : s.todo = []) : Ordered s.finish := by
  have hsetup := h.setup_eq htodo
  have hplan := h.plan
  unfold ModState.finish
  split
  next hphase =>
    rw [hphase] at hplan
    exact ⟨hplan, fun _ => htodo, h.running, h.mounted, fun hl => by simp [htodo] at hl, nofun⟩
  next hphase =>
    rw [hphase] at hplan
    exact ⟨hplan, fun _ => htodo, h.running, h.mounted, fun hl => by simp [htodo] at hl, nofun⟩
  next hphase =>
    rw [hphase] at hplan
    exact ⟨hplan, fun _ => htodo, h.running, h.mounted, fun hl => by simp [htodo] at hl, nofun⟩
  · exact h
  · exact h

lemma Ordered.next (h : Ordered s) : Ordered s.next := by
  unfold ModState.next
  split
  next htodo => exact h.finish htodo
  next i rest htodo =>
    have hplan := h.plan
    rw [htodo] at hplan
    split
    · exact h
    next hwait =>
      refine ⟨hplan.next, fun hidle => ?_, fun hrunning => ?_, fun hmounts => ?_, fun hleaves => ?_,
        h.unused⟩
      · have hnil := h.idle hidle
        rw [htodo] at hnil
        cases hnil
      · have hwork := h.running hrunning
        -- the work is cancelled only when no pass is under way
        change s.running = true at hrunning
        cases i <;> first | exact hwork | rfl | simp [hrunning] at hwait
      · have hfs := h.mounted hmounts
        cases i <;> first | exact hfs | rfl | skip
        have hzero := (h.unused (h.leaves (htodo ▸ List.mem_cons_self))).2
        change 0 < s.mounts at hmounts
        omega
      · exact h.leaves (htodo ▸ List.mem_cons_of_mem _ hleaves)

lemma Ordered.step (h : Ordered s) (a : ModAct) : Ordered (s.step a) := by
  cases a with
  | load φ =>
    simp only [ModState.step]
    split_ifs with habsent
    · exact h.load habsent φ
    · exact h
  | unload =>
    simp only [ModState.step]
    split_ifs with hidle
    · exact h.unload hidle.1 hidle.2.1 hidle.2.2
    · exact h
  | instr => exact h.next
  | openDevice =>
    simp only [ModState.step]
    split_ifs with hopen
    · exact { h with unused := fun hp => absurd hp hopen.2 }
    · exact h
  | mount =>
    simp only [ModState.step]
    split_ifs with hopen
    · exact { h with mounted := fun _ => hopen.1, unused := fun hp => absurd hp hopen.2 }
    · exact h
  | closeDevice =>
    refine { h with unused := fun hp => ?_ }
    obtain ⟨hfds, hmounts⟩ := h.unused hp
    exact ⟨Nat.sub_eq_zero_of_le (by omega), hmounts⟩
  | umount =>
    refine { h with mounted := fun hm => h.mounted ?_, unused := fun hp => ?_ }
    · change 0 < s.mounts - 1 at hm
      omega
    · obtain ⟨hfds, hmounts⟩ := h.unused hp
      exact ⟨hfds, Nat.sub_eq_zero_of_le (by omega)⟩
  | startPass =>
    simp only [ModState.step]
    split_ifs with hwork
    · exact { h with running := fun _ => hwork }
    · exact h
  | endPass => exact { h with running := nofun }
  | ioctl => exact h
  | call => exact h

lemma ordered_run (acts : List ModAct) : Ordered (run ModState.step .init acts) :=
  prefix_run (I := fun _ s => Ordered s) ordered_init fun _ a _ _ h => h.step a

/-! ## In order -/

lemma Ordered.sound (h : Ordered s) (hused : s.setup.work = true ∨ s.setup.device = true ∨
    s.setup.fs = true) : s.setup.versions = true ∧ s.setup.infos = true :=
  h.plan.now hused

/-- **Everything is set up in order.**  After every run, wherever calls of `cowfs_init` fail: the
caches exist while the worker is queued or running, while the device or the file system is
registered and while something is mounted; and nothing at all is set up, running or mounted when
the module is gone. -/
theorem set_up_in_order (acts : List ModAct) :
    let s := run ModState.step .init acts
    (s.setup.work = true ∨ s.setup.device = true ∨ s.setup.fs = true ∨ s.running = true ∨
        0 < s.mounts → s.setup.versions = true ∧ s.setup.infos = true) ∧
      (s.phase = .absent → s.setup = .none ∧ s.running = false ∧ s.mounts = 0) := by
  intro s
  have h : Ordered s := ordered_run acts
  refine ⟨?_, fun habsent => ?_⟩
  · rintro (hused | hused | hused | hrunning | hmounts)
    · exact h.sound (.inl hused)
    · exact h.sound (.inr (.inl hused))
    · exact h.sound (.inr (.inr hused))
    · exact h.sound (.inl (h.running hrunning))
    · exact h.sound (.inr (.inr (h.mounted hmounts)))
  · have hnone := h.absent habsent
    refine ⟨hnone, ?_, ?_⟩
    · by_contra hrunning
      have hwork := h.running (by simpa using hrunning)
      rw [hnone] at hwork
      cases hwork
    · by_contra hmounts
      have hfs := h.mounted (by omega)
      rw [hnone] at hfs
      cases hfs

/-! ## The device -/

/-- The instructions that are left are carried out once no pass is under way. -/
lemma run_instrs (hrunning : s.running = false) :
    run ModState.step s (List.replicate s.todo.length .instr) =
      { s with setup := s.setup.performAll s.todo, todo := [] } := by
  obtain ⟨phase, todo, setup, running, fds, mounts⟩ := s
  obtain rfl : running = false := hrunning
  induction todo generalizing setup with
  | nil => rfl
  | cons i todo ih =>
    rw [List.length_cons, List.replicate_succ, run_cons]
    have hnext : ModState.step ⟨phase, i :: todo, setup, false, fds, mounts⟩ .instr =
        ⟨phase, todo, setup.perform i, false, fds, mounts⟩ := by
      simp [ModState.step, ModState.next]
    rw [hnext]
    exact ih (setup.perform i)

/-- A load that fails ends with the module gone, whatever is open. -/
lemma failed_load_ends (hphase : s.phase = .loading false) :
    ∃ as, Finishing as ∧
      (run ModState.step s as).phase = .absent ∧ (run ModState.step s as).fds = s.fds := by
  refine ⟨.endPass :: (List.replicate s.todo.length .instr ++ [.instr]), ?_, ?_⟩
  · intro a ha
    simp only [List.mem_cons, List.mem_append, List.mem_replicate, List.not_mem_nil,
      or_false] at ha
    rcases ha with rfl | ⟨-, rfl⟩ | rfl
    · exact .inr rfl
    · exact .inl rfl
    · exact .inl rfl
  · have hinstrs := run_instrs (s := s.step .endPass) rfl
    change run ModState.step (s.step .endPass) (List.replicate s.todo.length .instr) = _ at hinstrs
    rw [run_cons, run_concat, hinstrs]
    simp [ModState.step, ModState.next, ModState.finish, hphase]

lemma Finishing.along {as : List ModAct} (has : Finishing as) (s : ModState) :
    Along ModState.step (fun _ a => a = .instr ∨ a = .endPass) s as :=
  along_of_forall ModState.step (fun a ha _ => has a ha) s

/-- A load that succeeds ends with the module live, and it stays. -/
lemma stays_live (hphase : s.phase = .loading true ∨ s.phase = .live) {as : List ModAct}
    (has : Finishing as) :
    (run ModState.step s as).phase = .loading true ∨ (run ModState.step s as).phase = .live := by
  refine invariant_run (I := fun s : ModState => s.phase = .loading true ∨ s.phase = .live) ?_
    hphase (has.along s)
  rintro s a hphase (rfl | rfl)
  · simp only [ModState.step, ModState.next]
    split
    · unfold ModState.finish
      rcases hphase with hp | hp <;> simp [hp]
    · split_ifs <;> exact hphase
  · exact hphase

lemma fds_run {as : List ModAct} (has : Finishing as) :
    (run ModState.step s as).fds = s.fds := by
  refine invariant_run (I := fun t : ModState => t.fds = s.fds) ?_ rfl (has.along s)
  rintro t a hfds (rfl | rfl)
  · simp only [ModState.step, ModState.next]
    split
    · unfold ModState.finish
      split <;> exact hfds
    · split_ifs <;> exact hfds
  · exact hfds

lemma secure_iff (h : Ordered s) :
    Secure s ↔ (0 < s.fds → s.phase ≠ .absent ∧ s.phase ≠ .loading false) := by
  constructor
  · intro hsecure hfds
    refine ⟨hsecure [] (by simp [Finishing]) hfds, fun hphase => ?_⟩
    obtain ⟨as, has, habsent, hsame⟩ := failed_load_ends hphase
    exact hsecure as has (hsame ▸ hfds) habsent
  · intro hphase as has hfds
    rw [fds_run has] at hfds
    obtain ⟨habsent, hfailing⟩ := hphase hfds
    have hgood : s.phase = .loading true ∨ s.phase = .live := by
      rcases hp : s.phase with _ | ok | _ | _
      · exact absurd hp habsent
      · rcases ok with _ | _
        · exact absurd hp hfailing
        · exact .inl rfl
      · exact .inr rfl
      · have hzero := (h.unused hp).1
        omega
    rcases stays_live hgood has with hp | hp <;> rw [hp] <;> exact nofun

/-- What is finished after a step is finished before it. -/
lemma Secure.next (hsecure : Secure s) (ha : a = .instr ∨ a = .endPass) : Secure (s.step a) := by
  intro as has
  exact hsecure (a :: as) (List.forall_mem_cons.2 ⟨ha, has⟩)

/-- A step that neither opens the device nor begins or ends a load. -/
lemma secure_of_same (h : Ordered s) (hsecure : Secure s) (h' : Ordered (s.step a))
    (hfds : (s.step a).fds ≤ s.fds) (hphase : (s.step a).phase = s.phase) : Secure (s.step a) := by
  rw [secure_iff h', hphase]
  exact fun hpos => (secure_iff h).1 hsecure (hpos.trans_le hfds)

/-- **One step** keeps the device secure exactly when it does not open it during a load that
fails. -/
lemma secure_step_iff (h : Ordered s) (hsecure : Secure s) (a : ModAct) :
    Secure (s.step a) ↔ OpensLater s a := by
  have h' := h.step a
  have hphase := (secure_iff h).1 hsecure
  cases a with
  | openDevice =>
    rw [secure_iff h', OpensLater]
    simp only [ModState.step]
    split_ifs with hopen
    · constructor
      · intro hgood _ _
        exact (hgood (Nat.succ_pos _)).2
      · intro hlater _
        refine ⟨fun habsent => ?_, hlater trivial hopen.1⟩
        have hdevice := hopen.1
        rw [h.absent habsent] at hdevice
        cases hdevice
    · refine iff_of_true hphase fun _ hdevice hfailing => hopen ⟨hdevice, ?_⟩
      rw [hfailing]
      exact nofun
  | load φ =>
    refine iff_of_true ?_ nofun
    rw [secure_iff h']
    simp only [ModState.step]
    split_ifs with habsent
    · intro hfds
      exact absurd habsent (hphase hfds).1
    · exact hphase
  | unload =>
    refine iff_of_true ?_ nofun
    rw [secure_iff h']
    simp only [ModState.step]
    split_ifs with hidle
    · intro hfds
      change 0 < s.fds at hfds
      omega
    · exact hphase
  | instr => exact iff_of_true (hsecure.next (.inl rfl)) nofun
  | endPass => exact iff_of_true (hsecure.next (.inr rfl)) nofun
  | closeDevice => exact iff_of_true (secure_of_same h hsecure h' (Nat.sub_le _ _) rfl) nofun
  | mount =>
    refine iff_of_true (secure_of_same h hsecure h' ?_ ?_) nofun
    all_goals
      simp only [ModState.step]
      split_ifs <;> rfl
  | startPass =>
    refine iff_of_true (secure_of_same h hsecure h' ?_ ?_) nofun
    all_goals
      simp only [ModState.step]
      split_ifs <;> rfl
  | ioctl | call | umount => exact iff_of_true (secure_of_same h hsecure h' le_rfl rfl) nofun

/-- **When an open device outlives the module.**  For every run: in every state of it the devices
that are open are closed before the module is gone, however its `cowfs_init` or `cowfs_exit` goes
on, exactly when no device is opened while a `cowfs_init` that will fail has it registered. -/
theorem device_secure_iff (acts : List ModAct) :
    (∀ pre post, acts = pre ++ post → Secure (run ModState.step .init pre)) ↔
      Along ModState.step OpensLater .init acts := by
  refine exact_run (I := Ordered) (fun s a h _ _ => h.step a)
    (fun s a h hsecure => secure_step_iff h hsecure a) ordered_init ?_
  exact (secure_iff ordered_init).2 fun hfds => absurd hfds (lt_irrefl 0)

end Cowfs
