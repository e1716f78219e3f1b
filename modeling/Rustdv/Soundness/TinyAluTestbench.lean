import Rustdv.Soundness.TinyAluHandshake

/-! # What the scoreboard of the TinyALU testbench sees

The commands observed are those that were sent, in their order, and the results are what the golden
model predicts for them: a prefix at any time, everything once `wait_idle` has returned. Without
further commands it does return, since every edge takes the handshake forward.
-/

namespace Rustdv.TinyAlu

variable {pins : Pins} {rtl : Rtl} {actions more : List Action} {s t u : Bench} {obs out : List Obs}

/-! ## A run -/

/-- Around a falling edge. -/
def around (polls : List Action) : List Action := [.edge, .edge, .pollDriver, .pollCmdMon, .pollResultMon] ++ polls

/-- `reset`, then one command and `wait_idle`. -/
def boot : List Action :=
  [.readWrite] ++ (List.replicate 5 (around [.pollReset])).flatten ++ [.readWrite] ++ around [.pollReset] ++
    [.send ⟨3, 4, .add⟩, .wait]

/-- The command is driven, -/
def drive : List Action := around [.pollWaitIdle] ++ [.readWrite]

/-- answered and released, and nothing follows it. -/
def release : List Action :=
  around [.pollWaitIdle, .forwardCmd, .forwardResult, .readWrite] ++ around [.pollWaitIdle] ++ around [.pollWaitIdle] ++
    around []

/-- Leftovers of an earlier run, on the pins and in the registers. -/
def stalePins : Pins := ⟨9, 9, 1, true, true⟩

def staleRtl : Rtl := ⟨⟨true, 7⟩, ⟨1, 2, 3, 4, 5, true, true, false, true⟩⟩

/-! ## Observed streams -/

theorem Flight.noticed_prefix (s : Bfm) (flight : Flight) : flight.noticed s <+: flight.cmds := by
  cases flight with
  | running cmd | finished cmd =>
    simp only [noticed, cmds]
    split
    · exact List.prefix_rfl
    · exact List.nil_prefix
  | _ => exact List.nil_prefix

theorem Flight.answered_prefix (s : Bfm) (flight : Flight) : flight.answered s <+: flight.cmds := by
  cases flight with
  | running cmd n =>
    simp only [answered, cmds]
    split
    · exact List.prefix_rfl
    · exact List.nil_prefix
  | finished cmd =>
    simp only [answered, cmds]
    split
    · exact List.nil_prefix
    · exact List.prefix_rfl
  | _ => exact List.nil_prefix

theorem Flight.length_cmds_le (flight : Flight) : flight.cmds.length ≤ 1 := by
  cases flight <;> simp [cmds]

theorem observed_prefix (ran : bench.run (.powerUp pins rtl) actions = some (s, obs)) :
    s.commands <+: sent obs ∧ s.results <+: (sent obs).map predict := by
  obtain ⟨past, flight, sound⟩ := sound_of_run ran
  rw [sound.commands, sound.results, sound.sent, List.append_assoc]
  exact ⟨(List.prefix_append_right_inj past).mpr ((flight.noticed_prefix s.toBfm).trans (List.prefix_append ..)),
    ((List.prefix_append_right_inj past).mpr ((flight.answered_prefix s.toBfm).trans (List.prefix_append ..))).map predict⟩

/-- Nothing is lost, doubled or reordered, and at most one command is between the queue and the monitors. -/
theorem observed_in_order (ran : bench.run (.powerUp pins rtl) actions = some (s, obs)) :
    s.commands <+: sent obs ∧ s.results <+: (sent obs).map predict ∧
      (sent obs).length ≤ s.commands.length + s.driverQ.length + 1 ∧
      (sent obs).length ≤ s.results.length + s.driverQ.length + 1 := by
  obtain ⟨past, flight, sound⟩ := sound_of_run ran
  have single := flight.length_cmds_le
  obtain ⟨commands, results⟩ := observed_prefix ran
  refine ⟨commands, results, ?_, ?_⟩
  · rw [sound.commands, sound.sent]
    simp only [List.length_append]
    omega
  · rw [sound.results, sound.sent]
    simp only [List.length_append, List.length_map]
    omega

theorem observed_in_order_stale :
    ∃ s obs, bench.run (.powerUp stalePins staleRtl) (boot ++ drive) = some (s, obs) ∧
      s.commands <+: sent obs ∧ s.results <+: (sent obs).map predict ∧
        (sent obs).length ≤ s.commands.length + s.driverQ.length + 1 ∧
        (sent obs).length ≤ s.results.length + s.driverQ.length + 1 := by
  refine ⟨_, _, rfl, ?_⟩
  exact @observed_in_order stalePins staleRtl (boot ++ drive) _ _ rfl

/-- Only the ReadWrite phase changes the pins. -/
theorem Bench.pins_of_step {a : Action} (stepped : bench.step s a = some (t, out)) :
    t.pins = s.pins ∨ s.writes ≠ [] ∧ t.pins = s.writes.foldl Pins.apply s.pins := by
  cases a with
  | send | wait | pollCmdMon | pollResultMon =>
    obtain ⟨-, same⟩ := Option.ite_none_right_eq_some.mp stepped
    cases same
    exact .inl rfl
  | pollDriver =>
    obtain ⟨-, same⟩ := Option.ite_none_right_eq_some.mp stepped
    cases same
    left
    unfold Bench.pollDriver
    split
    · split <;> rfl
    · split <;> rfl
  | pollReset =>
    obtain ⟨next, polled, same⟩ := Option.map_eq_some_iff.mp stepped
    cases same
    rcases Bench.pollReset_cases polled with ⟨-, rfl⟩ | ⟨-, rfl⟩ | ⟨left, -, rfl⟩ <;> exact .inl rfl
  | pollWaitIdle =>
    obtain ⟨at_, rfl⟩ := Bench.pollWaitIdle_cases stepped
    exact .inl rfl
  | forwardCmd | forwardResult =>
    simp only [bench, Bench.step] at stepped
    split at stepped
    · cases stepped
    · cases stepped
      exact .inl rfl
  | readWrite =>
    obtain ⟨blocked, same⟩ := Option.ite_none_left_eq_some.mp stepped
    simp only [Bool.or_eq_true, List.isEmpty_iff, not_or] at blocked
    cases same
    exact .inr ⟨blocked.1, rfl⟩
  | edge =>
    obtain ⟨-, same⟩ := Option.ite_none_left_eq_some.mp stepped
    left
    split at same <;> cases same <;> rfl

/-- After reset, the pins are held from the raise of the start signal until the design is done. -/
theorem operands_held {a : Action} (ran : bench.run (.powerUp pins rtl) actions = some (s, obs))
    (released : s.reset = .finished) (start : s.pins.start = true) (stepped : bench.step s a = some (t, out)) :
    t.pins = s.pins ∨ s.rtl.done s.pins = true ∧ t.pins = { s.pins with start := false } := by
  obtain ⟨past, flight, sound⟩ := sound_of_run ran
  rcases Bench.pins_of_step stepped with same | ⟨scheduled, applied⟩
  · exact .inl same
  have resets := sound.resets
  cases sound.place with
  | booting => exact absurd (released.symm.trans resets) (by simp)
  | clearing _ _ _ writes | running _ _ _ writes | settling _ _ _ writes => exact absurd writes scheduled
  | none low | issued _ low => exact absurd (low.symm.trans start) (by decide)
  | @finished cmd _ held working writes =>
    refine .inr ⟨?_, by rw [applied, writes]; rfl⟩
    rw [held, working.done_eq (Nat.le_refl _)]
    exact decide_eq_true rfl

/-- The logs of the scoreboard only grow. -/
theorem Bench.logs_of_step {a : Action} (stepped : bench.step s a = some (t, out)) :
    s.cmdLog <+: t.cmdLog ∧ s.resultLog <+: t.resultLog := by
  have kept (cmdLog : t.cmdLog = s.cmdLog) (resultLog : t.resultLog = s.resultLog) :
      s.cmdLog <+: t.cmdLog ∧ s.resultLog <+: t.resultLog := by
    rw [cmdLog, resultLog]
    exact ⟨List.prefix_rfl, List.prefix_rfl⟩
  cases a with
  | send | wait | pollCmdMon | pollResultMon =>
    obtain ⟨-, same⟩ := Option.ite_none_right_eq_some.mp stepped
    cases same
    exact kept rfl rfl
  | pollDriver =>
    obtain ⟨-, same⟩ := Option.ite_none_right_eq_some.mp stepped
    cases same
    refine kept ?_ ?_
    all_goals
      unfold Bench.pollDriver
      split
      · split <;> rfl
      · split <;> rfl
  | pollReset =>
    obtain ⟨next, polled, same⟩ := Option.map_eq_some_iff.mp stepped
    cases same
    rcases Bench.pollReset_cases polled with ⟨-, rfl⟩ | ⟨-, rfl⟩ | ⟨left, -, rfl⟩ <;> exact kept rfl rfl
  | pollWaitIdle =>
    obtain ⟨at_, rfl⟩ := Bench.pollWaitIdle_cases stepped
    exact kept rfl rfl
  | forwardCmd =>
    simp only [bench, Bench.step] at stepped
    split at stepped
    · cases stepped
    · cases stepped
      exact ⟨List.prefix_append .., List.prefix_rfl⟩
  | forwardResult =>
    simp only [bench, Bench.step] at stepped
    split at stepped
    · cases stepped
    · cases stepped
      exact ⟨List.prefix_rfl, List.prefix_append ..⟩
  | readWrite =>
    obtain ⟨-, same⟩ := Option.ite_none_left_eq_some.mp stepped
    cases same
    exact kept rfl rfl
  | edge =>
    obtain ⟨-, same⟩ := Option.ite_none_left_eq_some.mp stepped
    split at same <;> cases same <;> exact kept rfl rfl

theorem Bench.logs_of_run (ran : bench.run s more = some (t, out)) :
    s.cmdLog <+: t.cmdLog ∧ s.resultLog <+: t.resultLog := by
  induction more generalizing s out with
  | nil =>
    cases ran
    exact ⟨List.prefix_rfl, List.prefix_rfl⟩
  | cons a more ih =>
    obtain ⟨mid, first, later, stepped, rest, rfl⟩ := bench.run_cons_eq_some_iff.mp ran
    obtain ⟨cmdLog, resultLog⟩ := Bench.logs_of_step stepped
    exact ⟨cmdLog.trans (ih rest).1, resultLog.trans (ih rest).2⟩

theorem operands_held_stale :
    ∃ s obs t, bench.run (.powerUp stalePins staleRtl) (boot ++ drive) = some (s, obs) ∧
      bench.step s .edge = some (t, []) ∧
      (t.pins = s.pins ∨ s.rtl.done s.pins = true ∧ t.pins = { s.pins with start := false }) := by
  refine ⟨_, _, _, rfl, rfl, ?_⟩
  exact @operands_held stalePins staleRtl (boot ++ drive) _ _ _ _ .edge rfl rfl rfl rfl

theorem logs_at_idle (ran : bench.run (.powerUp pins rtl) actions = some (s, obs)) (undisturbed : Undisturbed obs)
    (returned : bench.step s .pollWaitIdle = some (t, [.idle])) :
    t.cmdLog = sent obs ∧ t.resultLog = (sent obs).map predict := by
  obtain ⟨past, flight, sound⟩ := sound_of_run ran
  obtain ⟨waits, rfl⟩ : s.waitIdle = some (.last true) ∧ t = { s with waitIdle := none } := by
    simp only [bench, Bench.step, Bench.pollWaitIdle] at returned
    split at returned
    · split at returned <;> cases returned
    · next waits =>
      cases returned
      exact ⟨waits, rfl⟩
    · cases returned
  obtain ⟨unsent, rfl⟩ := (sound.idle undisturbed _ waits).last true rfl
  have commands := sound.commands
  have results := sound.results
  have all := sound.sent
  cases sound.place with
  | none _ _ cmdQ resultQ =>
    simp only [Bench.commands, Bench.results, cmdQ, resultQ, Flight.noticed, Flight.answered, Flight.cmds, unsent,
      List.append_nil] at commands results all
    rw [all]
    exact ⟨commands, results⟩

/-! ## Progress -/

/-- The edges until everything sent is answered and released. -/
def edgesFor (cmds : List AluCommand) : ℕ := 2 + (cmds.map AluCommand.edges).sum

theorem Sound.charge_le {past : List AluCommand} {flight : Flight} (sound : Sound s obs past flight) :
    s.charge flight ≤ edgesFor ((TinyAlu.sent obs).drop s.results.length) := by
  have all := sound.sent
  have results := sound.results
  unfold edgesFor
  -- what is under way is not answered, or it costs no more than its release
  have dropped (front back : List AluCommand) (split : TinyAlu.sent obs = front ++ back)
      (length : s.results.length = front.length) : (TinyAlu.sent obs).drop s.results.length = back := by
    rw [split, length, List.drop_left]
  have queued (cmd : List AluCommand) (unanswered : flight.answered s.toBfm = []) (one : flight.cmds = cmd) :
      (TinyAlu.sent obs).drop s.results.length = cmd ++ s.driverQ := by
    refine dropped past _ (by rw [all, one, List.append_assoc]) ?_
    rw [results, unanswered, List.append_nil, List.length_map]
  cases flight with
  | booting | clearing => exact Nat.zero_le _
  | none =>
    rw [queued [] rfl rfl]
    simp only [Bench.charge, List.nil_append]
    split
    · exact Nat.zero_le _
    · split
      · omega
      · split <;> omega
  | issued cmd =>
    rw [queued [cmd] rfl rfl]
    simp [Bench.charge]
  | settling =>
    rw [queued [] rfl rfl]
    exact Nat.le_refl _
  | running cmd n =>
    by_cases answered : n = cmd.op.latency ∧ s.clk = false ∧ s.resultDue = false
    · rw [dropped (past ++ [cmd]) s.driverQ all (by rw [results]; simp [Flight.answered, answered])]
      simp [Bench.charge, AluCommand.edges, answered]
      omega
    · rw [queued [cmd] (if_neg answered) rfl]
      simp only [Bench.charge, List.cons_append, List.nil_append, List.map_cons, List.sum_cons]
      split <;> omega
  | finished cmd =>
    cases due : s.resultDue with
    | false =>
      rw [dropped (past ++ [cmd]) s.driverQ all (by rw [results]; simp [Flight.answered, due])]
      exact Nat.le_refl _
    | true =>
      rw [queued [cmd] (by simp [Flight.answered, due]) rfl]
      simp [Bench.charge]

theorem Sound.spent {past : List AluCommand} {flight : Flight} (sound : Sound s obs past flight)
    (ran : bench.run s more = some (t, out)) (unsent : ∀ cmd, .send cmd ∉ more) :
    ∃ past flight', t.charge flight' ≤ s.charge flight - more.count .edge ∧ Sound t (obs ++ out) past flight' := by
  induction more generalizing s obs out past flight with
  | nil =>
    cases ran
    rw [List.append_nil]
    exact ⟨past, flight, Nat.le_refl _, sound⟩
  | cons a more ih =>
    obtain ⟨mid, first, later, stepped, rest, rfl⟩ := bench.run_cons_eq_some_iff.mp ran
    obtain ⟨past', flight', charge, kept⟩ := sound.step stepped
    obtain ⟨past'', flight'', charge', kept'⟩ := ih kept rest fun cmd member => unsent cmd (List.mem_cons_of_mem a member)
    rw [List.append_assoc] at kept'
    refine ⟨past'', flight'', ?_, kept'⟩
    have charge := charge fun cmd is => unsent cmd (is ▸ List.mem_cons_self)
    rw [List.count_cons]
    simp only [beq_iff_eq]
    omega

theorem AluCommand.edges_pos (cmd : AluCommand) : 0 < cmd.edges := by
  unfold edges
  omega

/-- Nothing is under way and nothing is queued. -/
theorem Sound.spentAll {past : List AluCommand} {flight : Flight} (sound : Sound s obs past flight)
    (spent : s.charge flight = 0) : s.driverQ = [] ∧ flight.cmds = [] ∧ flight.noticed s.toBfm = [] ∧
      flight.answered s.toBfm = [] ∧ (s.reset = .finished → flight = .none) := by
  have resets := sound.resets
  have booted (early : s.reset = .awaiting 5 false) : s.reset ≠ .finished := by
    rw [early]
    exact fun is => by cases is
  cases flight with
  | booting | clearing =>
    exact ⟨(sound.resetting (booted resets)).1, rfl, rfl, rfl, fun finished => absurd finished (booted resets)⟩
  | none =>
    refine ⟨?_, rfl, rfl, rfl, fun _ => rfl⟩
    cases queued : s.driverQ with
    | nil => rfl
    | cons cmd rest =>
      have pos := cmd.edges_pos
      simp only [Bench.charge, queued, List.cons_ne_nil, ↓reduceIte, List.map_cons, List.sum_cons] at spent
      omega
  | issued cmd =>
    have pos := cmd.edges_pos
    simp only [Bench.charge] at spent
    omega
  | running cmd n =>
    cases sound.place with
    | running le =>
      simp only [Bench.charge, AluCommand.edges] at spent
      omega
  | finished | settling =>
    simp only [Bench.charge] at spent
    omega

theorem sent_of_step {a : Action} (stepped : bench.step s a = some (t, out)) (unsent : ∀ cmd, a ≠ .send cmd) :
    sent out = [] := by
  cases a with
  | send cmd => exact absurd rfl (unsent cmd)
  | wait | pollDriver | pollCmdMon | pollResultMon =>
    obtain ⟨-, same⟩ := Option.ite_none_right_eq_some.mp stepped
    cases same
    rfl
  | pollReset =>
    obtain ⟨next, -, same⟩ := Option.map_eq_some_iff.mp stepped
    cases same
    rfl
  | pollWaitIdle =>
    simp only [bench, Bench.step, Bench.pollWaitIdle] at stepped
    split at stepped
    · split at stepped <;> cases stepped <;> rfl
    · cases stepped
      rfl
    · cases stepped
  | forwardCmd | forwardResult =>
    simp only [bench, Bench.step] at stepped
    split at stepped
    · cases stepped
    · cases stepped
      rfl
  | readWrite | edge =>
    obtain ⟨-, same⟩ := Option.ite_none_left_eq_some.mp stepped
    cases same
    rfl

theorem sent_of_run (ran : bench.run s more = some (t, out)) (unsent : ∀ cmd, .send cmd ∉ more) : sent out = [] := by
  induction more generalizing s out with
  | nil =>
    cases ran
    rfl
  | cons a more ih =>
    obtain ⟨mid, first, later, stepped, rest, rfl⟩ := bench.run_cons_eq_some_iff.mp ran
    rw [sent_append, sent_of_step stepped fun cmd is => unsent cmd (is ▸ List.mem_cons_self),
      ih rest fun cmd member => unsent cmd (List.mem_cons_of_mem a member), List.append_nil]

/-- Once `wait_idle` has returned, everything sent is logged with the predicted results, for as long as the clock
goes on. -/
theorem logs_of_idle (ran : bench.run (.powerUp pins rtl) actions = some (s, obs)) (undisturbed : Undisturbed obs)
    (returned : bench.step s .pollWaitIdle = some (t, [.idle])) (goes : bench.run t more = some (u, out))
    (unsent : ∀ cmd, .send cmd ∉ more) : u.cmdLog = sent obs ∧ u.resultLog = (sent obs).map predict := by
  obtain ⟨cmdLog, resultLog⟩ := logs_at_idle ran undisturbed returned
  have whole := bench.run_append ran (bench.run_cons_eq_some_iff.mpr ⟨t, _, _, returned, goes, rfl⟩)
  obtain ⟨commands, results⟩ := observed_prefix whole
  obtain ⟨grown, grown'⟩ := Bench.logs_of_run goes
  rw [cmdLog] at grown
  rw [resultLog] at grown'
  have all : sent (obs ++ ([.idle] ++ out)) = sent obs := by
    rw [sent_append, sent_append, sent_of_run goes unsent]
    exact List.append_nil _
  rw [all] at commands results
  have cmds := ((List.prefix_append u.cmdLog u.cmdQ).trans commands).length_le
  have answers := ((List.prefix_append u.resultLog u.resultQ).trans results).length_le
  exact ⟨(grown.eq_of_length_le cmds).symm, (grown'.eq_of_length_le answers).symm⟩

/-- Without further commands, everything sent is observed and answered after so many edges. -/
theorem answered_in_time (ran : bench.run (.powerUp pins rtl) actions = some (s, obs))
    (goes : bench.run s more = some (t, out)) (unsent : ∀ cmd, .send cmd ∉ more)
    (enough : edgesFor ((sent obs).drop s.results.length) ≤ more.count .edge) :
    t.commands = sent obs ∧ t.results = (sent obs).map predict := by
  obtain ⟨past, flight, sound⟩ := sound_of_run ran
  obtain ⟨past', flight', spent, kept⟩ := sound.spent goes unsent
  have charge := sound.charge_le
  obtain ⟨empty, cmds, noticed, answered, -⟩ := kept.spentAll (by omega)
  have all := kept.sent
  have commands := kept.commands
  have results := kept.results
  rw [sent_append, sent_of_run goes unsent, empty, cmds, List.append_nil, List.append_nil, List.append_nil] at all
  rw [noticed, List.append_nil] at commands
  rw [answered, List.append_nil] at results
  rw [all]
  exact ⟨commands, results⟩

theorem answered_in_time_stale :
    ∃ s obs t, bench.run (.powerUp stalePins staleRtl) boot = some (s, obs) ∧
      bench.run s (drive ++ release) = some (t, []) ∧
      t.commands = sent obs ∧ t.results = (sent obs).map predict := by
  refine ⟨_, _, _, rfl, rfl, ?_⟩
  exact @answered_in_time stalePins staleRtl boot (drive ++ release) _ _ _ _ rfl rfl (by simp [drive, release, around])
    (by decide)

/-- The edges until `wait_idle` returns, if it always finds the handshake idle. -/
def IdleAt.edges (clk : Bool) : IdleAt → ℕ
  | .counting idleEdges due => 2 * (3 - idleEdges) - if clk then 1 else if due then 2 else 0
  | .last due => 2 - if clk then 1 else if due then 2 else 0

theorem IdleAt.edges_le (clk : Bool) (at_ : IdleAt) : at_.edges clk ≤ 6 := by
  cases at_ <;> simp only [edges] <;> omega

/-- Only `wait_idle` itself and the clock move it. -/
theorem Bench.idle_of_step {a : Action} (stepped : bench.step s a = some (t, out)) :
    a = .wait ∧ s.waitIdle = none ∨ a = .pollWaitIdle ∨
      a = .edge ∧ s.waitIdle.any IdleAt.due = false ∧ (t = s.fall ∧ s.clk = true ∨ t = s.rise ∧ s.clk = false) ∨
        a ≠ .edge ∧ t.waitIdle = s.waitIdle ∧ t.clk = s.clk := by
  have unmoved (still : a ≠ .edge) (waitIdle : t.waitIdle = s.waitIdle) (clk : t.clk = s.clk) :
      a = .wait ∧ s.waitIdle = none ∨ a = .pollWaitIdle ∨
        a = .edge ∧ s.waitIdle.any IdleAt.due = false ∧ (t = s.fall ∧ s.clk = true ∨ t = s.rise ∧ s.clk = false) ∨
          a ≠ .edge ∧ t.waitIdle = s.waitIdle ∧ t.clk = s.clk := .inr (.inr (.inr ⟨still, waitIdle, clk⟩))
  cases a with
  | pollWaitIdle => exact .inr (.inl rfl)
  | wait =>
    obtain ⟨⟨-, idle⟩, -⟩ := Option.ite_none_right_eq_some.mp stepped
    exact .inl ⟨rfl, idle⟩
  | send | pollCmdMon | pollResultMon =>
    obtain ⟨-, moved⟩ := Option.ite_none_right_eq_some.mp stepped
    cases moved
    exact unmoved (by simp) rfl rfl
  | pollDriver =>
    obtain ⟨-, moved⟩ := Option.ite_none_right_eq_some.mp stepped
    cases moved
    refine unmoved (by simp) ?_ ?_
    all_goals
      unfold Bench.pollDriver
      split
      · split <;> rfl
      · split <;> rfl
  | pollReset =>
    obtain ⟨next, polled, moved⟩ := Option.map_eq_some_iff.mp stepped
    cases moved
    rcases Bench.pollReset_cases polled with ⟨-, rfl⟩ | ⟨-, rfl⟩ | ⟨left, -, rfl⟩ <;> exact unmoved (by simp) rfl rfl
  | forwardCmd | forwardResult =>
    simp only [bench, Bench.step] at stepped
    split at stepped
    · cases stepped
    · cases stepped
      exact unmoved (by simp) rfl rfl
  | readWrite =>
    obtain ⟨-, moved⟩ := Option.ite_none_left_eq_some.mp stepped
    cases moved
    exact unmoved (by simp) rfl rfl
  | edge =>
    obtain ⟨blocked, moved⟩ := Option.ite_none_left_eq_some.mp stepped
    simp only [Bool.or_eq_true, not_or, Bool.not_eq_true] at blocked
    have idle := blocked.2
    simp only [Bench.busy, Bool.or_eq_false_iff] at idle
    refine .inr (.inr (.inl ⟨rfl, idle.1.1.2, ?_⟩))
    cases clk : s.clk with
    | true =>
      rw [clk] at moved
      cases moved
      exact .inl ⟨rfl, rfl⟩
    | false =>
      rw [clk] at moved
      cases moved
      exact .inr ⟨rfl, rfl⟩

theorem Bench.waits_of_step {a : Action} (stepped : bench.step s a = some (t, out)) (waits : s.waitIdle ≠ none)
    (unreturned : .idle ∉ out) : t.waitIdle ≠ none := by
  rcases Bench.idle_of_step stepped with ⟨-, idle⟩ | rfl | ⟨-, -, ⟨rfl, -⟩ | ⟨rfl, -⟩⟩ | ⟨-, same, -⟩
  · exact absurd idle waits
  · simp only [bench, Bench.step, Bench.pollWaitIdle] at stepped
    split at stepped
    · split at stepped
      · cases stepped
        simp
      · cases stepped
        simp
    · cases stepped
      exact absurd List.mem_cons_self unreturned
    · cases stepped
  · simpa [Bench.fall] using waits
  · exact waits
  · rwa [same]

/-- The edges until `wait_idle` returns, if it always finds the handshake idle. -/
def Bench.idleEdges (s : Bench) : ℕ := (s.waitIdle.map (IdleAt.edges s.clk)).getD 0

theorem Bench.idleEdges_le (s : Bench) : s.idleEdges ≤ 6 := by
  unfold idleEdges
  cases s.waitIdle with
  | none => exact Nat.zero_le _
  | some at_ => exact at_.edges_le s.clk

/-- With nothing left to answer, `wait_idle` does find it idle. -/
theorem Sound.idleEdges_step {past : List AluCommand} {flight : Flight} {a : Action} (sound : Sound s obs past flight)
    (spent : s.charge flight = 0) (stepped : bench.step s a = some (t, out)) (waits : s.waitIdle ≠ none)
    (unreturned : .idle ∉ out) : t.idleEdges + (if a = .edge then 1 else 0) ≤ s.idleEdges := by
  have released : s.reset = .finished := by
    by_contra unfinished
    exact waits (sound.resetting unfinished).2
  obtain ⟨empty, -, -, -, rest⟩ := sound.spentAll spent
  obtain rfl := rest released
  obtain ⟨at_, waiting⟩ := Option.ne_none_iff_exists'.mp waits
  have bound := sound.bound
  simp only [Bench.idleEdges]
  rcases Bench.idle_of_step stepped with ⟨-, idle⟩ | rfl | ⟨rfl, undue, ⟨rfl, high⟩ | ⟨rfl, low⟩⟩ | ⟨still, same, clk⟩
  · exact absurd idle waits
  · cases sound.place with
    | none start quiet =>
      have undone := quiet.done_eq s.pins
      simp only [bench, Bench.step, Bench.pollWaitIdle] at stepped
      split at stepped
      · next n waiting =>
        have bound := bound n true waiting
        simp only [empty, start, undone, List.isEmpty_nil, Bool.not_false, Bool.and_self, ↓reduceIte] at stepped
        cases stepped
        simp only [waiting, Option.map_some, Option.getD_some]
        split <;> cases s.clk <;> simp [IdleAt.edges] <;> omega
      · cases stepped
        exact absurd List.mem_cons_self unreturned
      · cases stepped
  · cases at_ with
    | counting n due =>
      have bound := bound n due waiting
      simp [Bench.fall, waiting, high, IdleAt.edges, IdleAt.wake]
      omega
    | last due => simp [Bench.fall, waiting, high, IdleAt.edges, IdleAt.wake]
  · rw [waiting] at undue
    cases at_ with
    | counting n due =>
      have bound := bound n due waiting
      obtain rfl : due = false := undue
      simp [Bench.rise, waiting, low, IdleAt.edges]
      omega
    | last due =>
      obtain rfl : due = false := undue
      simp [Bench.rise, waiting, low, IdleAt.edges]
  · rw [same, clk, if_neg still]
    exact Nat.le_refl _

/-- What `wait_idle` is still away from its return. -/
def Bench.idleCharge (s : Bench) (flight : Flight) : ℕ :=
  if 0 < s.charge flight then s.charge flight + 6 else s.idleEdges

theorem Bench.idleCharge_le (s : Bench) (flight : Flight) : s.idleCharge flight ≤ s.charge flight + 6 := by
  unfold idleCharge
  split
  · exact Nat.le_refl _
  · exact Nat.le_add_left_of_le s.idleEdges_le

theorem Sound.idleCharge_step {past : List AluCommand} {flight flight' : Flight} {a : Action}
    (sound : Sound s obs past flight) (stepped : bench.step s a = some (t, out)) (waits : s.waitIdle ≠ none)
    (unreturned : .idle ∉ out) (charge : t.charge flight' ≤ s.charge flight - if a = .edge then 1 else 0) :
    t.idleCharge flight' + (if a = .edge then 1 else 0) ≤ s.idleCharge flight := by
  have bound := t.idleEdges_le
  have single : (if a = .edge then 1 else 0) ≤ 1 := by split <;> decide
  have closer (spent : s.charge flight = 0) := sound.idleEdges_step spent stepped waits unreturned
  generalize (if a = .edge then 1 else 0) = edge at *
  unfold Bench.idleCharge
  by_cases spent : s.charge flight = 0
  · rw [if_neg (by omega), if_neg (by omega)]
    exact closer spent
  · rw [if_pos (by omega : 0 < s.charge flight)]
    split <;> omega

theorem Sound.unreturned {past : List AluCommand} {flight : Flight} (sound : Sound s obs past flight)
    (ran : bench.run s more = some (t, out)) (unsent : ∀ cmd, .send cmd ∉ more) (waits : s.waitIdle ≠ none)
    (unreturned : .idle ∉ out) : more.count .edge ≤ s.idleCharge flight := by
  induction more generalizing s obs out past flight with
  | nil => exact Nat.zero_le _
  | cons a more ih =>
    obtain ⟨mid, first, later, stepped, rest, rfl⟩ := bench.run_cons_eq_some_iff.mp ran
    obtain ⟨before, after⟩ := not_or.mp (List.mem_append.not.mp unreturned)
    obtain ⟨past', flight', charge, kept⟩ := sound.step stepped
    have charge := charge fun cmd is => unsent cmd (is ▸ List.mem_cons_self)
    have closer := sound.idleCharge_step stepped waits before charge
    have spent := ih kept rest (fun cmd member => unsent cmd (List.mem_cons_of_mem a member))
      (Bench.waits_of_step stepped waits before) after
    rw [List.count_cons]
    simp only [beq_iff_eq]
    omega

/-! ## Schedules -/

/-- The polls and hand-overs before the next edge. -/
def Bench.chores (s : Bench) : ℕ :=
  s.driverDue.toNat + 2 * s.cmdDue.toNat + 2 * s.resultDue.toNat + s.reset.due.toNat +
    (s.waitIdle.any IdleAt.due).toNat + s.cmdQ.length + s.resultQ.length

/-- Whoever is woken can be polled. -/
theorem Bench.exists_chore (busy : s.busy = true) :
    ∃ a t out, bench.step s a = some (t, out) ∧ (∀ cmd, a ≠ .send cmd) ∧ t.chores < s.chores := by
  simp only [Bench.busy, Bool.or_eq_true, Bool.not_eq_true', List.isEmpty_eq_false_iff] at busy
  rcases busy with (((((driver | cmd) | result) | reset) | idle) | cmdQ) | resultQ
  · refine ⟨.pollDriver, s.pollDriver, [], if_pos driver, by simp, ?_⟩
    have same : s.pollDriver.chores = { s with driverDue := false }.chores := by
      unfold Bench.pollDriver
      split
      · split <;> rfl
      · split <;> rfl
    rw [same]
    simp [Bench.chores, driver]
  · refine ⟨.pollCmdMon, { s with toBfm := s.toBfm.pollCmdMon }, [], if_pos cmd, by simp, ?_⟩
    have single (o : Option AluCommand) : o.toList.length ≤ 1 := by
      cases o <;> simp
    simp only [Bench.chores, Bfm.pollCmdMon, cmd, List.length_append]
    have := single (if s.pins.start && !s.prevStart then
      (Ops.fromU64 s.pins.op.toNat).map (⟨s.pins.a, s.pins.b, ·⟩) else none)
    simp only [Bool.toNat_false, Bool.toNat_true]
    omega
  · refine ⟨.pollResultMon, { s with toBfm := s.toBfm.pollResultMon }, [], if_pos result, by simp, ?_⟩
    have single (o : Option AluResult) : o.toList.length ≤ 1 := by
      cases o <;> simp
    simp only [Bench.chores, Bfm.pollResultMon, result, List.length_append]
    have := single (if s.pins.start && s.rtl.done s.pins then some ⟨s.rtl.result s.pins⟩ else none)
    simp only [Bool.toNat_false, Bool.toNat_true]
    omega
  · cases waiting : s.reset with
    | finished =>
      rw [waiting] at reset
      cases reset
    | awaiting left due =>
      rw [waiting] at reset
      obtain rfl : due = true := reset
      rcases left with - | - | left
      · refine ⟨.pollReset, { s with reset := .finished, cmdQ := [], resultQ := [] }, [],
          by simp [bench, Bench.step, Bench.pollReset, waiting], by simp, ?_⟩
        simp [Bench.chores, waiting, ResetAt.due]
        omega
      · refine ⟨.pollReset, { s with reset := .awaiting 0 false, writes := s.writes ++ [.resetN true] }, [],
          by simp [bench, Bench.step, Bench.pollReset, waiting], by simp, ?_⟩
        simp [Bench.chores, waiting, ResetAt.due]
      · refine ⟨.pollReset, { s with reset := .awaiting (left + 1) false }, [],
          by simp [bench, Bench.step, Bench.pollReset, waiting], by simp, ?_⟩
        simp [Bench.chores, waiting, ResetAt.due]
  · cases waiting : s.waitIdle with
    | none =>
      rw [waiting] at idle
      cases idle
    | some at_ =>
      rw [waiting] at idle
      have polled : ∃ at_ out, s.pollWaitIdle = some ({ s with waitIdle := at_ }, out) ∧
          at_.any IdleAt.due = false := by
        cases at_ with
        | counting n due =>
          obtain rfl : due = true := idle
          simp only [Bench.pollWaitIdle, waiting]
          split
          · refine ⟨_, _, rfl, ?_⟩
            split <;> rfl
          · exact ⟨_, _, rfl, rfl⟩
        | last due =>
          obtain rfl : due = true := idle
          exact ⟨none, [.idle], by simp [Bench.pollWaitIdle, waiting], rfl⟩
      obtain ⟨next, out, polled, undue⟩ := polled
      refine ⟨.pollWaitIdle, _, out, polled, by simp, ?_⟩
      have due : (Option.any IdleAt.due (some at_)).toNat = 1 := by rw [idle]; rfl
      simp only [Bench.chores, waiting, undue, due, Bool.toNat_false]
      omega
  · obtain ⟨head, rest, front⟩ := List.exists_cons_of_ne_nil cmdQ
    refine ⟨.forwardCmd, { s with cmdQ := rest, cmdLog := s.cmdLog ++ [head] }, [],
      by simp [bench, Bench.step, front], by simp, ?_⟩
    simp [Bench.chores, front]
  · obtain ⟨head, rest, front⟩ := List.exists_cons_of_ne_nil resultQ
    refine ⟨.forwardResult, { s with resultQ := rest, resultLog := s.resultLog ++ [head] }, [],
      by simp [bench, Bench.step, front], by simp, ?_⟩
    simp [Bench.chores, front]

/-- The bench is never stuck: the next edge can be reached. -/
theorem Bench.exists_edge (s : Bench) :
    ∃ more t out, bench.run s more = some (t, out) ∧ (∀ cmd, .send cmd ∉ more) ∧ more.count .edge = 1 := by
  induction chores : s.chores using Nat.strongRecOn generalizing s with
  | _ chores ih =>
    cases busy : s.busy with
    | true =>
      obtain ⟨a, mid, first, stepped, unsent, fewer⟩ := Bench.exists_chore busy
      obtain ⟨more, t, out, goes, unsent', one⟩ := ih _ (by omega) mid rfl
      by_cases edge : a = .edge
      · refine ⟨[a], mid, first, by rw [bench.run_singleton, stepped], ?_, by rw [edge]; rfl⟩
        simpa [eq_comm] using unsent
      · refine ⟨a :: more, t, first ++ out, bench.run_cons_eq_some_iff.mpr ⟨mid, first, out, stepped, goes, rfl⟩, ?_, ?_⟩
        · intro cmd member
          rcases List.mem_cons.mp member with is | member
          · exact unsent cmd is.symm
          · exact unsent' cmd member
        · rw [List.count_cons_of_ne edge, one]
    | false =>
      by_cases unwritten : s.writes = []
      · exact ⟨[.edge], if s.clk then s.fall else s.rise, [],
          by rw [bench.run_singleton]; simp [bench, Bench.step, busy, unwritten], by simp, rfl⟩
      · let mid : Bench := { s with pins := s.writes.foldl Pins.apply s.pins, writes := [] }
        refine ⟨[.readWrite, .edge], if mid.clk then mid.fall else mid.rise, [],
          bench.run_cons_eq_some_iff.mpr ⟨mid, [], [], ?_, ?_, rfl⟩, by simp, rfl⟩
        · simp [bench, Bench.step, busy, unwritten, mid]
        · have busy : mid.busy = false := busy
          have unwritten : mid.writes = [] := rfl
          rw [bench.run_singleton]
          simp [bench, Bench.step, busy, unwritten]

theorem Bench.exists_edges (s : Bench) (n : ℕ) :
    ∃ more t out, bench.run s more = some (t, out) ∧ (∀ cmd, .send cmd ∉ more) ∧ more.count .edge = n := by
  induction n with
  | zero => exact ⟨[], s, [], rfl, by simp, rfl⟩
  | succ n ih =>
    obtain ⟨front, mid, first, goes, unsent, edges⟩ := ih
    obtain ⟨back, t, later, goes', unsent', one⟩ := mid.exists_edge
    refine ⟨front ++ back, t, first ++ later, bench.run_append goes goes', ?_, by rw [List.count_append, edges, one]⟩
    intro cmd member
    rcases List.mem_append.mp member with member | member
    · exact unsent cmd member
    · exact unsent' cmd member

/-- Without further commands `wait_idle` returns after so many edges, and they can be reached. -/
theorem wait_idle_returns (ran : bench.run (.powerUp pins rtl) actions = some (s, obs)) (waits : s.waitIdle ≠ none) :
    (∀ more t out, bench.run s more = some (t, out) → (∀ cmd, .send cmd ∉ more) →
      edgesFor ((sent obs).drop s.results.length) + 6 < more.count .edge → .idle ∈ out) ∧
      ∃ more t out, bench.run s more = some (t, out) ∧ (∀ cmd, .send cmd ∉ more) ∧ .idle ∈ out := by
  have returns (more : List Action) (t : Bench) (out : List Obs) (goes : bench.run s more = some (t, out))
      (unsent : ∀ cmd, .send cmd ∉ more)
      (enough : edgesFor ((sent obs).drop s.results.length) + 6 < more.count .edge) : .idle ∈ out := by
    obtain ⟨past, flight, sound⟩ := sound_of_run ran
    have charge := sound.charge_le
    have idle := s.idleCharge_le flight
    by_contra unreturned
    have := sound.unreturned goes unsent waits unreturned
    omega
  obtain ⟨more, t, out, goes, unsent, edges⟩ := s.exists_edges (edgesFor ((sent obs).drop s.results.length) + 7)
  exact ⟨returns, more, t, out, goes, unsent, returns more t out goes unsent (by omega)⟩

theorem wait_idle_returns_stale :
    ∃ s obs, bench.run (.powerUp stalePins staleRtl) boot = some (s, obs) ∧
      ∃ more t out, bench.run s more = some (t, out) ∧ (∀ cmd, .send cmd ∉ more) ∧ .idle ∈ out := by
  refine ⟨_, _, rfl, ?_⟩
  exact (@wait_idle_returns stalePins staleRtl boot _ _ rfl (by decide)).2

end Rustdv.TinyAlu
