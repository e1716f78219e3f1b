import Mathlib.Algebra.GroupWithZero.Nat
import Rustdv.Soundness.TinyAluPipeline

/-! # The handshake of the TinyALU testbench

At most one command is under way. It is taken from the queue, scheduled, held on the ports for its
latency, answered and released, and the edge after that leaves the design quiet. Whatever order the
loops are polled in, the command monitor notices every command once and the result monitor every answer
once; `Sound` says how far they have come.
-/

namespace Rustdv.TinyAlu

/-! ## Commands under way -/

inductive Flight where
  /-- The writes of `reset` are scheduled. -/
  | booting
  /-- They are applied, and the clock has not risen since. -/
  | clearing
  | none
  /-- Taken from the queue, its writes scheduled. -/
  | issued (cmd : AluCommand)
  /-- Held on the ports for so many rising edges. -/
  | running (cmd : AluCommand) (n : ℕ)
  /-- Answered, the drop of the start signal scheduled. -/
  | finished (cmd : AluCommand)
  /-- The start signal has dropped, and the clock has not risen since. -/
  | settling

def Flight.cmds : Flight → List AluCommand
  | .issued cmd | .running cmd _ | .finished cmd => [cmd]
  | _ => []

/-- Of these, what the command monitor has noticed. -/
def Flight.noticed (s : Bfm) : Flight → List AluCommand
  | .running cmd _ | .finished cmd => if s.prevStart then [cmd] else []
  | _ => []

/-- Of these, what the result monitor has seen answered. -/
def Flight.answered (s : Bfm) : Flight → List AluCommand
  | .running cmd n => if n = cmd.op.latency ∧ s.clk = false ∧ s.resultDue = false then [cmd] else []
  | .finished cmd => if s.resultDue then [] else [cmd]
  | _ => []

/-- The writes of a command that is taken. -/
def AluCommand.writes (cmd : AluCommand) : List Write :=
  [.a cmd.a, .b cmd.b, .op (.ofNat 3 cmd.op.asU64), .start true]

theorem AluCommand.apply_writes (cmd : AluCommand) {pins : Pins} (reset : pins.resetN = true) :
    cmd.writes.foldl Pins.apply pins = cmd.pins := by
  cases pins
  cases reset
  rfl

/-- The command monitor reads back what the driver wrote. -/
theorem AluCommand.read_pins (cmd : AluCommand) :
    (Ops.fromU64 cmd.pins.op.toNat).map (AluCommand.mk cmd.pins.a cmd.pins.b ·) = some cmd := by
  cases cmd with
  | mk a b op => cases op <;> rfl

/-- No loop and no monitor component is woken. -/
structure Bfm.Calm (s : Bfm) : Prop where
  driver : s.driverDue = false
  cmd : s.cmdDue = false
  result : s.resultDue = false
  cmdQ : s.cmdQ = []
  resultQ : s.resultQ = []

/-- What holds of the design and the loops while a command is under way. -/
inductive Place (s : Bfm) : Flight → Prop
  | booting (calm : s.Calm) (low : s.clk = false) (stale : s.prevStart = false)
      (writes : s.writes = [.resetN false, .start false, .a 0, .b 0, .op 0]) : Place s .booting
  | clearing (calm : s.Calm) (low : s.clk = false) (stale : s.prevStart = false) (writes : s.writes = [])
      (resetN : s.pins.resetN = false) (start : s.pins.start = false) : Place s .clearing
  | none (start : s.pins.start = false) (quiet : s.rtl.Quiet) (cmdQ : s.cmdQ = []) (resultQ : s.resultQ = [])
      (stale : s.prevStart = true → s.clk = true ∨ s.cmdDue = true) : Place s .none
  | issued {cmd : AluCommand} (low : s.clk = false) (start : s.pins.start = false) (resetN : s.pins.resetN = true)
      (quiet : s.rtl.Quiet) (cmdQ : s.cmdQ = []) (resultQ : s.resultQ = [])
      (stale : s.prevStart = true → s.cmdDue = true) (writes : s.writes = cmd.writes)
      (polled : s.driverDue = false) : Place s (.issued cmd)
  | running {cmd : AluCommand} {n : ℕ} (le : n ≤ cmd.op.latency) (pins : s.pins = cmd.pins)
      (working : s.rtl.Working cmd n) (writes : s.writes = []) (first : n = 0 → s.clk = false ∧ s.Calm)
      (last : n = cmd.op.latency → s.clk = true ∨ s.driverDue = true)
      (noticed : s.prevStart = decide (2 ≤ n ∨ n = 1 ∧ s.clk = false ∧ s.cmdDue = false)) :
      Place s (.running cmd n)
  | finished {cmd : AluCommand} (low : s.clk = false) (pins : s.pins = cmd.pins)
      (working : s.rtl.Working cmd cmd.op.latency) (writes : s.writes = [.start false])
      (polled : s.driverDue = false) (noticed : s.prevStart = decide (2 ≤ cmd.op.latency ∨ s.cmdDue = false)) :
      Place s (.finished cmd)
  | settling (cmd : AluCommand) (calm : s.Calm) (low : s.clk = false) (writes : s.writes = [])
      (pins : s.pins = { cmd.pins with start := false }) (working : s.rtl.Working cmd cmd.op.latency) :
      Place s .settling

/-- How far `reset` has come when so much is under way. -/
def Flight.Resets (s : Bench) : Flight → Prop
  | .booting | .clearing => s.reset = .awaiting 5 false
  | .none =>
      (s.writes = [] ∨ s.writes = [.resetN true] ∧ s.reset = .awaiting 0 false) ∧
        ((s.reset = .finished ∨ ∃ due, s.reset = .awaiting 0 due) →
          s.pins.resetN = true ∨ s.writes = [.resetN true])
  | _ => s.reset = .finished

/-- What `send_op` was given. -/
def sent (seen : List Obs) : List AluCommand :=
  seen.filterMap fun
    | .sent cmd => some cmd
    | _ => none

@[simp] theorem sent_append (front back : List Obs) : sent (front ++ back) = sent front ++ sent back :=
  List.filterMap_append

/-- Nothing was sent since `wait_idle` was called last. -/
def Undisturbed (seen : List Obs) : Prop :=
  ∃ before between, seen = before ++ .waiting :: between ∧ ∀ cmd, .sent cmd ∉ between

theorem not_undisturbed_sent (seen : List Obs) (cmd : AluCommand) : ¬ Undisturbed (seen ++ [.sent cmd]) := by
  rintro ⟨before, between, split, quiet⟩
  rcases List.append_eq_append_iff.mp split with ⟨mid, -, tail⟩ | ⟨mid, -, tail⟩
  · cases mid with
    | nil => cases tail
    | cons o mid =>
      have := congrArg List.length tail
      simp at this
  · cases mid with
    | nil => cases tail
    | cons o mid =>
      obtain ⟨-, rfl⟩ := List.cons.inj tail
      exact quiet cmd (by simp)

/-- What the command monitor has observed, in the queue or handed on. -/
def Bench.commands (s : Bench) : List AluCommand := s.cmdLog ++ s.cmdQ

def Bench.results (s : Bench) : List AluResult := s.resultLog ++ s.resultQ

/-- The edges from the release of a command to the poll that can take the next one. -/
def AluCommand.edges (cmd : AluCommand) : ℕ := 2 * (cmd.op.latency + 1)

/-- The edges that are still to come before everything sent is answered and released. -/
def Bench.charge (s : Bench) (flight : Flight) : ℕ :=
  let queued := (s.driverQ.map AluCommand.edges).sum
  match flight with
  | .booting | .clearing => 0
  | .none => if s.driverQ = [] then 0 else (if s.clk then 1 else if s.driverDue then 0 else 2) + queued
  | .issued cmd => cmd.edges + queued
  | .running cmd n => cmd.edges - 2 * n + (if s.clk then 1 else 0) + queued
  | .finished _ | .settling => 2 + queued

/-- How far `wait_idle` has come, if nothing was sent since it was called. -/
structure IdleAt.Fits (driverQ : List AluCommand) (flight : Flight) (at_ : IdleAt) : Prop where
  first : ∀ due, at_ = .counting 1 due → driverQ = [] ∧ ∀ cmd, flight = .issued cmd → due = false
  last : ∀ due, at_ = .last due → driverQ = [] ∧ flight = .none

/-- The commands that are over, and the one that is under way. -/
structure Sound (s : Bench) (seen : List Obs) (past : List AluCommand) (flight : Flight) : Prop where
  place : Place s.toBfm flight
  resets : flight.Resets s
  high : s.clk = true → s.driverDue = false ∧ s.cmdDue = false ∧ s.resultDue = false
  sent : sent seen = past ++ flight.cmds ++ s.driverQ
  commands : s.commands = past ++ flight.noticed s.toBfm
  results : s.results = (past ++ flight.answered s.toBfm).map predict
  resetting : s.reset ≠ .finished → s.driverQ = [] ∧ s.waitIdle = none
  idle : Undisturbed seen → ∀ at_, s.waitIdle = some at_ → at_.Fits s.driverQ flight
  bound : ∀ n due, s.waitIdle = some (.counting n due) → n < 2

section Steps

variable {s t : Bench} {seen out : List Obs} {past : List AluCommand} {flight : Flight} {cmd : AluCommand}

theorem Sound.send (sound : Sound s seen past flight) (reset : s.reset = .finished) :
    Sound { s with driverQ := s.driverQ ++ [cmd] } (seen ++ [.sent cmd]) past flight where
  place := sound.place
  resets := sound.resets
  high := sound.high
  sent := by
    rw [sent_append, sound.sent, List.append_assoc]
    rfl
  commands := sound.commands
  results := sound.results
  resetting := fun unfinished => absurd reset unfinished
  idle := fun undisturbed => absurd undisturbed (not_undisturbed_sent seen cmd)
  bound := sound.bound

theorem Sound.wait (sound : Sound s seen past flight) (reset : s.reset = .finished) :
    Sound { s with waitIdle := some (.counting 0 false) } (seen ++ [.waiting]) past flight where
  place := sound.place
  resets := sound.resets
  high := sound.high
  sent := by
    rw [sent_append, sound.sent, List.append_assoc]
    simp [TinyAlu.sent]
  commands := sound.commands
  results := sound.results
  resetting := fun unfinished => absurd reset unfinished
  idle := by
    rintro - _ ⟨⟩
    constructor <;> rintro due ⟨⟩
  bound := by
    rintro n due ⟨⟩
    decide

/-- Who is woken is woken by a falling edge. -/
theorem Sound.low_of_driver (sound : Sound s seen past flight) (due : s.driverDue = true) : s.clk = false := by
  by_contra high
  have polled := (sound.high (by simpa using high)).1
  rw [due] at polled
  cases polled

theorem Sound.low_of_cmd (sound : Sound s seen past flight) (due : s.cmdDue = true) : s.clk = false := by
  by_contra high
  have polled := (sound.high (by simpa using high)).2.1
  rw [due] at polled
  cases polled

theorem Sound.low_of_result (sound : Sound s seen past flight) (due : s.resultDue = true) : s.clk = false := by
  by_contra high
  have polled := (sound.high (by simpa using high)).2.2
  rw [due] at polled
  cases polled

/-- A poll of the driver's loop that leaves the flight as it is. -/
theorem Sound.driver_waits (sound : Sound s seen past flight) (place : Place { s.toBfm with driverDue := false } flight) :
    Sound { s with driverDue := false } seen past flight where
  place := place
  resets := sound.resets
  high := fun high => ⟨rfl, (sound.high high).2⟩
  sent := sound.sent
  commands := sound.commands
  results := sound.results
  resetting := sound.resetting
  idle := sound.idle
  bound := sound.bound

/-- The driver takes the next command when nothing is under way. -/
theorem Sound.driver_takes {rest : List AluCommand} (sound : Sound s seen past .none) (due : s.driverDue = true)
    (front : s.driverQ = cmd :: rest) :
    Sound { s with driverDue := false, driverQ := rest, writes := s.writes ++ cmd.writes } seen past (.issued cmd) := by
  have low := sound.low_of_driver due
  have reset : s.reset = .finished := by
    by_contra unfinished
    rw [(sound.resetting unfinished).1] at front
    cases front
  have unwritten : s.writes = [] := by
    rcases sound.resets.1 with none | ⟨-, early⟩
    · exact none
    · rw [reset] at early
      cases early
  have released : s.pins.resetN = true := by
    rcases sound.resets.2 (.inl reset) with released | scheduled
    · exact released
    · rw [unwritten] at scheduled
      cases scheduled
  cases sound.place with
  | none start quiet cmdQ resultQ stale =>
    refine
      { place := .issued low start released quiet cmdQ resultQ ?_ (by rw [unwritten]; rfl) rfl
        resets := reset
        high := fun high => absurd (low.symm.trans high) (by decide)
        sent := ?_
        commands := sound.commands
        results := sound.results
        resetting := fun unfinished => absurd reset unfinished
        idle := fun undisturbed at_ waits => ?_
        bound := sound.bound }
    · intro set
      rcases stale set with high | due
      · exact absurd (low.symm.trans high) (by decide)
      · exact due
    · rw [sound.sent, front]
      simp [Flight.cmds]
    -- a command that is taken was sent after `wait_idle` had seen an empty queue
    · have fits := sound.idle undisturbed at_ waits
      constructor
      · intro due same
        rw [(fits.first due same).1] at front
        cases front
      · intro due same
        rw [(fits.last due same).1] at front
        cases front

/-- The driver drops the start signal once the command is answered. -/
theorem Sound.driver_drops (sound : Sound s seen past (.running cmd cmd.op.latency)) (due : s.driverDue = true) :
    Sound { s with driverDue := false, writes := s.writes ++ [.start false] } seen past (.finished cmd) := by
  have low := sound.low_of_driver due
  have pos := cmd.op.latency_pos
  cases sound.place with
  | running le pins working writes first last noticed =>
    refine
      { place := .finished low pins working (by rw [writes]; rfl) rfl ?_
        resets := sound.resets
        high := fun high => absurd (low.symm.trans high) (by decide)
        sent := sound.sent
        commands := sound.commands
        results := ?_
        resetting := sound.resetting
        idle := fun undisturbed at_ waits => ?_
        bound := sound.bound }
    · rw [noticed, low]
      exact decide_eq_decide.mpr (by grind)
    · change s.results = _
      rw [sound.results]
      cases resultDue : s.resultDue <;> simp [Flight.answered, low, resultDue]
    · have fits := sound.idle undisturbed at_ waits
      constructor
      · intro due same
        exact ⟨(fits.first due same).1, fun _ is => by cases is⟩
      · intro due same
        cases (fits.last due same).2

theorem Sound.pollDriver (sound : Sound s seen past flight) (due : s.driverDue = true) :
    ∃ flight', s.pollDriver.charge flight' ≤ s.charge flight ∧ Sound s.pollDriver seen past flight' := by
  have low := sound.low_of_driver due
  cases sound.place with
  | booting calm | clearing calm | settling _ calm =>
    have := calm.driver
    rw [due] at this
    cases this
  | issued _ _ _ _ _ _ _ _ polled | finished _ _ _ _ polled =>
    rw [due] at polled
    cases polled
  | none start quiet cmdQ resultQ stale =>
    have undone := quiet.done_eq s.pins
    cases front : s.driverQ with
    | nil =>
      have same : s.pollDriver = { s with driverDue := false } := by
        simp [Bench.pollDriver, start, undone, front]
      rw [same]
      exact ⟨.none, by simp [Bench.charge, front], sound.driver_waits (.none start quiet cmdQ resultQ stale)⟩
    | cons cmd rest =>
      have same : s.pollDriver =
          { s with driverDue := false, driverQ := rest, writes := s.writes ++ cmd.writes } := by
        simp [Bench.pollDriver, start, undone, front, AluCommand.writes]
      rw [same]
      exact ⟨.issued cmd, by simp [Bench.charge, front, low, due], sound.driver_takes due front⟩
  | @running cmd n le pins working writes first last noticed =>
    have done := working.done_eq le
    have start : cmd.pins.start = true := rfl
    by_cases answered : n = cmd.op.latency
    · have same : s.pollDriver = { s with driverDue := false, writes := s.writes ++ [.start false] } := by
        simp [Bench.pollDriver, start, pins, done, answered]
      subst answered
      rw [same]
      exact ⟨.finished cmd, by simp [Bench.charge, AluCommand.edges, low]; omega, sound.driver_drops due⟩
    · have same : s.pollDriver = { s with driverDue := false } := by
        simp [Bench.pollDriver, start, pins, done, answered]
      rw [same]
      refine ⟨.running cmd n, Nat.le_refl _, sound.driver_waits (.running le pins working writes ?_ ?_ noticed)⟩
      · intro zero
        have := (first zero).2.driver
        rw [due] at this
        cases this
      · exact fun is => absurd is answered

/-- A poll of a monitor's loop: what it adds is what the flight shows it. -/
theorem Sound.observes (sound : Sound s seen past flight) {bfm : Bfm} (place : Place bfm flight)
    (clk : bfm.clk = s.clk) (pins : bfm.pins = s.pins) (writes : bfm.writes = s.writes)
    (high : s.clk = true → bfm.driverDue = false ∧ bfm.cmdDue = false ∧ bfm.resultDue = false)
    (commands : s.cmdLog ++ bfm.cmdQ = past ++ flight.noticed bfm)
    (results : s.resultLog ++ bfm.resultQ = (past ++ flight.answered bfm).map predict) :
    Sound { s with toBfm := bfm } seen past flight where
  place := place
  resets := by
    have resets := sound.resets
    cases flight <;> simpa only [Flight.Resets, pins, writes] using resets
  high := by rwa [clk]
  sent := sound.sent
  commands := commands
  results := results
  resetting := sound.resetting
  idle := sound.idle
  bound := sound.bound

/-- The command monitor's poll while a command is held: it is observed unless it was before. -/
theorem pollCmdMon_held {bfm : Bfm} (pins : bfm.pins = cmd.pins) :
    bfm.pollCmdMon =
      { bfm with cmdDue := false, cmdQ := bfm.cmdQ ++ (if bfm.prevStart then [] else [cmd]), prevStart := true } := by
  have start : cmd.pins.start = true := rfl
  have read := cmd.read_pins
  cases stale : bfm.prevStart <;> simp [Bfm.pollCmdMon, pins, start, stale, read]

theorem noticed_held (commands : s.commands = past ++ if s.prevStart then [cmd] else []) :
    s.cmdLog ++ (s.cmdQ ++ if s.prevStart then [] else [cmd]) = past ++ [cmd] := by
  rw [Bench.commands] at commands
  rw [← List.append_assoc, commands]
  cases s.prevStart <;> simp

theorem Sound.pollCmdMon (sound : Sound s seen past flight) (due : s.cmdDue = true) :
    Sound { s with toBfm := s.toBfm.pollCmdMon } seen past flight := by
  have low := sound.low_of_cmd due
  have high : s.clk = true → s.pollCmdMon.driverDue = false ∧ s.pollCmdMon.cmdDue = false ∧
      s.pollCmdMon.resultDue = false := fun high => absurd (low.symm.trans high) (by decide)
  have commands := sound.commands
  cases place : sound.place with
  | booting calm | clearing calm | settling _ calm =>
    have := calm.cmd
    rw [due] at this
    cases this
  | none start quiet cmdQ resultQ stale =>
    have same : s.pollCmdMon = { s.toBfm with cmdDue := false, prevStart := false } := by
      simp [Bfm.pollCmdMon, start]
    refine sound.observes ?_ rfl rfl rfl high ?_ ?_
    · rw [same]
      exact .none start quiet cmdQ resultQ (by simp)
    · rw [same]
      exact commands
    · rw [same]
      exact sound.results
  | issued _ start resetN quiet cmdQ resultQ stale writes polled =>
    have same : s.pollCmdMon = { s.toBfm with cmdDue := false, prevStart := false } := by
      simp [Bfm.pollCmdMon, start]
    refine sound.observes ?_ rfl rfl rfl high ?_ ?_
    · rw [same]
      exact .issued low start resetN quiet cmdQ resultQ (by simp) writes polled
    · rw [same]
      exact commands
    · rw [same]
      exact sound.results
  | @running cmd n le pins working writes first last noticed =>
    have same := pollCmdMon_held pins
    have pos : n ≠ 0 := by
      intro zero
      have := (first zero).2.cmd
      rw [due] at this
      cases this
    refine sound.observes ?_ (by rw [same]) (by rw [same]) (by rw [same]) high ?_ ?_
    · rw [same]
      refine .running le pins working writes (fun zero => absurd zero pos) last ?_
      exact (decide_eq_true (by simp only [low, and_true]; omega)).symm
    · rw [same]
      exact noticed_held commands
    · rw [same]
      exact sound.results
  | @finished cmd _ pins working writes polled noticed =>
    have same := pollCmdMon_held pins
    refine sound.observes ?_ (by rw [same]) (by rw [same]) (by rw [same]) high ?_ ?_
    · rw [same]
      exact .finished low pins working writes polled (decide_eq_true (.inr rfl)).symm
    · rw [same]
      exact noticed_held commands
    · rw [same]
      exact sound.results

theorem Sound.pollResultMon (sound : Sound s seen past flight) (due : s.resultDue = true) :
    Sound { s with toBfm := s.toBfm.pollResultMon } seen past flight := by
  have low := sound.low_of_result due
  have high : s.clk = true → s.pollResultMon.driverDue = false ∧ s.pollResultMon.cmdDue = false ∧
      s.pollResultMon.resultDue = false := fun high => absurd (low.symm.trans high) (by decide)
  have results := sound.results
  cases place : sound.place with
  | booting calm | clearing calm | settling _ calm =>
    have := calm.result
    rw [due] at this
    cases this
  | none start quiet cmdQ resultQ stale =>
    have same : s.pollResultMon = { s.toBfm with resultDue := false } := by
      simp [Bfm.pollResultMon, start]
    refine sound.observes ?_ rfl rfl rfl high ?_ ?_
    · rw [same]
      exact .none start quiet cmdQ resultQ stale
    · rw [same]
      exact sound.commands
    · rw [same]
      exact results
  | issued _ start resetN quiet cmdQ resultQ stale writes polled =>
    have same : s.pollResultMon = { s.toBfm with resultDue := false } := by
      simp [Bfm.pollResultMon, start]
    refine sound.observes ?_ rfl rfl rfl high ?_ ?_
    · rw [same]
      exact .issued low start resetN quiet cmdQ resultQ stale writes polled
    · rw [same]
      exact sound.commands
    · rw [same]
      exact results
  | @running cmd n le pins working writes first last noticed =>
    have start : cmd.pins.start = true := rfl
    have done := working.done_eq le
    have place' (resultQ : List AluResult) :
        Place { s.toBfm with resultDue := false, resultQ := resultQ } (.running cmd n) := by
      refine .running le pins working writes (fun zero => ?_) last noticed
      have := (first zero).2.result
      rw [due] at this
      cases this
    by_cases answered : n = cmd.op.latency
    · subst answered
      have same : s.pollResultMon =
          { s.toBfm with resultDue := false, resultQ := s.resultQ ++ [predict cmd] } := by
        simp [Bfm.pollResultMon, pins, start, done, working.result_eq]
      refine sound.observes ?_ (by rw [same]) (by rw [same]) (by rw [same]) high ?_ ?_
      · rw [same]
        exact place' _
      · rw [same]
        exact sound.commands
      · have earlier : s.resultLog ++ s.resultQ = past.map predict := by
          simpa [Flight.answered, due, Bench.results] using results
        rw [same, ← List.append_assoc, earlier]
        simp [Flight.answered, low]
    · have same : s.pollResultMon = { s.toBfm with resultDue := false } := by
        simp [Bfm.pollResultMon, pins, start, done, answered]
      refine sound.observes ?_ rfl rfl rfl high ?_ ?_
      · rw [same]
        exact place' _
      · rw [same]
        exact sound.commands
      · rw [same]
        simp only [Flight.answered, answered, false_and] at results ⊢
        exact results
  | @finished cmd _ pins working writes polled noticed =>
    have start : cmd.pins.start = true := rfl
    have done := working.done_eq (Nat.le_refl _)
    have same : s.pollResultMon =
        { s.toBfm with resultDue := false, resultQ := s.resultQ ++ [predict cmd] } := by
      simp [Bfm.pollResultMon, pins, start, done, working.result_eq]
    refine sound.observes ?_ (by rw [same]) (by rw [same]) (by rw [same]) high ?_ ?_
    · rw [same]
      exact .finished low pins working writes polled noticed
    · rw [same]
      exact sound.commands
    · have earlier : s.resultLog ++ s.resultQ = past.map predict := by
        simpa [Flight.answered, due, Bench.results] using results
      rw [same, ← List.append_assoc, earlier]
      simp [Flight.answered]

theorem Sound.forwardCmd {rest : List AluCommand} (sound : Sound s seen past flight) (front : s.cmdQ = cmd :: rest) :
    Sound { s with cmdQ := rest, cmdLog := s.cmdLog ++ [cmd] } seen past flight := by
  have nonempty : s.cmdQ ≠ [] := by
    rw [front]
    exact List.cons_ne_nil cmd rest
  have commands : (s.cmdLog ++ [cmd]) ++ rest = past ++ flight.noticed s.toBfm := by
    rw [← sound.commands, Bench.commands, front, List.append_assoc]
    rfl
  refine
    { place := ?_, resets := sound.resets, high := sound.high, sent := sound.sent, commands := commands,
      results := sound.results, resetting := sound.resetting, idle := sound.idle, bound := sound.bound }
  cases sound.place with
  | booting calm | clearing calm | settling _ calm => exact absurd calm.cmdQ nonempty
  | none _ _ cmdQ | issued _ _ _ _ cmdQ => exact absurd cmdQ nonempty
  | running le pins working writes first last noticed =>
    exact .running le pins working writes (fun zero => absurd (first zero).2.cmdQ nonempty) last noticed
  | finished low pins working writes polled noticed => exact .finished low pins working writes polled noticed

theorem Sound.forwardResult {res : AluResult} {rest : List AluResult} (sound : Sound s seen past flight)
    (front : s.resultQ = res :: rest) :
    Sound { s with resultQ := rest, resultLog := s.resultLog ++ [res] } seen past flight := by
  have nonempty : s.resultQ ≠ [] := by
    rw [front]
    exact List.cons_ne_nil res rest
  have results : (s.resultLog ++ [res]) ++ rest = (past ++ flight.answered s.toBfm).map predict := by
    rw [← sound.results, Bench.results, front, List.append_assoc]
    rfl
  refine
    { place := ?_, resets := sound.resets, high := sound.high, sent := sound.sent, commands := sound.commands,
      results := results, resetting := sound.resetting, idle := sound.idle, bound := sound.bound }
  cases sound.place with
  | booting calm | clearing calm | settling _ calm => exact absurd calm.resultQ nonempty
  | none _ _ _ resultQ | issued _ _ _ _ _ resultQ => exact absurd resultQ nonempty
  | running le pins working writes first last noticed =>
    exact .running le pins working writes (fun zero => absurd (first zero).2.resultQ nonempty) last noticed
  | finished low pins working writes polled noticed => exact .finished low pins working writes polled noticed

/-- What a poll of `reset` can do. -/
theorem Bench.pollReset_cases (polled : s.pollReset = some t) :
    (s.reset = .awaiting 0 true ∧ t = { s with reset := .finished, cmdQ := [], resultQ := [] }) ∨
      (s.reset = .awaiting 1 true ∧ t = { s with reset := .awaiting 0 false, writes := s.writes ++ [.resetN true] }) ∨
        ∃ left, s.reset = .awaiting (left + 2) true ∧ t = { s with reset := .awaiting (left + 1) false } := by
  unfold Bench.pollReset at polled
  split at polled
  · next reset => exact .inl ⟨reset, (Option.some.inj polled).symm⟩
  · next reset => exact .inr (.inl ⟨reset, (Option.some.inj polled).symm⟩)
  · next left reset => exact .inr (.inr ⟨left, reset, (Option.some.inj polled).symm⟩)
  · cases polled

theorem Sound.pollReset (sound : Sound s seen past flight) (polled : s.pollReset = some t) :
    Sound t seen past flight := by
  have due : s.reset.due = true := by
    rcases Bench.pollReset_cases polled with ⟨reset, -⟩ | ⟨reset, -⟩ | ⟨left, reset, -⟩ <;> rw [reset] <;> rfl
  have unfinished : s.reset ≠ .finished := by
    intro reset
    rw [reset] at due
    cases due
  have waits : s.waitIdle = none := (sound.resetting unfinished).2
  have resets := sound.resets
  cases sound.place with
  | booting | clearing =>
    rw [show s.reset = .awaiting 5 false from resets] at due
    cases due
  | issued | running | finished | settling => exact absurd resets unfinished
  | none start quiet cmdQ resultQ stale =>
    have unwritten : s.writes = [] := by
      rcases resets.1 with none | ⟨-, early⟩
      · exact none
      · rw [early] at due
        cases due
    have commands := sound.commands
    have results := sound.results
    rw [Bench.commands, cmdQ] at commands
    rw [Bench.results, resultQ] at results
    rcases Bench.pollReset_cases polled with ⟨reset, rfl⟩ | ⟨reset, rfl⟩ | ⟨left, reset, rfl⟩
    · exact
        { place := .none start quiet rfl rfl stale
          resets := ⟨.inl unwritten, fun _ => resets.2 (.inr ⟨true, reset⟩)⟩
          high := sound.high, sent := sound.sent, commands := commands, results := results
          resetting := fun unfinished => absurd rfl unfinished
          idle := sound.idle, bound := sound.bound }
    · have scheduled : s.writes ++ [.resetN true] = [.resetN true] := by rw [unwritten]; rfl
      exact
        { place := .none start quiet cmdQ resultQ stale
          resets := ⟨.inr ⟨scheduled, rfl⟩, fun _ => .inr scheduled⟩
          high := sound.high, sent := sound.sent, commands := sound.commands, results := sound.results
          resetting := fun _ => sound.resetting unfinished
          idle := sound.idle, bound := sound.bound }
    · refine
        { place := .none start quiet cmdQ resultQ stale
          resets := ⟨.inl unwritten, ?_⟩
          high := sound.high, sent := sound.sent, commands := sound.commands, results := sound.results
          resetting := fun _ => sound.resetting unfinished
          idle := sound.idle, bound := sound.bound }
      rintro (same | ⟨due, same⟩)
      · cases same
      · cases same

/-- What a poll of `wait_idle` can do. -/
theorem Bench.pollWaitIdle_cases (polled : s.pollWaitIdle = some (t, out)) :
    ∃ at_, t = { s with waitIdle := at_ } := by
  unfold Bench.pollWaitIdle at polled
  split at polled
  · split at polled
    · cases polled
      exact ⟨_, rfl⟩
    · cases polled
      exact ⟨_, rfl⟩
  · cases polled
    exact ⟨_, rfl⟩
  · cases polled

/-- An edge at which `wait_idle` finds nothing to wait for. -/
theorem Sound.none_of_idle (sound : Sound s seen past flight) (undisturbed : Undisturbed seen)
    (waits : s.waitIdle = some (.counting 1 true)) (start : s.pins.start = false) (done : s.rtl.done s.pins = false) :
    flight = .none := by
  have fits := sound.idle undisturbed _ waits
  have reset : s.reset = .finished := by
    by_contra unfinished
    rw [(sound.resetting unfinished).2] at waits
    cases waits
  have resets := sound.resets
  cases sound.place with
  | booting | clearing =>
    rw [show s.reset = .awaiting 5 false from resets] at reset
    cases reset
  | none => rfl
  | @issued cmd => exact absurd ((fits.first true rfl).2 cmd rfl) (by decide)
  | running _ pins | finished _ pins =>
    rw [pins] at start
    cases start
  | settling cmd _ _ _ pins working =>
    have up := working.done_eq (Nat.le_refl _)
    rw [decide_eq_true rfl] at up
    rw [pins] at done
    exact absurd (done.symm.trans up) (by decide)

theorem Sound.pollWaitIdle (sound : Sound s seen past flight) (polled : s.pollWaitIdle = some (t, out)) :
    Sound t (seen ++ out) past flight := by
  have bare (at_ : Option IdleAt) (ended : List Obs) (unsent : TinyAlu.sent ended = [])
      (resetting : s.reset ≠ .finished → at_ = none)
      (idle : Undisturbed (seen ++ ended) → ∀ w, at_ = some w → w.Fits s.driverQ flight)
      (bound : ∀ n due, at_ = some (.counting n due) → n < 2) :
      Sound { s with waitIdle := at_ } (seen ++ ended) past flight :=
    { place := sound.place, resets := sound.resets, high := sound.high
      sent := by rw [sent_append, unsent, List.append_nil]; exact sound.sent
      commands := sound.commands, results := sound.results
      resetting := fun unfinished => ⟨(sound.resetting unfinished).1, resetting unfinished⟩
      idle := idle, bound := bound }
  have active (waits : s.waitIdle ≠ none) : s.reset = .finished := by
    by_contra unfinished
    exact waits (sound.resetting unfinished).2
  unfold Bench.pollWaitIdle at polled
  split at polled
  · next idleEdges waits =>
    have reset := active (by simp [waits])
    split at polled
    · next still =>
      simp only [Bool.and_eq_true, Bool.not_eq_true', List.isEmpty_iff] at still
      obtain ⟨⟨empty, start⟩, done⟩ := still
      cases polled
      refine bare _ [] rfl (fun unfinished => absurd reset unfinished) ?_ ?_
      · intro undisturbed w same
        rw [List.append_nil] at undisturbed
        split at same
        · cases same
          constructor
          · rintro due ⟨⟩
            exact ⟨empty, fun _ _ => rfl⟩
          · rintro due ⟨⟩
        · next second =>
          cases same
          have one : idleEdges = 1 := by
            have := sound.bound _ _ waits
            omega
          subst one
          constructor
          · rintro due ⟨⟩
          · exact fun due _ => ⟨empty, sound.none_of_idle undisturbed waits start done⟩
      · intro n due same
        split at same
        · next second =>
          cases same
          exact second
        · cases same
    · cases polled
      refine bare _ [] rfl (fun unfinished => absurd reset unfinished) ?_ ?_
      · rintro - _ ⟨⟩
        constructor <;> rintro due ⟨⟩
      · rintro n due ⟨⟩
        decide
  · next waits =>
    cases polled
    refine bare none [.idle] rfl (fun _ => rfl) ?_ ?_
    · rintro - w ⟨⟩
    · rintro n due ⟨⟩
  · cases polled

theorem Bench.calm (idle : s.busy = false) : s.toBfm.Calm := by
  simp only [busy, Bool.or_eq_false_iff, Bool.not_eq_false', List.isEmpty_iff] at idle
  obtain ⟨⟨⟨⟨⟨⟨driver, cmd⟩, result⟩, -⟩, -⟩, cmdQ⟩, resultQ⟩ := idle
  exact ⟨driver, cmd, result, cmdQ, resultQ⟩

/-- `wait_idle` is not concerned when the flight moves without being issued or coming to rest. -/
theorem IdleAt.Fits.moves {driverQ : List AluCommand} {flight' : Flight} {at_ : IdleAt}
    (fits : at_.Fits driverQ flight) (busy : flight ≠ .none) (unissued : ∀ cmd, flight' ≠ .issued cmd) :
    at_.Fits driverQ flight' where
  first due same := ⟨(fits.first due same).1, fun cmd is => absurd is (unissued cmd)⟩
  last due same := absurd (fits.last due same).2 busy

/-- The ReadWrite phase. -/
theorem Sound.readWrite (sound : Sound s seen past flight) (idle : s.busy = false) (scheduled : s.writes ≠ []) :
    ∃ past flight', Bench.charge { s with pins := s.writes.foldl Pins.apply s.pins, writes := [] } flight' ≤
        s.charge flight ∧
      Sound { s with pins := s.writes.foldl Pins.apply s.pins, writes := [] } seen past flight' := by
  have calm := Bench.calm idle
  have commands := sound.commands
  have results := sound.results
  cases sound.place with
  | booting _ low stale writes =>
    refine ⟨past, .clearing, Nat.zero_le _,
      { place := .clearing ⟨calm.1, calm.2, calm.3, calm.4, calm.5⟩ low stale rfl (by rw [writes]; rfl) (by rw [writes]; rfl)
        resets := sound.resets, high := sound.high, sent := sound.sent, commands := commands, results := results
        resetting := sound.resetting
        idle := fun undisturbed at_ waits => (sound.idle undisturbed at_ waits).moves (by simp) (by simp)
        bound := sound.bound }⟩
  | clearing _ _ _ writes | running _ _ _ writes | settling _ _ _ writes => exact absurd writes scheduled
  | none start quiet cmdQ resultQ stale =>
    obtain ⟨writes, early⟩ := sound.resets.1.resolve_left scheduled
    refine ⟨past, .none, Nat.le_refl _,
      { place := .none (by rw [writes]; exact start) quiet cmdQ resultQ stale
        resets := ⟨.inl rfl, fun _ => .inl (by rw [writes]; rfl)⟩
        high := sound.high, sent := sound.sent, commands := commands, results := results
        resetting := sound.resetting, idle := sound.idle, bound := sound.bound }⟩
  | @issued cmd low start resetN quiet cmdQ resultQ stale writes polled =>
    have fresh : s.prevStart = false := by
      by_contra set
      have due := stale (by simpa using set)
      rw [calm.cmd] at due
      cases due
    refine ⟨past, .running cmd 0, by simp [Bench.charge, low],
      { place := .running (Nat.zero_le _) (by rw [writes]; exact cmd.apply_writes resetN) (quiet.working cmd) rfl
          (fun _ => ⟨low, calm.1, calm.2, calm.3, calm.4, calm.5⟩) (fun zero => absurd zero.symm cmd.op.latency_ne_zero) ?_
        resets := sound.resets, high := sound.high, sent := sound.sent
        commands := ?_
        results := ?_
        resetting := sound.resetting
        idle := fun undisturbed at_ waits => (sound.idle undisturbed at_ waits).moves (by simp) (by simp)
        bound := sound.bound }⟩
    · rw [fresh]
      rfl
    · change s.commands = _
      simpa [Flight.noticed, fresh] using commands
    · change s.results = _
      simpa [Flight.answered, cmd.op.latency_ne_zero.symm] using results
  | @finished cmd low pins working writes polled noticed =>
    have seen : s.prevStart = true := by
      rw [noticed]
      exact decide_eq_true (.inr calm.cmd)
    refine ⟨past ++ [cmd], .settling, Nat.le_refl _,
      { place := .settling cmd ⟨calm.1, calm.2, calm.3, calm.4, calm.5⟩ low rfl (by rw [writes, pins]; rfl) working
        resets := sound.resets, high := sound.high
        sent := by simpa [Flight.cmds] using sound.sent
        commands := ?_
        results := ?_
        resetting := sound.resetting
        idle := fun undisturbed at_ waits => (sound.idle undisturbed at_ waits).moves (by simp) (by simp)
        bound := sound.bound }⟩
    · change s.commands = _
      simpa [Flight.noticed, seen] using commands
    · change s.results = _
      simpa [Flight.answered, calm.result] using results

/-- The clock falls. -/
theorem Sound.fall (sound : Sound s seen past flight) (unwritten : s.writes = []) (high : s.clk = true) :
    Sound s.fall seen past flight := by
  have commands := sound.commands
  have results := sound.results
  have unissued (cmd : AluCommand) : flight ≠ .issued cmd := by
    rintro rfl
    cases sound.place with
    | issued low => exact absurd (low.symm.trans high) (by decide)
  have low_of (low : s.clk = false) : False := absurd (low.symm.trans high) (by decide)
  have unawake : flight.Resets s.fall := by
    have resets := sound.resets
    cases flight with
    | booting =>
      cases sound.place with
      | booting _ low => exact (low_of low).elim
    | clearing =>
      cases sound.place with
      | clearing _ low => exact (low_of low).elim
    | none =>
      refine ⟨.inl unwritten, fun near => resets.2 ?_⟩
      cases reset : s.reset with
      | finished => exact .inl rfl
      | awaiting left due =>
        rcases near with finished | ⟨due', near⟩
        · simp [Bench.fall, reset, ResetAt.wake] at finished
        · simp only [Bench.fall, reset, ResetAt.wake, ResetAt.awaiting.injEq] at near
          rw [near.1]
          exact .inr ⟨due, rfl⟩
    | issued | running | finished | settling =>
      change s.reset.wake = .finished
      rw [show s.reset = .finished from resets]
      rfl
  have place : Place s.fall.toBfm flight ∧ flight.noticed s.fall.toBfm = flight.noticed s.toBfm ∧
      flight.answered s.fall.toBfm = flight.answered s.toBfm := by
    cases sound.place with
    | booting _ low | clearing _ low | issued low | finished low | settling _ _ low => exact (low_of low).elim
    | none start quiet cmdQ resultQ stale => exact ⟨.none start quiet cmdQ resultQ fun _ => .inr rfl, rfl, rfl⟩
    | @running cmd n le pins working writes first last noticed =>
      refine ⟨.running le pins working writes (fun zero => (low_of (first zero).1).elim) (fun _ => .inr rfl) ?_, rfl, ?_⟩
      · change s.prevStart = _
        rw [noticed, high]
        simp [Bench.fall]
      · simp [Flight.answered, Bench.fall, high]
  refine
    { place := place.1, resets := unawake, high := fun rises => by cases rises
      sent := sound.sent
      commands := by rw [place.2.1]; exact commands
      results := by rw [place.2.2]; exact results
      resetting := ?_, idle := fun undisturbed at_ waits => ?_, bound := ?_ }
  · intro unfinished
    have before : s.reset ≠ .finished := by
      intro finished
      exact unfinished (by rw [Bench.fall, finished]; rfl)
    exact ⟨(sound.resetting before).1, by simp [Bench.fall, (sound.resetting before).2]⟩
  · obtain ⟨was, waited, rfl⟩ := Option.map_eq_some_iff.mp waits
    have fits := sound.idle undisturbed was waited
    cases was with
    | counting n due =>
      constructor
      · rintro due' ⟨⟩
        exact ⟨(fits.first due rfl).1, fun cmd is => absurd is (unissued cmd)⟩
      · rintro due' ⟨⟩
    | last due =>
      constructor
      · rintro due' ⟨⟩
      · exact fun _ _ => fits.last due rfl
  · intro n due waits
    obtain ⟨was, waited, same⟩ := Option.map_eq_some_iff.mp waits
    cases was with
    | counting m due' =>
      cases same
      exact sound.bound _ _ waited
    | last => cases same

/-- The clock rises. -/
theorem Sound.rise (sound : Sound s seen past flight) (unwritten : s.writes = []) (idle : s.busy = false)
    (low : s.clk = false) :
    ∃ flight', s.rise.charge flight' ≤ s.charge flight - 1 ∧ Sound s.rise seen past flight' := by
  have calm := Bench.calm idle
  have commands := sound.commands
  have results := sound.results
  have high : s.rise.clk = true → s.rise.driverDue = false ∧ s.rise.cmdDue = false ∧ s.rise.resultDue = false :=
    fun _ => ⟨calm.driver, calm.cmd, calm.result⟩
  cases sound.place with
  | booting _ _ _ writes | issued _ _ _ _ _ _ _ writes | finished _ _ _ writes =>
    rw [unwritten] at writes
    cases writes
  | clearing _ _ stale _ resetN start =>
    have reset : s.reset = .awaiting 5 false := sound.resets
    have unsent : s.driverQ = [] := (sound.resetting (by rw [reset]; exact fun is => by cases is)).1
    refine ⟨.none, by simp [Bench.charge, Bench.rise, unsent],
      { place := .none start (Rtl.quiet_of_reset s.rtl resetN) calm.cmdQ calm.resultQ fun _ => .inl rfl
        resets := ⟨.inl unwritten, ?_⟩
        high := high, sent := sound.sent, commands := commands, results := results, resetting := sound.resetting
        idle := fun undisturbed at_ waits => ?_
        bound := sound.bound }⟩
    · rintro (finished | ⟨due, near⟩)
      · exact absurd (reset.symm.trans finished) (by simp)
      · exact absurd (reset.symm.trans near) (by simp)
    · have fits := sound.idle undisturbed at_ waits
      exact ⟨fun due same => ⟨(fits.first due same).1, by simp⟩, fun due same => by cases (fits.last due same).2⟩
  | none start quiet cmdQ resultQ stale =>
    refine ⟨.none, ?_,
      { place := .none start (quiet.posedge start) cmdQ resultQ fun _ => .inl rfl
        resets := sound.resets, high := high, sent := sound.sent, commands := commands, results := results
        resetting := sound.resetting, idle := sound.idle, bound := sound.bound }⟩
    simp only [Bench.charge, Bench.rise, low, calm.driver]
    split
    · exact Nat.zero_le _
    · simp only [↓reduceIte, Bool.false_eq_true]
      omega
  | @running cmd n le pins working writes first last noticed =>
    have before : n < cmd.op.latency := by
      refine Nat.lt_of_le_of_ne le fun is => ?_
      rcases last is with up | due
      · exact absurd (low.symm.trans up) (by decide)
      · rw [calm.driver] at due
        cases due
    have worked := working.posedge before
    rw [← pins] at worked
    refine ⟨.running cmd (n + 1), ?_,
      { place := .running before pins worked writes (by simp) (fun _ => .inl rfl) ?_
        resets := sound.resets, high := high, sent := sound.sent, commands := commands
        results := ?_
        resetting := sound.resetting
        idle := fun undisturbed at_ waits => (sound.idle undisturbed at_ waits).moves (by simp) (by simp)
        bound := sound.bound }⟩
    · simp [Bench.charge, Bench.rise, AluCommand.edges, low]
      omega
    · change s.prevStart = _
      rw [noticed]
      exact decide_eq_decide.mpr (by simp [low, calm.cmd, Bench.rise]; omega)
    · change s.results = _
      simpa [Flight.answered, Bench.rise, Nat.ne_of_lt before] using results
  | settling cmd _ _ _ pins working =>
    have settled := working.settle
    rw [← pins] at settled
    refine ⟨.none, ?_,
      { place := .none (by change s.pins.start = false; rw [pins]) settled calm.cmdQ calm.resultQ fun _ => .inl rfl
        resets := ⟨.inl unwritten, fun _ => .inl (by change s.pins.resetN = true; rw [pins]; rfl)⟩
        high := high, sent := sound.sent, commands := commands, results := results
        resetting := sound.resetting
        idle := fun undisturbed at_ waits => ?_
        bound := sound.bound }⟩
    · simp only [Bench.charge, Bench.rise]
      split <;> simp
    · have fits := sound.idle undisturbed at_ waits
      exact ⟨fun due same => ⟨(fits.first due same).1, by simp⟩, fun due same => by cases (fits.last due same).2⟩

theorem Sound.charge_fall (sound : Sound s seen past flight) (high : s.clk = true) :
    s.fall.charge flight ≤ s.charge flight - 1 := by
  have low_of (low : s.clk = false) : False := absurd (low.symm.trans high) (by decide)
  cases sound.place with
  | booting | clearing => exact Nat.zero_le _
  | issued low | finished low | settling _ _ low => exact (low_of low).elim
  | none =>
    simp only [Bench.charge, Bench.fall, high]
    split
    · exact Nat.zero_le _
    · simp
  | running => simp [Bench.charge, Bench.fall, high]

/-- Every step keeps the books, no step but `send_op` adds to the edges to come, and every edge is one of them. -/
theorem Sound.step {a : Action} (sound : Sound s seen past flight) (stepped : bench.step s a = some (t, out)) :
    ∃ past flight', ((∀ cmd, a ≠ .send cmd) → t.charge flight' ≤ s.charge flight - if a = .edge then 1 else 0) ∧
      Sound t (seen ++ out) past flight' := by
  cases a with
  | send cmd =>
    obtain ⟨reset, same⟩ := Option.ite_none_right_eq_some.mp stepped
    cases same
    exact ⟨past, flight, fun unsent => absurd rfl (unsent cmd), sound.send reset⟩
  | wait =>
    obtain ⟨⟨reset, -⟩, same⟩ := Option.ite_none_right_eq_some.mp stepped
    cases same
    exact ⟨past, flight, fun _ => Nat.le_refl _, sound.wait reset⟩
  | pollDriver =>
    obtain ⟨due, same⟩ := Option.ite_none_right_eq_some.mp stepped
    cases same
    rw [List.append_nil]
    obtain ⟨flight', charge, polled⟩ := sound.pollDriver due
    exact ⟨past, flight', fun _ => charge, polled⟩
  | pollCmdMon =>
    obtain ⟨due, same⟩ := Option.ite_none_right_eq_some.mp stepped
    cases same
    rw [List.append_nil]
    exact ⟨past, flight, fun _ => Nat.le_refl _, sound.pollCmdMon due⟩
  | pollResultMon =>
    obtain ⟨due, same⟩ := Option.ite_none_right_eq_some.mp stepped
    cases same
    rw [List.append_nil]
    exact ⟨past, flight, fun _ => Nat.le_refl _, sound.pollResultMon due⟩
  | pollReset =>
    obtain ⟨next, polled, same⟩ := Option.map_eq_some_iff.mp stepped
    cases same
    rw [List.append_nil]
    refine ⟨past, flight, fun _ => ?_, sound.pollReset polled⟩
    rcases Bench.pollReset_cases polled with ⟨-, rfl⟩ | ⟨-, rfl⟩ | ⟨left, -, rfl⟩ <;> exact Nat.le_refl _
  | pollWaitIdle =>
    refine ⟨past, flight, fun _ => ?_, sound.pollWaitIdle stepped⟩
    obtain ⟨at_, rfl⟩ := Bench.pollWaitIdle_cases stepped
    exact Nat.le_refl _
  | forwardCmd =>
    simp only [bench, Bench.step] at stepped
    split at stepped
    · cases stepped
    · next cmd rest front =>
      cases stepped
      rw [List.append_nil]
      exact ⟨past, flight, fun _ => Nat.le_refl _, sound.forwardCmd front⟩
  | forwardResult =>
    simp only [bench, Bench.step] at stepped
    split at stepped
    · cases stepped
    · next res rest front =>
      cases stepped
      rw [List.append_nil]
      exact ⟨past, flight, fun _ => Nat.le_refl _, sound.forwardResult front⟩
  | readWrite =>
    obtain ⟨blocked, same⟩ := Option.ite_none_left_eq_some.mp stepped
    simp only [Bool.or_eq_true, List.isEmpty_iff, not_or, Bool.not_eq_true] at blocked
    cases same
    rw [List.append_nil]
    obtain ⟨past', flight', charge, applied⟩ := sound.readWrite blocked.2 blocked.1
    exact ⟨past', flight', fun _ => charge, applied⟩
  | edge =>
    obtain ⟨blocked, same⟩ := Option.ite_none_left_eq_some.mp stepped
    simp only [Bool.or_eq_true, Bool.not_eq_true', not_or, Bool.not_eq_false, List.isEmpty_iff,
      Bool.not_eq_true] at blocked
    cases same
    rw [List.append_nil]
    cases clk : s.clk with
    | true => exact ⟨past, flight, fun _ => sound.charge_fall clk, sound.fall blocked.1 clk⟩
    | false =>
      obtain ⟨flight', charge, risen⟩ := sound.rise blocked.1 blocked.2 clk
      exact ⟨past, flight', fun _ => charge, risen⟩

end Steps

theorem sound_powerUp (pins : Pins) (rtl : Rtl) : Sound (.powerUp pins rtl) [] [] .booting where
  place := .booting ⟨rfl, rfl, rfl, rfl, rfl⟩ rfl rfl rfl
  resets := rfl
  high high := by cases high
  sent := rfl
  commands := rfl
  results := rfl
  resetting _ := ⟨rfl, rfl⟩
  idle := by rintro - at_ ⟨⟩
  bound := by rintro n due ⟨⟩

/-- The books of a whole run. -/
theorem sound_of_run {pins : Pins} {rtl : Rtl} {actions : List Action} {s : Bench} {obs : List Obs}
    (ran : bench.run (.powerUp pins rtl) actions = some (s, obs)) : ∃ past flight, Sound s obs past flight := by
  refine bench.run_invariant_nil (fun s seen => ∃ past flight, Sound s seen past flight)
    ⟨[], .booting, sound_powerUp pins rtl⟩ ?_ ran
  rintro u v seen out a ⟨past, flight, sound⟩ stepped
  obtain ⟨past', flight', -, kept⟩ := sound.step stepped
  exact ⟨past', flight', kept⟩

end Rustdv.TinyAlu
