import Mathlib.Data.List.Range
import Mathlib.Data.List.Perm.Subperm
import Rustdv.Model.RuntimeTrace

/-! # The captures of the recorder

What happens to the file of a capture is read off the observations, and a reader that refuses a dump
outside of a capture, or one that is not later than those before it, refuses nothing. What the recorder
reports is what the reader has read.
-/

namespace Rustdv.Trace

/-- What has been read of the captures so far: whether one is open, when the last one was opened, when
something was last done to its file, and when it was dumped. -/
structure Reading where
  capturing : Bool
  start : ℕ
  last : ℕ
  dumps : List ℕ
deriving DecidableEq, Repr

def Reading.init : Reading := ⟨false, 0, 0, []⟩

/-- One observation; `none` if it does not belong there. -/
def Reading.see (r : Reading) : Obs → Option Reading
  | .file (.opened _ time) => if r.capturing then none else some ⟨true, time, time, []⟩
  | .file (.dumped time) =>
      if r.capturing ∧ ∀ d ∈ r.dumps, d < time then some { r with last := time, dumps := r.dumps ++ [time] } else none
  | .file (.closed time) => if r.capturing then some { r with capturing := false, last := time } else none
  | .file (.truncated _) | .file (.removed _) | .file .flushed | .answered _ => some r

/-- The observations are read from one reading to the other. -/
def Reads (r : Reading) (obs : List Obs) (r' : Reading) : Prop := obs.foldlM Reading.see r = some r'

theorem reads_append_iff {r r'' : Reading} {obs out : List Obs} :
    Reads r (obs ++ out) r'' ↔ ∃ r', Reads r obs r' ∧ Reads r' out r'' := by
  rw [Reads, List.foldlM_append]
  exact Option.bind_eq_some_iff

theorem Reads.append {r r' r'' : Reading} {obs out : List Obs} (first : Reads r obs r') (later : Reads r' out r'') :
    Reads r (obs ++ out) r'' := reads_append_iff.mpr ⟨r', first, later⟩

theorem Reads.nil (r : Reading) : Reads r [] r := rfl

theorem Reads.singleton {r r' : Reading} {o : Obs} (see : r.see o = some r') : Reads r [o] r' := by
  rw [Reads, List.foldlM_cons, see]
  rfl

/-- The dumps of a capture come one after the other. -/
theorem Reads.ascending {r r' : Reading} {obs : List Obs} (reads : Reads r obs r')
    (before : r.dumps.Pairwise (· < ·)) : r'.dumps.Pairwise (· < ·) := by
  induction obs generalizing r with
  | nil =>
    cases reads
    exact before
  | cons o obs ih =>
    rw [Reads, List.foldlM_cons] at reads
    obtain ⟨middle, see, later⟩ := Option.bind_eq_some_iff.mp reads
    refine ih later ?_
    match o, see with
    | .file (.opened _ time), see =>
      rw [Reading.see] at see
      split_ifs at see
      cases see
      exact .nil
    | .file (.dumped time), see =>
      rw [Reading.see] at see
      split_ifs at see with inside
      cases see
      refine List.pairwise_append.mpr ⟨before, List.pairwise_singleton _ _, fun d earlier _ now => ?_⟩
      rw [List.mem_singleton.mp now]
      exact inside.2 d earlier
    | .file (.closed time), see =>
      rw [Reading.see] at see
      split_ifs at see
      cases see
      exact before
    | .file (.truncated _), see | .file (.removed _), see | .file .flushed, see | .answered _, see =>
      cases see
      exact before

/-- Every part of what is read can be read, and a dump stands in an open capture. -/
theorem Reads.at {r : Reading} {obs : List Obs} (reads : Reads .init obs r) {before after : List Obs}
    (split : obs = before ++ after) : ∃ r', Reads .init before r' ∧ r'.dumps.Pairwise (· < ·) ∧
      ∀ time rest, after = .file (.dumped time) :: rest → r'.capturing = true := by
  rw [split] at reads
  obtain ⟨r', first, later⟩ := reads_append_iff.mp reads
  refine ⟨r', first, first.ascending .nil, ?_⟩
  rintro time rest rfl
  rw [Reads, List.foldlM_cons] at later
  obtain ⟨middle, see, -⟩ := Option.bind_eq_some_iff.mp later
  rw [Reading.see] at see
  split_ifs at see with inside
  exact inside.1

/-! ## The recorder and the reading -/

/-- The recorder reports what was read, and remembers the last dump of an open capture. -/
structure Agrees (t : RuntimeTrace) (now : ℕ) (r : Reading) : Prop where
  capturing : t.tracep = r.capturing
  start : t.startTime = r.start
  last : t.endTime = r.last
  count : t.dumpCount = r.dumps.length
  order : t.startTime ≤ t.endTime
  past : t.endTime ≤ now
  dumped : ∀ d ∈ r.dumps, d ≤ t.endTime
  remembered : t.tracep = true → t.hasLastDumpTime = true →
    (∀ d ∈ r.dumps, d ≤ t.lastDumpTime) ∧ t.lastDumpTime ≤ t.endTime
  forgotten : t.tracep = true → t.hasLastDumpTime = false → r.dumps = []

theorem Agrees.init : Agrees .init 0 .init :=
  ⟨rfl, rfl, rfl, rfl, le_rfl, le_rfl, fun _ member => absurd member List.not_mem_nil,
    fun closed => absurd closed Bool.false_ne_true, fun _ _ => rfl⟩

/-- Time goes on. -/
theorem Agrees.advance {t : RuntimeTrace} {now later : ℕ} {r : Reading} (agrees : Agrees t now r) (le : now ≤ later) :
    Agrees t later r :=
  { agrees with past := agrees.past.trans le }

/-- A dump is skipped or read. -/
theorem Agrees.dump {t : RuntimeTrace} {now : ℕ} {r : Reading} (agrees : Agrees t now r) :
    ∃ r', Reads r ((t.dumpSettledTime now).2.map .file) r' ∧ Agrees (t.dumpSettledTime now).1 now r' ∧
      (t.dumpSettledTime now).1.tracep = t.tracep := by
  rw [RuntimeTrace.dumpSettledTime]
  split_ifs with closed repeated
  · exact ⟨r, .nil r, agrees, rfl⟩
  · exact ⟨r, .nil r, agrees, rfl⟩
  · have inside : t.tracep = true := by simpa using closed
    -- What was dumped before lies behind, for the last dump is not of this time.
    have behind : ∀ d ∈ r.dumps, d < now := by
      intro d member
      cases has : t.hasLastDumpTime with
      | false =>
        rw [agrees.forgotten inside has] at member
        exact absurd member List.not_mem_nil
      | true =>
        obtain ⟨upto, past⟩ := agrees.remembered inside has
        have other : t.lastDumpTime ≠ now := fun same => repeated ⟨has, same⟩
        exact (upto d member).trans_lt (lt_of_le_of_ne (past.trans agrees.past) other)
    have upto : ∀ d ∈ r.dumps ++ [now], d ≤ now := by
      intro d member
      rcases List.mem_append.mp member with earlier | this
      · exact (behind d earlier).le
      · exact (List.mem_singleton.mp this).le
    refine ⟨{ r with last := now, dumps := r.dumps ++ [now] }, .singleton ?_, ?_, rfl⟩
    · exact if_pos ⟨agrees.capturing ▸ inside, behind⟩
    · refine ⟨agrees.capturing, agrees.start, rfl, ?_, agrees.order.trans agrees.past, le_rfl, upto, fun _ _ =>
        ⟨upto, le_rfl⟩, fun _ none => absurd none Bool.true_eq_false.mp⟩
      rw [agrees.count, List.length_append, List.length_singleton]

/-- Nothing is read of an observation that is not about a capture. -/
theorem reads_flushed (r : Reading) : Reads r [.file .flushed] r := .singleton rfl

theorem Agrees.flush {t next : RuntimeTrace} {now : ℕ} {r : Reading} {out : List FileObs} (agrees : Agrees t now r)
    (flushed : t.flush now = (.ok next, out)) : ∃ r', Reads r (out.map .file) r' ∧ Agrees next now r' := by
  rw [RuntimeTrace.flush] at flushed
  split_ifs at flushed
  · cases flushed
  · obtain ⟨r', reads, after, -⟩ := agrees.dump
    cases flushed
    rw [List.map_append]
    exact ⟨r', reads.append (reads_flushed r'), after⟩

theorem Agrees.stop {t next : RuntimeTrace} {now : ℕ} {r : Reading} {out : List FileObs} (agrees : Agrees t now r)
    (stopped : t.stop now = (.ok next, out)) : ∃ r', Reads r (out.map .file) r' ∧ Agrees next now r' := by
  rw [RuntimeTrace.stop] at stopped
  split_ifs at stopped with closed
  · cases stopped
  · obtain ⟨r', reads, after, same⟩ := agrees.dump
    have inside : r'.capturing = true := by
      rw [← after.capturing, same]
      simpa using closed
    cases stopped
    rw [List.map_append]
    refine ⟨{ r' with capturing := false, last := now }, reads.append (.singleton (if_pos inside)), ?_⟩
    exact ⟨rfl, after.start, rfl, after.count, after.order.trans after.past, le_rfl,
      fun d member => (after.dumped d member).trans after.past, fun opened => absurd opened Bool.false_ne_true,
      fun opened => absurd opened Bool.false_ne_true⟩

theorem Agrees.begin {t : RuntimeTrace} {now : ℕ} {r : Reading} (agrees : Agrees t now r)
    (closed : t.tracep = false) (path : String) (dumpNow : Bool) :
    ∃ r', Reads r ((t.begin now path dumpNow).2.map .file) r' ∧ Agrees (t.begin now path dumpNow).1 now r' := by
  have begun : Reads r [.file (.truncated path), .file (.opened path now)] ⟨true, now, now, []⟩ :=
    Reads.append (.singleton rfl) (.singleton (if_neg (by rw [← agrees.capturing, closed]; decide)))
  have opened : Agrees ⟨true, now, now, 0, t.lastDumpTime, false⟩ now ⟨true, now, now, []⟩ :=
    ⟨rfl, rfl, rfl, rfl, le_rfl, le_rfl, fun _ member => absurd member List.not_mem_nil,
      fun _ has => absurd has Bool.false_ne_true, fun _ _ => rfl⟩
  cases dumpNow with
  | false => exact ⟨_, begun, opened⟩
  | true =>
    obtain ⟨r', reads, after, -⟩ := opened.dump
    refine ⟨r', ?_, after⟩
    rw [RuntimeTrace.begin, if_pos rfl, List.map_append, List.map_append]
    exact (begun.append reads).append (reads_flushed r')

/-- A start fails, with nothing to read, or opens a capture. -/
theorem start_cases (t : RuntimeTrace) (now : ℕ) (path : Option String) (files : FileOps) (dumpNow : Bool) :
    (∃ text code out, t.start now path files dumpNow = (.error (text, code), out) ∧ code ≠ 0 ∧
      ∀ r, Reads r (out.map .file) r) ∨
    ∃ file, t.tracep = false ∧
      t.start now path files dumpNow = (.ok (t.begin now file dumpNow).1, (t.begin now file dumpNow).2) := by
  unfold RuntimeTrace.start
  by_cases active : t.tracep = true
  · rw [if_pos active]
    exact .inl ⟨_, _, _, rfl, by decide, fun r => .nil r⟩
  · rw [if_neg active]
    split
    · exact .inl ⟨_, _, _, rfl, by decide, fun r => .nil r⟩
    · exact .inl ⟨_, _, _, rfl, by decide, fun r => .nil r⟩
    · next file _ =>
      split_ifs
      · exact .inl ⟨_, _, _, rfl, by decide, fun r => .nil r⟩
      · exact .inl ⟨_, _, _, rfl, by decide, fun r => rfl⟩
      · exact .inl ⟨_, _, _, rfl, by decide, fun r => rfl⟩
      · exact .inr ⟨file, by simpa using active, rfl⟩

theorem stop_cases (t : RuntimeTrace) (now : ℕ) :
    (∃ text code, t.stop now = (.error (text, code), []) ∧ code ≠ 0) ∨ ∃ next out, t.stop now = (.ok next, out) := by
  rw [RuntimeTrace.stop]
  split_ifs
  · exact .inl ⟨_, _, rfl, by decide⟩
  · exact .inr ⟨_, _, rfl⟩

theorem flush_cases (t : RuntimeTrace) (now : ℕ) :
    (∃ text code, t.flush now = (.error (text, code), []) ∧ code ≠ 0) ∨ ∃ next out, t.flush now = (.ok next, out) := by
  rw [RuntimeTrace.flush]
  split_ifs
  · exact .inl ⟨_, _, rfl, by decide⟩
  · exact .inr ⟨_, _, rfl⟩

/-! ## Commands -/

/-- What a command does: it fails and changes nothing, or it succeeds. -/
structure Outcome (h t : Host) (out : List Obs) : Prop where
  time : t.time = h.time
  reads : ∀ r, Agrees h.trace h.time r → ∃ r', Reads r out r' ∧ Agrees t.trace t.time r'
  answer : ∀ answer, .answered answer ∈ out → answer.status = t.fillTraceStatus ∧
    (answer.error ≠ none ↔ answer.code ≠ 0) ∧ (answer.code ≠ 0 → t = h)

/-- A command that leaves everything as it is, and answers. -/
theorem Outcome.unchanged {h : Host} {out : List FileObs} {code : ℕ} {error : Option String}
    (reads : ∀ r, Reads r (out.map .file) r) (told : error ≠ none ↔ code ≠ 0) :
    Outcome h h (out.map .file ++ [.answered ⟨code, h.fillTraceStatus, error⟩]) where
  time := rfl
  reads r agrees := ⟨r, (reads r).append (.singleton rfl), agrees⟩
  answer answer member := by
    rcases List.mem_append.mp member with file | own
    · obtain ⟨o, -, same⟩ := List.mem_map.mp file
      cases same
    · cases List.mem_singleton.mp own
      exact ⟨rfl, told, fun _ => rfl⟩

/-- A command that succeeds. -/
theorem Outcome.succeeded {h : Host} {trace : RuntimeTrace} {out : List FileObs}
    (reads : ∀ r, Agrees h.trace h.time r → ∃ r', Reads r (out.map .file) r' ∧ Agrees trace h.time r') :
    Outcome h (h.conclude (.ok trace, out)).1 (h.conclude (.ok trace, out)).2 where
  time := rfl
  reads r agrees := by
    obtain ⟨r', read, after⟩ := reads r agrees
    exact ⟨r', read.append (.singleton rfl), after⟩
  answer answer member := by
    rcases List.mem_append.mp member with file | own
    · obtain ⟨o, -, same⟩ := List.mem_map.mp file
      cases same
    · cases List.mem_singleton.mp own
      exact ⟨rfl, iff_of_false (fun none => none rfl) fun failed => failed rfl, fun failed => absurd rfl failed⟩

theorem outcome (h : Host) (command : ℕ) (path : Option String) (files : FileOps) :
    Outcome h (h.traceControl command path files).1 (h.traceControl command path files).2 := by
  have quiet {code : ℕ} {error : Option String} (told : error ≠ none ↔ code ≠ 0) :
      Outcome h h [.answered ⟨code, h.fillTraceStatus, error⟩] :=
    have nothing (r : Reading) : Reads r (([] : List FileObs).map .file) r := .nil r
    Outcome.unchanged nothing told
  have refused {text : String} {code : ℕ} (failed : code ≠ 0) : some text ≠ none ↔ code ≠ 0 :=
    iff_of_true (Option.some_ne_none text) failed
  unfold Host.traceControl
  by_cases built : h.available = true
  swap
  · rw [if_pos (by simpa using built)]
    exact quiet (refused (by decide))
  rw [if_neg (by simpa using built)]
  rcases command with _ | _ | _ | _ | other
  · exact quiet (iff_of_false (fun none => none rfl) fun failed => failed rfl)
  · rcases start_cases h.trace h.time path files true with ⟨text, code, out, same, failed, reads⟩ | ⟨file, closed, same⟩
    · simp only [same]
      exact Outcome.unchanged reads (refused failed)
    · simp only [same]
      exact Outcome.succeeded fun r agrees => agrees.begin closed file true
  · rcases stop_cases h.trace h.time with ⟨text, code, same, failed⟩ | ⟨next, out, same⟩
    · simp only [same]
      exact quiet (refused failed)
    · simp only [same]
      exact Outcome.succeeded fun r agrees => agrees.stop same
  · rcases flush_cases h.trace h.time with ⟨text, code, same, failed⟩ | ⟨next, out, same⟩
    · simp only [same]
      exact quiet (refused failed)
    · simp only [same]
      exact Outcome.succeeded fun r agrees => agrees.flush same
  · exact quiet (refused (by decide))

/-! ## Whole runs -/

/-- What holds at every point of a run. -/
def Books (h : Host) (obs : List Obs) : Prop :=
  h.time < noDeadline ∧ ∃ r, Reads .init obs r ∧ Agrees h.trace h.time r

theorem Books.step {h t : Host} {obs out : List Obs} {a : Action} (books : Books h obs)
    (stepped : h.step a = some (t, out)) : Books t (obs ++ out) := by
  obtain ⟨early, r, reads, agrees⟩ := books
  cases a with
  | control command path files =>
    have commanded : h.traceControl command path files = (t, out) := Option.some_inj.mp stepped
    obtain ⟨time, later, -⟩ := outcome h command path files
    rw [commanded] at time later
    obtain ⟨r', read, after⟩ := later r agrees
    exact ⟨time ▸ early, r', reads.append read, after⟩
  | environment path files =>
    rw [Host.step] at stepped
    split_ifs at stepped
    · cases stepped
      rw [List.append_nil]
      exact ⟨early, r, reads, agrees⟩
    · rcases start_cases h.trace h.time path files false with ⟨text, code, out', same, -, unread⟩ | ⟨file, closed, same⟩
      · rw [same] at stepped
        cases stepped
        exact ⟨early, r, reads.append (unread r), agrees⟩
      · rw [same] at stepped
        cases stepped
        obtain ⟨r', read, after⟩ := agrees.begin closed file false
        exact ⟨early, r', reads.append read, after⟩
  | dumpSettledTime =>
    cases stepped
    obtain ⟨r', read, after, -⟩ := agrees.dump
    exact ⟨early, r', reads.append read, after⟩
  | advance deadline =>
    rw [Host.step] at stepped
    split_ifs at stepped with later
    cases stepped
    rw [List.append_nil]
    exact ⟨later.2, r, reads, agrees.advance later.1⟩

theorem Books.init (available : Bool) : Books (.init available) [] :=
  ⟨Nat.sub_pos_of_lt (Nat.one_lt_two_pow (by decide)), .init, .nil _, .init⟩

/-- Numbers that come one after the other, up to a bound, are no more than the bound allows. -/
theorem length_le_of_ascending {l : List ℕ} {n : ℕ} (ascending : l.Pairwise (· < ·)) (upto : ∀ d ∈ l, d ≤ n) :
    l.length ≤ n + 1 := by
  have distinct : l.Nodup := ascending.imp fun less => less.ne
  have inside : l ⊆ List.range (n + 1) := fun d member => List.mem_range.mpr (Nat.lt_succ_of_le (upto d member))
  have fewer := (List.subperm_of_subset distinct inside).length_le
  rwa [List.length_range] at fewer

/-- In every run the captures can be read off what happened to the files: every dump belongs to an open
capture and is later than those before it. The recorder reports whether a capture is open, its start,
the last time something was done to it and the number of its dumps, and a failed command changes
nothing. -/
theorem captures_are_consistent {available : Bool} {actions : List Action} {h : Host} {obs : List Obs}
    (ran : host.run (.init available) actions = some (h, obs)) :
    (∀ before after, obs = before ++ after → ∃ r, Reads .init before r ∧ r.dumps.Pairwise (· < ·) ∧
      ∀ time rest, after = .file (.dumped time) :: rest → r.capturing = true) ∧
    (∃ r, Reads .init obs r ∧ h.trace.tracep = r.capturing ∧ h.trace.startTime = r.start ∧
      h.trace.endTime = r.last ∧ h.trace.dumpCount = r.dumps.length ∧ r.dumps.length < 2 ^ 64) ∧
    h.trace.startTime ≤ h.trace.endTime ∧ h.trace.endTime ≤ h.time ∧
    ∀ command path files t out answer, h.step (.control command path files) = some (t, out) →
      .answered answer ∈ out → answer.status = t.fillTraceStatus ∧ (answer.error ≠ none ↔ answer.code ≠ 0) ∧
        (answer.code ≠ 0 → t = h) := by
  obtain ⟨early, r, reads, agrees⟩ := host.run_invariant_nil Books (.init available) (fun books => books.step) ran
  have few : r.dumps.length < 2 ^ 64 := by
    have upto := length_le_of_ascending (reads.ascending .nil) fun d member =>
      (agrees.dumped d member).trans agrees.past
    rw [noDeadline] at early
    omega
  refine ⟨fun before after => reads.at, ⟨r, reads, agrees.capturing, agrees.start, agrees.last, agrees.count, few⟩,
    agrees.order, agrees.past, ?_⟩
  intro command path files t out answer stepped answered
  have commanded : h.traceControl command path files = (t, out) := Option.some_inj.mp stepped
  have answers := (outcome h command path files).answer
  rw [commanded] at answers
  exact answers answer answered

/-- A capture that is stopped and started again at one time, and a start that fails. -/
def restarted : List Action :=
  [.control 1 (some "a.fst") ⟨true, true, true⟩, .dumpSettledTime, .advance 5, .control 2 none ⟨true, true, true⟩,
    .control 1 (some "b.fst") ⟨true, true, true⟩, .control 1 (some "c.fst") ⟨true, true, true⟩, .dumpSettledTime]

theorem captures_are_consistent_restarted :
    ∃ h obs, host.run (.init true) restarted = some (h, obs) ∧ h.trace.startTime = 5 ∧ h.trace.dumpCount = 1 ∧
      h.trace.endTime ≤ h.time := by
  obtain ⟨h, obs, ran, start, count⟩ : ∃ h obs, host.run (.init true) restarted = some (h, obs) ∧
      h.trace.startTime = 5 ∧ h.trace.dumpCount = 1 := ⟨_, _, rfl, rfl, rfl⟩
  exact ⟨h, obs, ran, start, count, (captures_are_consistent ran).2.2.2.1⟩

end Rustdv.Trace
