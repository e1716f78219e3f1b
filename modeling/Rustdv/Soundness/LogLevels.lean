import Rustdv.Model.Log
import Rustdv.Model.Path
import Rustdv.ToMathlib.Segments

/-! # The settings that count for a path

The prefixes that cover a path are its ancestors and itself, and of two of them the deeper one is the
longer text. One entry is kept for each prefix, the latest. So the entry that is found is the latest
setting of the deepest configured ancestor.
-/

namespace Rustdv.Log

/-! ## Ancestors -/

/-- An ancestor of a path, or the path itself; the empty text is above every path. -/
def Ancestor (q p : String) : Prop := q = "" ∨ p = q ∨ q.toList ++ ['.'] <+: p.toList

/-- How many segments a text has; the empty one has none. -/
def depth (q : String) : ℕ := if q = "" then 0 else (q.toList.splitOn '.').length

theorem strIsUnder_iff {p q : String} : strIsUnder p q = true ↔ Ancestor q p := by
  rw [strIsUnder, Bool.or_eq_true, decide_eq_true_iff, List.isPrefixOf_iff_prefix, List.splitOn_prefix_iff, Ancestor,
    String.toList_inj, eq_comm (a := p)]

theorem depth_pos {q : String} (nonempty : q ≠ "") : 0 < depth q := by
  rw [depth, if_neg nonempty]
  exact List.length_pos_iff.mpr (List.splitOn_ne_nil _ _)

/-- Beside the empty text, an ancestor has the first segments of the path. -/
theorem Ancestor.segments {q p : String} (above : Ancestor q p) (nonempty : q ≠ "") :
    q.toList.splitOn '.' <+: p.toList.splitOn '.' := by
  rw [List.splitOn_prefix_iff, String.toList_inj, eq_comm]
  exact above.resolve_left nonempty

/-- Two ancestors of one path at the same depth are the same. -/
theorem Ancestor.eq_of_depth {p q q' : String} (above : Ancestor q p) (above' : Ancestor q' p)
    (same : depth q = depth q') : q = q' := by
  by_cases empty : q = ""
  · by_cases empty' : q' = ""
    · rw [empty, empty']
    · have zero : depth q = 0 := if_pos empty
      exact absurd (same ▸ zero) (depth_pos empty').ne'
  · by_cases empty' : q' = ""
    · have zero : depth q' = 0 := if_pos empty'
      exact absurd (same.trans zero) (depth_pos empty).ne'
    · rw [depth, depth, if_neg empty, if_neg empty'] at same
      exact String.toList_inj.mp (List.eq_of_same_segments (above.segments empty) (above'.segments empty') same)

theorem size_lt_of_prefix {q q' : String} (begins : q.toList ++ ['.'] <+: q'.toList) :
    q.utf8ByteSize < q'.utf8ByteSize := by
  obtain ⟨rest, whole⟩ := begins
  have text : q' = q ++ String.ofList ('.' :: rest) := by
    rw [← String.toList_inj, ← whole, String.toList_append, String.toList_ofList, List.append_assoc]
    rfl
  have more : 0 < (String.ofList ('.' :: rest)).utf8ByteSize := by
    rw [Nat.pos_iff_ne_zero, Ne, String.utf8ByteSize_eq_zero_iff]
    intro empty
    have chars := congrArg String.toList empty
    rw [String.toList_ofList] at chars
    cases chars
  rw [text, String.utf8ByteSize_append]
  exact Nat.lt_add_of_pos_right more

/-- The deeper of two ancestors is the longer text. -/
theorem Ancestor.size_lt {p q q' : String} (above : Ancestor q p) (above' : Ancestor q' p)
    (deeper : depth q < depth q') : q.utf8ByteSize < q'.utf8ByteSize := by
  have nonempty' : q' ≠ "" := by
    rintro rfl
    exact Nat.not_lt_zero _ deeper
  by_cases empty : q = ""
  · rw [empty, String.utf8ByteSize_empty, Nat.pos_iff_ne_zero, Ne, String.utf8ByteSize_eq_zero_iff]
    exact nonempty'
  · rw [depth, depth, if_neg empty, if_neg nonempty'] at deeper
    exact size_lt_of_prefix
      (List.prefix_of_fewer_segments (above.segments empty) (above'.segments nonempty') deeper)

/-! ## What is kept of the history -/

section History

variable {α : Type*}

/-- The value that was given last. -/
def latest (f : Setting → Option α) (history : List Setting) : Option α := history.reverse.findSome? f

theorem latest_concat (f : Setting → Option α) (history : List Setting) (s : Setting) :
    latest f (history ++ [s]) = (f s).or (latest f history) := by
  rw [latest, List.reverse_append, List.reverse_singleton, List.singleton_append, List.findSome?_cons]
  cases f s <;> rfl

theorem configured_concat (history : List Setting) (s : Setting) :
    configured (history ++ [s]) = (configured history).perform s := by
  rw [configured, List.foldl_append]
  rfl

theorem mem_replace {settings : List (String × α)} {above q : String} {value v : α} :
    (q, v) ∈ LogConfig.replace settings above value ↔ if above = q then value = v else (q, v) ∈ settings := by
  rw [LogConfig.replace, List.mem_append, List.mem_filter, List.mem_singleton, Prod.mk.injEq, decide_eq_true_iff]
  split_ifs with same
  · rw [same]
    simp only [ne_eq, not_true_eq_false, and_false, true_and, false_or, eq_comm]
  · simp only [Ne.symm same, ne_eq, not_false_eq_true, and_true, false_and, or_false]

end History

/-- The level that a call sets for a prefix. -/
def Setting.levelFor (q : String) : Setting → Option Level
  | .setLevelFor above l => if above = q then some l else none
  | _ => none

/-- The console switch that a call sets for a prefix. -/
def Setting.consoleFor (q : String) : Setting → Option Bool
  | .setConsoleFor above enabled => if above = q then some enabled else none
  | _ => none

/-- The threshold that a call sets. -/
def Setting.threshold : Setting → Option Level
  | .setLevel l => some l
  | _ => none

def levelOf (history : List Setting) (q : String) : Option Level := latest (Setting.levelFor q) history

def consoleOf (history : List Setting) (q : String) : Option Bool := latest (Setting.consoleFor q) history

def thresholdOf (history : List Setting) : Level := (latest Setting.threshold history).getD .info

/-- The levels kept are the latest of each prefix. -/
theorem mem_targetLevels {history : List Setting} {q : String} {l : Level} :
    (q, l) ∈ (configured history).targetLevels ↔ levelOf history q = some l := by
  induction history using List.reverseRecOn with
  | nil => exact ⟨fun kept => absurd kept List.not_mem_nil, fun given => nomatch given⟩
  | append_singleton history s ih =>
    rw [configured_concat, levelOf, latest_concat]
    cases s with
    | setLevelFor above l' =>
      rw [LogConfig.perform, LogConfig.setLevelFor, mem_replace, Setting.levelFor]
      split_ifs
      · rw [Option.some_or, Option.some_inj]
      · exact ih
    | setLevel | setConsoleFor | logToFile | removeLogFile | addFileFor => exact ih

/-- So are the console switches. -/
theorem mem_targetConsole {history : List Setting} {q : String} {on : Bool} :
    (q, on) ∈ (configured history).targetConsole ↔ consoleOf history q = some on := by
  induction history using List.reverseRecOn with
  | nil => exact ⟨fun kept => absurd kept List.not_mem_nil, fun given => nomatch given⟩
  | append_singleton history s ih =>
    rw [configured_concat, consoleOf, latest_concat]
    cases s with
    | setConsoleFor above enabled =>
      rw [LogConfig.perform, LogConfig.setConsoleFor, mem_replace, Setting.consoleFor]
      split_ifs
      · rw [Option.some_or, Option.some_inj]
      · exact ih
    | setLevel | setLevelFor | logToFile | removeLogFile | addFileFor => exact ih

theorem threshold_configured (history : List Setting) : (configured history).threshold = thresholdOf history := by
  induction history using List.reverseRecOn with
  | nil => rfl
  | append_singleton history s ih =>
    rw [configured_concat, thresholdOf, latest_concat]
    cases s with
    | setLevel l => rfl
    | setLevelFor | setConsoleFor | logToFile | removeLogFile | addFileFor => exact ih

/-! ## The entry that is found -/

section Longest

variable {α : Type*}

/-- The turn of `max_by_key`: the later one of two equals stays. -/
def longer (best : Option (String × α)) (e : String × α) : Option (String × α) :=
  match best with
  | none => some e
  | some b => if b.1.utf8ByteSize ≤ e.1.utf8ByteSize then some e else some b

theorem longest_eq (settings : List (String × α)) (path : String) :
    LogConfig.longest settings path =
      ((settings.filter fun e => strIsUnder path e.1).foldl longer none).map Prod.snd := rfl

/-- One of the entries is picked, and none is longer. -/
theorem foldl_longer (l : List (String × α)) (b : String × α) :
    ∃ r, l.foldl longer (some b) = some r ∧ r ∈ b :: l ∧ ∀ e ∈ b :: l, e.1.utf8ByteSize ≤ r.1.utf8ByteSize := by
  induction l generalizing b with
  | nil => exact ⟨b, rfl, List.mem_singleton.mpr rfl, fun e only => by rw [List.mem_singleton.mp only]⟩
  | cons e l ih =>
    rw [List.foldl_cons, longer]
    split_ifs with longer_next
    · obtain ⟨r, picked, member, longest⟩ := ih e
      refine ⟨r, picked, List.mem_cons_of_mem _ member, fun x other => ?_⟩
      rcases List.mem_cons.mp other with rfl | later
      · exact longer_next.trans (longest e List.mem_cons_self)
      · exact longest x later
    · obtain ⟨r, picked, member, longest⟩ := ih b
      refine ⟨r, picked, ?_, fun x other => ?_⟩
      · rcases List.mem_cons.mp member with own | later
        · exact List.mem_cons.mpr (.inl own)
        · exact List.mem_cons_of_mem _ (List.mem_cons_of_mem _ later)
      · rcases List.mem_cons.mp other with rfl | later
        · exact longest x List.mem_cons_self
        · rcases List.mem_cons.mp later with rfl | later'
          · exact (Nat.le_of_not_le longer_next).trans (longest b List.mem_cons_self)
          · exact longest x (List.mem_cons_of_mem _ later')

/-- The value that the deepest configured ancestor of a path was given. -/
def Effective (given : String → Option α) (p : String) (v : α) : Prop :=
  ∃ q, given q = some v ∧ Ancestor q p ∧
    ∀ q' ≠ q, given q' ≠ none → Ancestor q' p → depth q' < depth q

/-- No ancestor of a path is configured. -/
def Unset (given : String → Option α) (p : String) : Prop := ∀ q, given q ≠ none → ¬ Ancestor q p

theorem Effective.unique {given : String → Option α} {p : String} {v v' : α} (first : Effective given p v)
    (second : Effective given p v') : v = v' := by
  obtain ⟨q, value, above, deepest⟩ := first
  obtain ⟨q', value', above', deepest'⟩ := second
  by_cases same : q' = q
  · rw [same, value] at value'
    exact Option.some_inj.mp value'
  · have here : given q ≠ none := by rw [value]; exact Option.some_ne_none v
    have there : given q' ≠ none := by rw [value']; exact Option.some_ne_none v'
    exact absurd (deepest q' same there above') (deepest' q (Ne.symm same) here above).not_gt

/-- The lookup finds the value of the deepest configured ancestor, if there is one. -/
theorem longest_cases {given : String → Option α} {settings : List (String × α)}
    (kept : ∀ q v, (q, v) ∈ settings ↔ given q = some v) (p : String) :
    (∃ v, LogConfig.longest settings p = some v ∧ Effective given p v) ∨
      LogConfig.longest settings p = none ∧ Unset given p := by
  have covering (e : String × α) : e ∈ settings.filter (fun e => strIsUnder p e.1) ↔
      given e.1 = some e.2 ∧ Ancestor e.1 p := by
    rw [List.mem_filter, strIsUnder_iff, ← kept e.1 e.2]
  rw [longest_eq]
  cases found : settings.filter fun e => strIsUnder p e.1 with
  | nil =>
    refine .inr ⟨rfl, fun q set above => ?_⟩
    obtain ⟨v, value⟩ := Option.ne_none_iff_exists'.mp set
    have covered := (covering (q, v)).mpr ⟨value, above⟩
    rw [found] at covered
    exact absurd covered List.not_mem_nil
  | cons b l =>
    obtain ⟨r, picked, member, longest⟩ := foldl_longer l b
    have first : longer none b = some b := rfl
    rw [List.foldl_cons, first, picked]
    rw [← found] at member longest
    obtain ⟨value, above⟩ := (covering r).mp member
    refine .inl ⟨r.2, rfl, r.1, value, above, fun q other set above' => ?_⟩
    obtain ⟨v, value'⟩ := Option.ne_none_iff_exists'.mp set
    have shorter := longest (q, v) ((covering (q, v)).mpr ⟨value', above'⟩)
    rcases Nat.lt_trichotomy (depth q) (depth r.1) with less | same | more
    · exact less
    · exact absurd (above'.eq_of_depth above same) other
    · exact absurd (above.size_lt above' more) shorter.not_gt

end Longest

/-! ## Paths of the walk -/

open RustdvPath

theorem walk_concat (names : List Segment) (name : Segment) :
    walk (names ++ [name]) = (walk names).child name.text := by
  rw [walk, List.foldl_append]
  rfl

theorem segments_walk (names : List Segment) : (walk names).segments = names.map Segment.text := by
  induction names using List.reverseRecOn with
  | nil => rfl
  | append_singleton names name ih =>
    rw [walk_concat, child, ih, List.map_append]
    rfl

theorem toList_childPath {path : String} (nonempty : path ≠ "") (name : String) :
    (childPath path name).toList = path.toList ++ '.' :: name.toList := by
  rw [childPath, if_neg nonempty]
  change ((path ++ ".") ++ name).toList = _
  rw [String.toList_append, String.toList_append, List.append_assoc]
  rfl

theorem childPath_ne_empty (path : String) {name : String} (nonempty : name ≠ "") : childPath path name ≠ "" := by
  rcases eq_or_ne path "" with rfl | inside
  · exact nonempty
  · intro empty
    have chars := congrArg String.toList empty
    rw [toList_childPath inside] at chars
    exact List.append_ne_nil_of_right_ne_nil _ (List.cons_ne_nil _ _) chars

/-- Only the empty path has no text. -/
theorem rendered_eq_empty_iff {names : List Segment} : (walk names).rendered = "" ↔ names = [] := by
  rcases names.eq_nil_or_concat' with rfl | ⟨front, last, rfl⟩
  · exact iff_of_true rfl rfl
  · refine iff_of_false ?_ (List.concat_ne_nil _ _)
    rw [walk_concat]
    exact childPath_ne_empty _ last.nonempty

/-- The names, with a dot between them. -/
theorem rendered_walk (names : List Segment) :
    (walk names).rendered.toList = ['.'].intercalate (names.map fun n => n.text.toList) := by
  induction names using List.reverseRecOn with
  | nil => rfl
  | append_singleton names name ih =>
    rw [walk_concat, child, List.map_append, List.map_singleton]
    rcases eq_or_ne names [] with rfl | inside
    · exact List.intercalate_singleton.symm
    · rw [toList_childPath (mt rendered_eq_empty_iff.mp inside), ih,
        List.intercalate_append_of_ne_nil (mt List.map_eq_nil_iff.mp inside) (List.cons_ne_nil _ _),
        List.intercalate_singleton]

/-- The segments of the text are the names. -/
theorem splitOn_walk {names : List Segment} (nonempty : names ≠ []) :
    (walk names).rendered.toList.splitOn '.' = names.map fun n => n.text.toList := by
  rw [rendered_walk]
  refine List.splitOn_intercalate '.' ?_ (mt List.map_eq_nil_iff.mp nonempty)
  intro segment member
  obtain ⟨n, -, rfl⟩ := List.mem_map.mp member
  exact n.plain

theorem depth_walk (names : List Segment) : depth (walk names).rendered = (walk names).depth := by
  rw [RustdvPath.depth, segments_walk, List.length_map, depth]
  split_ifs with empty
  · rw [rendered_eq_empty_iff.mp empty]
    rfl
  · rw [splitOn_walk (mt rendered_eq_empty_iff.mpr empty), List.length_map]

theorem isUnder_iff {p above : RustdvPath} : p.isUnder above = true ↔ above.segments <+: p.segments := by
  rw [isUnder, Bool.and_eq_true, decide_eq_true_iff, beq_iff_eq, List.prefix_iff_eq_take]
  constructor
  · exact fun under => under.2.symm
  · intro begins
    refine ⟨?_, begins.symm⟩
    have short := congrArg List.length begins
    rw [List.length_take] at short
    exact short ▸ Nat.min_le_right ..

/-- The test on texts is the test on typed paths. -/
theorem strIsUnder_walk (names above : List Segment) :
    strIsUnder (walk names).rendered (walk above).rendered = (walk names).isUnder (walk above) := by
  rw [Bool.eq_iff_iff, isUnder_iff, segments_walk, segments_walk]
  rcases eq_or_ne above [] with rfl | inside
  · exact iff_of_true rfl List.nil_prefix
  · rcases eq_or_ne names [] with rfl | inside'
    · -- The empty text is below no other text.
      refine iff_of_false ?_ (mt List.prefix_nil.mp (mt List.map_eq_nil_iff.mp inside))
      have nonempty := mt rendered_eq_empty_iff.mp inside
      rw [strIsUnder_iff]
      rintro (empty | same | begins)
      · exact nonempty empty
      · exact nonempty same.symm
      · exact List.append_ne_nil_of_right_ne_nil _ (List.cons_ne_nil _ _) (List.prefix_nil.mp begins)
    · have texts (l : List Segment) : (l.map fun n => n.text.toList) = (l.map Segment.text).map String.toList := by
        rw [List.map_map]
        rfl
      rw [strIsUnder, Bool.or_eq_true, decide_eq_true_iff, or_iff_right (mt rendered_eq_empty_iff.mp inside),
        List.isPrefixOf_iff_prefix, splitOn_walk inside, splitOn_walk inside', texts, texts,
        List.prefix_map_iff_of_injective fun _ _ => String.toList_inj.mp]

/-! ## What is effective -/

theorem level_cases (history : List Setting) (p : String) :
    (∃ l, Effective (levelOf history) p l ∧
        ∀ level, (configured history).enabled p level = decide (l.rank ≤ level.rank)) ∨
      (Unset (levelOf history) p ∧
        ∀ level, (configured history).enabled p level = decide ((thresholdOf history).rank ≤ level.rank)) := by
  rcases longest_cases (fun q v => mem_targetLevels) p with ⟨l, found, effective⟩ | ⟨found, unset⟩
  · refine .inl ⟨l, effective, fun level => ?_⟩
    rw [LogConfig.enabled, found, Option.getD_some]
  · refine .inr ⟨unset, fun level => ?_⟩
    rw [LogConfig.enabled, found, Option.getD_none, threshold_configured]

theorem console_cases (history : List Setting) (p : String) :
    Effective (consoleOf history) p ((configured history).consoleEnabledFor p) ∨
      (Unset (consoleOf history) p ∧ (configured history).consoleEnabledFor p = true) := by
  rcases longest_cases (fun q v => mem_targetConsole) p with ⟨on, found, effective⟩ | ⟨found, unset⟩
  · left
    rw [LogConfig.consoleEnabledFor, found]
    exact effective
  · right
    rw [LogConfig.consoleEnabledFor, found]
    exact ⟨unset, rfl⟩

/-- The level and the console switch of a path of the walk are those that its deepest configured
ancestor was given last, and no other ancestor is as deep; without one they are the threshold and on.
That a text is above the path can be told from the texts as from the typed paths. -/
theorem deepest_ancestor_decides (history : List Setting) (names : List Segment) :
    ((∃ l, Effective (levelOf history) (walk names).rendered l ∧
        ∀ level, (configured history).enabled (walk names).rendered level = decide (l.rank ≤ level.rank)) ∨
      (Unset (levelOf history) (walk names).rendered ∧ ∀ level,
        (configured history).enabled (walk names).rendered level = decide ((thresholdOf history).rank ≤ level.rank))) ∧
    (Effective (consoleOf history) (walk names).rendered ((configured history).consoleEnabledFor (walk names).rendered) ∨
      (Unset (consoleOf history) (walk names).rendered ∧
        (configured history).consoleEnabledFor (walk names).rendered = true)) ∧
    (∀ q, strIsUnder (walk names).rendered q = true ↔ Ancestor q (walk names).rendered) ∧
    ∀ above, (strIsUnder (walk names).rendered (walk above).rendered = (walk names).isUnder (walk above)) ∧
      depth (walk above).rendered = (walk above).depth :=
  ⟨level_cases history _, console_cases history _, fun _ => strIsUnder_iff,
    fun above => ⟨strIsUnder_walk names above, depth_walk above⟩⟩

end Rustdv.Log
