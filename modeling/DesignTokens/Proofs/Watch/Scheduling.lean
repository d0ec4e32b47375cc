import DesignTokens.Watch.Scheduler

/-!
# What a scheduler has been told and what it does

Requests, polls and ends of rebuilds may come in any order and at any times. A request is pending until
a poll after it starts a rebuild, and a rebuild is under way until a finish comes after its start. The
three states of a scheduler tell no more and no less than these two facts about the calls so far, so no
request is lost and no two rebuilds run at once. Where times do not go back, a deadline is as late as the
gathering of every request asks.
-/

namespace DesignTokens.Scheduler

/-! ## Calls and histories -/

/-- A call at a time. -/
inductive Call where
  | request (now : Time)
  | poll (now : Time)
  | finish (now : Time)
deriving DecidableEq

namespace Call

def time : Call → Time
  | .request now => now
  | .poll now => now
  | .finish now => now

def isRequest : Call → Bool
  | .request _ => true
  | _ => false

def isFinish : Call → Bool
  | .finish _ => true
  | _ => false

end Call

/-- The scheduler after a call, and whether the call started a rebuild; only a poll does. -/
def call (s : Scheduler) : Call → Scheduler × Bool
  | .request now => (s.request now, false)
  | .poll now => s.pollReady now
  | .finish now => (s.finish now, false)

/-- A call with its answer. -/
structure Entry where
  call : Call
  started : Bool
deriving DecidableEq

def after (s : Scheduler) (calls : List Call) : Scheduler :=
  calls.foldl (fun before c => (before.call c).1) s

/-- The calls with their answers, the first one first. -/
def history (s : Scheduler) : List Call → List Entry
  | [] => []
  | c :: rest => ⟨c, (s.call c).2⟩ :: history (s.call c).1 rest

/-- Every entry of a history is the answer of the scheduler that the calls before it lead to. -/
theorem exists_calls_of_history {s : Scheduler} {calls : List Call} {before later : List Entry}
    {entry : Entry} (h : s.history calls = before ++ entry :: later) :
    ∃ first rest, calls = first ++ entry.call :: rest ∧ s.history first = before ∧
      ((s.after first).call entry.call).2 = entry.started := by
  induction calls generalizing s before with
  | nil => simp [history] at h
  | cons c rest ih =>
      rw [history] at h
      cases before with
      | nil =>
          obtain ⟨rfl, rfl⟩ := List.cons.inj h
          exact ⟨[], rest, rfl, rfl, rfl⟩
      | cons found more =>
          obtain ⟨rfl, hmore⟩ := List.cons.inj h
          obtain ⟨first, others, rfl, rfl, hstarted⟩ := ih hmore
          exact ⟨c :: first, others, rfl, rfl, hstarted⟩

/-! ## Transitions -/

/-- How a call takes one state to the next, and whether it starts a rebuild. -/
inductive Transition (debounce : Time) : ScheduleState → Call → ScheduleState → Bool → Prop where
  | gather (now : Time) {state : ScheduleState} (h : ∀ rerun, state ≠ .running rerun) :
      Transition debounce state (.request now) (.debouncing (now + debounce)) false
  | note (now : Time) (rerun : Bool) :
      Transition debounce (.running rerun) (.request now) (.running true) false
  | begin (now : Time) {deadline : Time} (h : deadline ≤ now) :
      Transition debounce (.debouncing deadline) (.poll now) (.running false) true
  | wait (now : Time) {state : ScheduleState}
      (h : ∀ deadline, state = .debouncing deadline → now < deadline) :
      Transition debounce state (.poll now) state false
  | again (now : Time) :
      Transition debounce (.running true) (.finish now) (.debouncing (now + debounce)) false
  | rest (now : Time) : Transition debounce (.running false) (.finish now) .idle false
  | stray (now : Time) {state : ScheduleState} (h : ∀ rerun, state ≠ .running rerun) :
      Transition debounce state (.finish now) state false

/-- Every call is one transition, and the debounce stays what it is. -/
theorem exists_transition (s : Scheduler) (c : Call) :
    ∃ next started, s.call c = (⟨s.debounce, next⟩, started) ∧
      Transition s.debounce s.state c next started := by
  obtain ⟨debounce, state⟩ := s
  cases c with
  | request now =>
      cases state with
      | running rerun => exact ⟨_, _, rfl, .note now rerun⟩
      | _ => exact ⟨_, _, rfl, .gather now (by simp)⟩
  | poll now =>
      cases state with
      | debouncing deadline =>
          by_cases hdeadline : deadline ≤ now
          · exact ⟨_, _, by simp [call, pollReady, hdeadline], .begin now hdeadline⟩
          · exact ⟨_, _, by simp [call, pollReady, hdeadline], .wait now (by simpa using hdeadline)⟩
      | _ => exact ⟨_, _, rfl, .wait now (by simp)⟩
  | finish now =>
      cases state with
      | running rerun =>
          cases rerun with
          | false => exact ⟨_, _, rfl, .rest now⟩
          | true => exact ⟨_, _, rfl, .again now⟩
      | _ => exact ⟨_, _, rfl, .stray now (by simp)⟩

/-! ## What is outstanding -/

/-- Some opening entry has not been followed by a closing one. -/
def Outstanding (opens closes : Entry → Bool) (past : List Entry) : Prop :=
  ∃ before entry later, past = before ++ entry :: later ∧ opens entry = true ∧
    ∀ other ∈ later, closes other = false

/-- Some request has not been followed by the start of a rebuild. -/
def Pending (past : List Entry) : Prop :=
  Outstanding (fun entry => entry.call.isRequest) Entry.started past

/-- Some start of a rebuild has not been followed by a finish. -/
def UnderWay (past : List Entry) : Prop :=
  Outstanding Entry.started (fun entry => entry.call.isFinish) past

section

variable {opens closes : Entry → Bool} {past : List Entry} {entry : Entry}

theorem not_outstanding_nil : ¬ Outstanding opens closes [] := by
  rintro ⟨before, entry, later, heq, -⟩
  simp at heq

/-- Outstanding is what the last entry opens, and what was outstanding unless it closes that. -/
theorem outstanding_concat :
    Outstanding opens closes (past ++ [entry]) ↔
      opens entry = true ∨ (closes entry = false ∧ Outstanding opens closes past) := by
  constructor
  · rintro ⟨before, opened, later, heq, hopens, hlater⟩
    rcases later.eq_nil_or_concat with rfl | ⟨front, last, rfl⟩
    · obtain ⟨-, rfl⟩ := List.append_singleton_inj.1 heq
      exact Or.inl hopens
    · rw [List.concat_eq_append] at heq hlater
      rw [← List.cons_append, ← List.append_assoc] at heq
      obtain ⟨rfl, rfl⟩ := List.append_singleton_inj.1 heq
      refine Or.inr ⟨hlater entry (by simp), before, opened, front, rfl, hopens, ?_⟩
      intro other hmem
      exact hlater other (List.mem_append_left _ hmem)
  · rintro (hopens | ⟨hcloses, before, opened, later, rfl, hopens, hlater⟩)
    · exact ⟨past, entry, [], rfl, hopens, by simp⟩
    · refine ⟨before, opened, later ++ [entry], by simp, hopens, ?_⟩
      intro other hmem
      rcases List.mem_append.1 hmem with hmem | hmem
      · exact hlater other hmem
      · rw [List.mem_singleton.1 hmem]
        exact hcloses

/-- What is closed stays closed while nothing opens. -/
theorem not_outstanding_append (h : ¬ Outstanding opens closes past) {later : List Entry}
    (hnone : ∀ other ∈ later, opens other = false) : ¬ Outstanding opens closes (past ++ later) := by
  induction later generalizing past with
  | nil =>
      rw [List.append_nil]
      exact h
  | cons next rest ih =>
      have hnext : ¬ Outstanding opens closes (past ++ [next]) := by
        rw [outstanding_concat, hnone next List.mem_cons_self]
        simp [h]
      rw [List.append_cons]
      exact ih hnext (fun other hmem => hnone other (List.mem_cons_of_mem _ hmem))

end

/-! ## States and what is outstanding -/

/-- A rebuild will follow without another request. -/
def IsDue (s : Scheduler) : Prop :=
  (∃ deadline, s.state = .debouncing deadline) ∨ s.state = .running true

def IsRunning (s : Scheduler) : Prop :=
  ∃ rerun, s.state = .running rerun

/-- A request makes a rebuild due, the start of one takes that back, and nothing else changes it. -/
theorem isDue_call (s : Scheduler) (c : Call) :
    (s.call c).1.IsDue ↔ c.isRequest = true ∨ ((s.call c).2 = false ∧ s.IsDue) := by
  obtain ⟨next, started, hcall, h⟩ := exists_transition s c
  simp only [hcall, IsDue]
  generalize s.state = state at h ⊢
  cases h <;> simp [Call.isRequest]

/-- A rebuild runs from its start up to the next finish. -/
theorem isRunning_call (s : Scheduler) (c : Call) :
    (s.call c).1.IsRunning ↔ (s.call c).2 = true ∨ (c.isFinish = false ∧ s.IsRunning) := by
  obtain ⟨next, started, hcall, h⟩ := exists_transition s c
  simp only [hcall, IsRunning]
  generalize s.state = state at h ⊢
  cases h with
  | gather now hidle => simp [hidle]
  | stray now hidle => simp [Call.isFinish, hidle]
  | _ => simp [Call.isFinish]

/-- The state of a scheduler tells what is outstanding in its past. -/
structure Follows (s : Scheduler) (past : List Entry) : Prop where
  isDue_iff : s.IsDue ↔ Pending past
  isRunning_iff : s.IsRunning ↔ UnderWay past

theorem follows_start (debounce : Time) : Follows (start debounce) [] where
  isDue_iff := by
    have hnone : ¬ Pending [] := not_outstanding_nil
    simp [start, IsDue, hnone]
  isRunning_iff := by
    have hnone : ¬ UnderWay [] := not_outstanding_nil
    simp [start, IsRunning, hnone]

theorem Follows.call {s : Scheduler} {past : List Entry} (h : Follows s past) (c : Call) :
    Follows (s.call c).1 (past ++ [⟨c, (s.call c).2⟩]) where
  isDue_iff := by
    rw [isDue_call, Pending, outstanding_concat, h.isDue_iff]
    rfl
  isRunning_iff := by
    rw [isRunning_call, UnderWay, outstanding_concat, h.isRunning_iff]
    rfl

theorem Follows.calls {s : Scheduler} {past : List Entry} (h : Follows s past) (calls : List Call) :
    Follows (s.after calls) (past ++ s.history calls) := by
  induction calls generalizing s past with
  | nil =>
      rw [history, List.append_nil]
      exact h
  | cons c rest ih =>
      have hrest := ih (h.call c)
      rw [List.append_assoc] at hrest
      exact hrest

/-- After any calls. -/
theorem follows_history (debounce : Time) (calls : List Call) :
    Follows ((start debounce).after calls) ((start debounce).history calls) :=
  (follows_start debounce).calls calls

/-! ## Starts of rebuilds -/

theorem pollReady_iff {s : Scheduler} {now : Time} :
    (s.pollReady now).2 = true ↔ ∃ deadline, s.state = .debouncing deadline ∧ deadline ≤ now := by
  obtain ⟨debounce, state⟩ := s
  cases state with
  | debouncing deadline => by_cases hdeadline : deadline ≤ now <;> simp [pollReady, hdeadline]
  | _ => simp [pollReady]

/-- Only a poll after a deadline starts a rebuild. -/
theorem exists_deadline_of_started {s : Scheduler} {c : Call} (h : (s.call c).2 = true) :
    ∃ deadline, s.state = .debouncing deadline ∧ deadline ≤ c.time := by
  obtain ⟨next, started, hcall, htransition⟩ := exists_transition s c
  rw [hcall] at h
  cases h
  generalize s.state = state at htransition ⊢
  cases htransition with
  | begin now hdeadline => exact ⟨_, rfl, hdeadline⟩

/-- The state that a started rebuild was started in. -/
theorem exists_deadline_of_history {debounce : Time} {calls : List Call} {before later : List Entry}
    {entry : Entry} (h : (start debounce).history calls = before ++ entry :: later)
    (hstarted : entry.started = true) :
    ∃ first deadline, (start debounce).history first = before ∧
      ((start debounce).after first).state = .debouncing deadline ∧ deadline ≤ entry.call.time := by
  obtain ⟨first, rest, -, hbefore, hanswer⟩ := exists_calls_of_history h
  rw [hstarted] at hanswer
  obtain ⟨deadline, hstate, htime⟩ := exists_deadline_of_started hanswer
  exact ⟨first, deadline, hbefore, hstate, htime⟩

/-! ## Deadlines -/

/-- Times that do not go back. -/
def InOrder (past : List Entry) : Prop :=
  past.Pairwise (fun first second => first.call.time ≤ second.call.time)

theorem debounce_call (s : Scheduler) (c : Call) : (s.call c).1.debounce = s.debounce := by
  obtain ⟨next, started, hcall, -⟩ := exists_transition s c
  rw [hcall]

theorem debounce_after (s : Scheduler) (calls : List Call) : (s.after calls).debounce = s.debounce := by
  induction calls generalizing s with
  | nil => rfl
  | cons c rest ih => exact (ih (s.call c).1).trans (debounce_call s c)

/-- A deadline is set a debounce after the call, or it stands already and the call is no request. -/
theorem deadline_call {s : Scheduler} {c : Call} {deadline : Time}
    (h : (s.call c).1.state = .debouncing deadline) :
    deadline = c.time + s.debounce ∨ (c.isRequest = false ∧ s.state = .debouncing deadline) := by
  obtain ⟨next, started, hcall, htransition⟩ := exists_transition s c
  rw [hcall] at h
  cases h
  generalize s.state = state at htransition ⊢
  cases htransition with
  | gather now => exact Or.inl rfl
  | again now => exact Or.inl rfl
  | wait now => exact Or.inr ⟨rfl, rfl⟩
  | stray now => exact Or.inr ⟨rfl, rfl⟩

/-- A deadline leaves every request so far its debounce. -/
def Waits (s : Scheduler) (past : List Entry) : Prop :=
  ∀ deadline, s.state = .debouncing deadline → ∀ entry ∈ past, entry.call.isRequest = true →
    entry.call.time + s.debounce ≤ deadline

theorem Waits.call {s : Scheduler} {past : List Entry} (h : Waits s past) {c : Call}
    (hpast : ∀ entry ∈ past, entry.call.time ≤ c.time) :
    Waits (s.call c).1 (past ++ [⟨c, (s.call c).2⟩]) := by
  intro deadline hstate entry hmem hrequest
  rw [debounce_call]
  rcases deadline_call hstate with rfl | ⟨hcall, hbefore⟩
  · have htime : entry.call.time ≤ c.time := by
      rcases List.mem_append.1 hmem with hmem | hmem
      · exact hpast entry hmem
      · exact Nat.le_of_eq (by rw [List.mem_singleton.1 hmem])
    exact Nat.add_le_add_right htime s.debounce
  · rcases List.mem_append.1 hmem with hmem | hmem
    · exact h deadline hbefore entry hmem hrequest
    · rw [List.mem_singleton.1 hmem, hcall] at hrequest
      cases hrequest

theorem Waits.calls {s : Scheduler} {past : List Entry} (h : Waits s past) {calls : List Call}
    (horder : InOrder (past ++ s.history calls)) : Waits (s.after calls) (past ++ s.history calls) := by
  induction calls generalizing s past with
  | nil =>
      rw [history, List.append_nil]
      exact h
  | cons c rest ih =>
      have hpast : ∀ entry ∈ past, entry.call.time ≤ c.time := by
        intro entry hmem
        exact (List.pairwise_append.1 horder).2.2 entry hmem ⟨c, (s.call c).2⟩ List.mem_cons_self
      rw [history, List.append_cons] at horder ⊢
      exact ih (h.call hpast) horder

theorem waits_history (debounce : Time) {calls : List Call}
    (horder : InOrder ((start debounce).history calls)) :
    Waits ((start debounce).after calls) ((start debounce).history calls) := by
  have hstart : Waits (start debounce) [] := by
    intro deadline hstate
    cases hstate
  exact hstart.calls horder

/-! ## Safety -/

/-- What holds of every start of a rebuild in a history. -/
structure StartsSafely (debounce : Time) (past : List Entry) : Prop where
  /-- No other rebuild is under way. -/
  alone : ∀ {before entry later}, past = before ++ entry :: later → entry.started = true →
    ¬ UnderWay before
  /-- Some request has come since the start before. -/
  asked : ∀ {before entry later}, past = before ++ entry :: later → entry.started = true →
    Pending before
  /-- Every request so far has had its debounce. -/
  settled : InOrder past → ∀ {before entry later}, past = before ++ entry :: later →
    entry.started = true → ∀ earlier ∈ before, earlier.call.isRequest = true →
      earlier.call.time + debounce ≤ entry.call.time
  /-- While no rebuild ends, at most one starts. -/
  apart : ∀ {before stretch later}, past = before ++ (stretch ++ later) →
    (∀ entry ∈ stretch, entry.call.isFinish = false) → stretch.countP Entry.started ≤ 1
  /-- However many requests came before, at most one rebuild starts until there is another one. -/
  coalesced : ∀ {before stretch later}, past = before ++ (stretch ++ later) →
    (∀ entry ∈ stretch, entry.call.isRequest = false) → stretch.countP Entry.started ≤ 1

theorem countP_le_one {α : Type} {p : α → Bool} {list : List α}
    (h : ∀ front first middle second back, list = front ++ first :: (middle ++ second :: back) →
      p first = true → p second = false) : list.countP p ≤ 1 := by
  induction list with
  | nil => exact Nat.zero_le 1
  | cons first rest ih =>
      cases hfirst : p first with
      | false =>
          rw [List.countP_cons_of_neg (by simp [hfirst])]
          refine ih ?_
          intro front other middle second back heq
          exact h (first :: front) other middle second back (by rw [heq, List.cons_append])
      | true =>
          have hrest : rest.countP p = 0 := by
            rw [List.countP_eq_zero]
            intro second hmem
            obtain ⟨middle, back, rfl⟩ := List.append_of_mem hmem
            rw [h [] first middle second back rfl hfirst]
            exact Bool.false_ne_true
          have hone : (first :: rest).countP p = 1 := by simp [hfirst, hrest]
          exact Nat.le_of_eq hone

/-- A stretch of the past holds one start at most if a second one is impossible after the first. -/
theorem countP_started_le_one {past before stretch later : List Entry}
    (hpast : past = before ++ (stretch ++ later))
    (h : ∀ {earlier first middle second rest}, past = (earlier ++ first :: middle) ++ second :: rest →
      (∀ entry ∈ first :: middle, entry ∈ stretch) → first.started = true → ¬ second.started = true) :
    stretch.countP Entry.started ≤ 1 := by
  refine countP_le_one ?_
  intro front first middle second back hstretch hfirst
  have hsplit : past = (before ++ front ++ first :: middle) ++ second :: (back ++ later) := by
    simp [hpast, hstretch]
  have hmiddle : ∀ entry ∈ first :: middle, entry ∈ stretch := by
    intro entry hmem
    rw [hstretch, ← List.cons_append]
    exact List.mem_append_right _ (List.mem_append_left _ hmem)
  exact Bool.eq_false_iff.2 (h hsplit hmiddle hfirst)

/-- Whatever calls come, in whatever order. -/
theorem starts_safely (debounce : Time) (calls : List Call) :
    StartsSafely debounce ((start debounce).history calls) := by
  have halone : ∀ {before entry later}, (start debounce).history calls = before ++ entry :: later →
      entry.started = true → ¬ UnderWay before := by
    intro before entry later heq hstarted
    obtain ⟨first, deadline, rfl, hstate, -⟩ := exists_deadline_of_history heq hstarted
    rw [← (follows_history debounce first).isRunning_iff]
    simp [IsRunning, hstate]
  have hasked : ∀ {before entry later}, (start debounce).history calls = before ++ entry :: later →
      entry.started = true → Pending before := by
    intro before entry later heq hstarted
    obtain ⟨first, deadline, rfl, hstate, -⟩ := exists_deadline_of_history heq hstarted
    rw [← (follows_history debounce first).isDue_iff]
    exact Or.inl ⟨deadline, hstate⟩
  refine ⟨halone, hasked, ?_, ?_, ?_⟩
  · intro horder before entry later heq hstarted earlier hmem hrequest
    obtain ⟨first, deadline, rfl, hstate, htime⟩ := exists_deadline_of_history heq hstarted
    rw [heq] at horder
    have hwaits := waits_history debounce (List.pairwise_append.1 horder).1 deadline hstate earlier
      hmem hrequest
    rw [debounce_after] at hwaits
    exact Nat.le_trans hwaits htime
  · intro before stretch later heq hnone
    refine countP_started_le_one heq ?_
    -- the first start is still under way when the second one comes
    intro earlier first middle second rest hsplit hstretch hfirst hsecond
    refine halone hsplit hsecond ⟨earlier, first, middle, rfl, hfirst, ?_⟩
    intro other hmem
    exact hnone other (hstretch other (List.mem_cons_of_mem _ hmem))
  · intro before stretch later heq hnone
    refine countP_started_le_one heq ?_
    -- the first start has taken all requests
    intro earlier first middle second rest hsplit hstretch hfirst hsecond
    have hrequests : ∀ other ∈ first :: middle, other.call.isRequest = false :=
      fun other hmem => hnone other (hstretch other hmem)
    have hclosed : ¬ Pending (earlier ++ [first]) := by
      rw [Pending, outstanding_concat, hrequests first List.mem_cons_self, hfirst]
      simp
    have hpending := hasked hsplit hsecond
    rw [List.append_cons] at hpending
    exact not_outstanding_append hclosed
      (fun other hmem => hrequests other (List.mem_cons_of_mem _ hmem)) hpending

/-- Two requests in one window, and one during the rebuild that they lead to. -/
example : ((start 300).history [.request 0, .request 200, .poll 400, .poll 500, .request 600,
    .finish 700, .poll 900, .poll 1000]).map Entry.started =
      [false, false, false, true, false, false, false, true] := by decide

/-! ## No request is lost -/

theorem nextDeadline?_eq_some_iff {s : Scheduler} {deadline : Time} :
    s.nextDeadline? = some deadline ↔ s.state = .debouncing deadline := by
  obtain ⟨debounce, state⟩ := s
  cases state <;> simp [nextDeadline?]

theorem finish_of_not_isRunning {s : Scheduler} (h : ¬ s.IsRunning) (now : Time) : s.finish now = s := by
  obtain ⟨debounce, state⟩ := s
  cases state with
  | running rerun => exact absurd ⟨rerun, rfl⟩ h
  | _ => rfl

/-- What is due and does not run has a deadline. -/
theorem exists_deadline_of_isDue {s : Scheduler} (h : s.IsDue) (hrunning : ¬ s.IsRunning) :
    ∃ deadline, s.nextDeadline? = some deadline ∧
      ∀ now, (s.pollReady now).2 = true ↔ deadline ≤ now := by
  rcases h with ⟨deadline, hstate⟩ | hstate
  · refine ⟨deadline, nextDeadline?_eq_some_iff.2 hstate, ?_⟩
    intro now
    rw [pollReady_iff, hstate]
    simp
  · exact absurd ⟨true, hstate⟩ hrunning

/-- Without a request nothing starts that is not due. -/
theorem not_started_of_not_isDue {s : Scheduler} (h : ¬ s.IsDue) {calls : List Call}
    (hnone : ∀ c ∈ calls, c.isRequest = false) : ∀ entry ∈ s.history calls, entry.started = false := by
  induction calls generalizing s with
  | nil => simp [history]
  | cons c rest ih =>
      have hanswer : (s.call c).2 = false := by
        refine Bool.eq_false_iff.2 (fun hstarted => ?_)
        obtain ⟨deadline, hstate, -⟩ := exists_deadline_of_started hstarted
        exact h (Or.inl ⟨deadline, hstate⟩)
      have hnext : ¬ (s.call c).1.IsDue := by
        rw [isDue_call, hnone c List.mem_cons_self]
        simp [h]
      intro entry hmem
      rcases List.mem_cons.1 hmem with rfl | hmem
      · exact hanswer
      · exact ih hnext (fun other hother => hnone other (List.mem_cons_of_mem _ hother)) entry hmem

/-- What holds of a scheduler with its past. -/
structure KeepsRequests (s : Scheduler) (past : List Entry) : Prop where
  isDue_iff : s.IsDue ↔ Pending past
  /-- At the end of the rebuild that runs, if one does, a deadline stands from which on a poll starts
  the next one. -/
  startsAfterFinish : Pending past → ∀ now, ∃ deadline, (s.finish now).nextDeadline? = some deadline ∧
    ∀ later, ((s.finish now).pollReady later).2 = true ↔ deadline ≤ later
  /-- If none runs, the deadline stands already. -/
  starts : Pending past → ¬ UnderWay past → ∃ deadline, s.nextDeadline? = some deadline ∧
    ∀ later, (s.pollReady later).2 = true ↔ deadline ≤ later
  rests : ¬ Pending past → ∀ calls, (∀ c ∈ calls, c.isRequest = false) →
    ∀ entry ∈ s.history calls, entry.started = false
  isRunning_iff : s.IsRunning ↔ UnderWay past
  finish_eq : ¬ UnderWay past → ∀ now, s.finish now = s

theorem requests_kept (debounce : Time) (calls : List Call) :
    KeepsRequests ((start debounce).after calls) ((start debounce).history calls) := by
  have hfollows := follows_history debounce calls
  refine ⟨hfollows.isDue_iff, ?_, ?_, ?_, hfollows.isRunning_iff, ?_⟩
  · intro hpending now
    have hdue := (isDue_call ((start debounce).after calls) (.finish now)).2
      (Or.inr ⟨rfl, hfollows.isDue_iff.2 hpending⟩)
    have hrunning : ¬ (((start debounce).after calls).finish now).IsRunning := by
      intro h
      rcases (isRunning_call ((start debounce).after calls) (.finish now)).1 h with h | ⟨h, -⟩
      · cases h
      · cases h
    exact exists_deadline_of_isDue hdue hrunning
  · intro hpending hfree
    rw [← hfollows.isDue_iff] at hpending
    rw [← hfollows.isRunning_iff] at hfree
    exact exists_deadline_of_isDue hpending hfree
  · intro hnone more
    rw [← hfollows.isDue_iff] at hnone
    exact not_started_of_not_isDue hnone
  · intro hfree
    rw [← hfollows.isRunning_iff] at hfree
    exact finish_of_not_isRunning hfree

end DesignTokens.Scheduler
