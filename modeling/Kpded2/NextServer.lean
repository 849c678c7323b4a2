import Mathlib.Data.List.Basic
import Kpded2.StepRuns
import Kpded2.Userinfo

/-!
# The end of a cinematic

A cinematic, a picture or a demo ends when a client says so with the number of the level, or when
the demo has been read. `SV_Nextserver` queues what is to follow and counts the level up; the level
stays until the command buffer is executed.
-/
namespace NextServer
open StepRuns
open Userinfo (atoi)

inductive ServerState
  | dead | loading | game | cinematic | demo | pic
  deriving DecidableEq

structure Level where
  state : ServerState
  coop : Bool

/-- `texts` are the arguments of `Cbuf_AddText`. -/
structure Server where
  spawncount : Int
  nextserver : List UInt8
  demofile : Bool
  texts : List (List UInt8)

/-- `spawncount++` on an `int`. -/
def countUp (n : Int) : Int := (n + 1 + 2147483648) % 4294967296 - 2147483648

/-- `killserver` and `nextserver`, with the newline. -/
def followUp (nextserver : List UInt8) : List (List UInt8) :=
  if nextserver = [] then [[107, 105, 108, 108, 115, 101, 114, 118, 101, 114, 10]]
  else [nextserver, [10]]

def Level.refuses (level : Level) : Bool :=
  level.state == .game || (level.state == .pic && !level.coop)

def svNextserver (level : Level) (s : Server) : Server :=
  if level.refuses then s
  else { s with
    spawncount := countUp s.spawncount
    texts := s.texts ++ followUp s.nextserver
    nextserver := [] }

def svNextserverF (level : Level) (argument : List UInt8) (s : Server) : Server :=
  if atoi argument ≠ s.spawncount then s else svNextserver level s

def svDemoCompleted (level : Level) (s : Server) : Server :=
  svNextserver level { s with demofile := false }

/-- A command of a client, or a frame that finds the end of the demo. -/
inductive Event
  | nextserver (argument : List UInt8)
  | frame

def playing (level : Level) (s : Server) : Bool := s.demofile && level.state == .demo

/-- The messages of the clients are not executed while a demo is read. -/
def step (level : Level) (s : Server) : Event → Server
  | .nextserver argument => if playing level s then s else svNextserverF level argument s
  | .frame => if playing level s then svDemoCompleted level s else s

/-! ## What is queued -/

variable {level : Level}

def Event.names (count : Int) : Event → Bool
  | .nextserver argument => atoi argument == count
  | .frame => false

/-- The event ends the level. -/
def ends (level : Level) (s : Server) (event : Event) : Bool :=
  match event with
  | .nextserver argument => !playing level s && atoi argument == s.spawncount
  | .frame => playing level s

/-- An event that does not end the level changes nothing. -/
theorem step_of_not_ends {s : Server} {event : Event} (h : ends level s event = false) :
    step level s event = s := by
  cases event with
  | nextserver argument =>
    simp only [step, svNextserverF]
    cases busy : playing level s with
    | true => exact if_pos rfl
    | false =>
      simp only [ends, busy, Bool.not_false, Bool.true_and, beq_eq_false_iff_ne] at h
      rw [if_neg Bool.false_ne_true, if_pos h]
  | frame =>
    simp only [ends] at h
    simp only [step, h, Bool.false_eq_true, if_false]

/-- What the end of a level leaves. -/
structure Ended (s t : Server) : Prop where
  spawncount : t.spawncount = countUp s.spawncount
  nextserver : t.nextserver = []
  texts : t.texts = s.texts ++ followUp s.nextserver

/-- An event that ends the level counts up and leaves no next server. -/
theorem step_of_ends (accepts : level.refuses = false) {s : Server} {event : Event}
    (h : ends level s event = true) :
    Ended s (step level s event) ∧ playing level (step level s event) = false := by
  cases event with
  | nextserver argument =>
    simp only [ends, Bool.and_eq_true, Bool.not_eq_true', beq_iff_eq] at h
    simp only [step, svNextserverF, svNextserver, h.1, h.2, accepts, Bool.false_eq_true, if_false,
      ne_eq, not_true_eq_false]
    exact ⟨⟨rfl, rfl, rfl⟩, h.1⟩
  | frame =>
    simp only [ends] at h
    simp only [step, svDemoCompleted, svNextserver, h, accepts, Bool.false_eq_true, if_false, if_true]
    exact ⟨⟨rfl, rfl, rfl⟩, rfl⟩

theorem ends_of_not_playing {s : Server} (idle : playing level s = false) (event : Event) :
    ends level s event = event.names s.spawncount := by
  cases event with
  | nextserver argument => simp only [ends, idle, Bool.not_false, Bool.true_and, Event.names]
  | frame => exact idle

/-- Nothing is taken back of what has been put into the command buffer. -/
theorem texts_step (level : Level) (s : Server) (event : Event) :
    s.texts <+: (step level s event).texts := by
  cases accepts : level.refuses with
  | true =>
    have same : ∀ s, svNextserver level s = s := fun s => if_pos accepts
    cases event with
    | nextserver argument =>
      simp only [step, svNextserverF, same, ite_self]
      exact List.prefix_refl _
    | frame =>
      simp only [step, svDemoCompleted, same]
      split
      · exact List.prefix_refl _
      · exact List.prefix_refl _
  | false =>
    cases h : ends level s event with
    | false =>
      rw [step_of_not_ends h]
    | true =>
      rw [(step_of_ends accepts h).1.texts]
      exact List.prefix_append _ _

/-- A run only adds to the command buffer. -/
theorem texts_run (level : Level) (s : Server) (events : List Event) :
    s.texts <+: (run (step level) s events).texts := by
  induction events generalizing s with
  | nil => exact List.prefix_refl _
  | cons event events ih => exact (texts_step level s event).trans (ih (step level s event))

/-- Once the level has ended, every command with its new number queues `killserver`. -/
theorem run_after (accepts : level.refuses = false) {s : Server} (idle : playing level s = false)
    (spent : s.nextserver = []) (events : List Event) :
    ((∀ event ∈ events, event.names s.spawncount = false) ∧ run (step level) s events = s) ∨
      (∃ event ∈ events, event.names s.spawncount = true) ∧
        s.texts ++ followUp [] <+: (run (step level) s events).texts := by
  induction events with
  | nil => exact .inl ⟨fun event h => absurd h List.not_mem_nil, rfl⟩
  | cons event events ih =>
    rw [run_cons]
    cases h : ends level s event with
    | true =>
      have names := (ends_of_not_playing idle event).symm.trans h
      refine .inr ⟨⟨event, List.mem_cons_self, names⟩, ?_⟩
      have texts := (step_of_ends accepts h).1.texts
      rw [spent] at texts
      rw [← texts]
      exact texts_run level _ events
    | false =>
      have names := (ends_of_not_playing idle event).symm.trans h
      rw [step_of_not_ends h]
      rcases ih with ⟨none, same⟩ | ⟨⟨later, mem, some⟩, texts⟩
      · exact .inl ⟨List.forall_mem_cons.mpr ⟨names, none⟩, same⟩
      · exact .inr ⟨⟨later, List.mem_cons_of_mem event mem, some⟩, texts⟩

/-- Nothing has been queued, or what was to follow when the level started. -/
def Once (s t : Server) : Prop := t.texts = s.texts ∨ t.texts = s.texts ++ followUp s.nextserver

/-- No command with the next number comes after an event that ends the level. -/
def Unguessed (level : Level) (s : Server) (events : List Event) : Prop :=
  events.Pairwise fun event later =>
    ¬(ends level s event = true ∧ later.names (countUp s.spawncount) = true)

theorem followUp_ne_nil (nextserver : List UInt8) : followUp nextserver ≠ [] := by
  simp only [followUp]
  split
  · exact List.cons_ne_nil _ _
  · exact List.cons_ne_nil _ _

/-- A level queues one follow-up if and only if it cannot be ended this way or no client has guessed
the next number. -/
theorem nextserver_once_iff (level : Level) (s : Server) (events : List Event) :
    Once s (run (step level) s events) ↔ level.refuses = true ∨ Unguessed level s events := by
  cases accepts : level.refuses with
  | true =>
    have same : ∀ s, svNextserver level s = s := fun s => if_pos accepts
    have keeps : ∀ (t : Server) (event : Event), t.texts = s.texts →
        (step level t event).texts = s.texts := by
      intro t event kept
      cases event with
      | nextserver argument =>
        simp only [step, svNextserverF, same, ite_self]
        exact kept
      | frame =>
        simp only [step, svDemoCompleted, same]
        split
        · exact kept
        · exact kept
    exact iff_of_true
      (.inl (@holds_run _ _ (step level) (fun t => t.texts = s.texts) keeps s rfl events)) (.inl rfl)
  | false =>
    rw [or_iff_right Bool.false_ne_true]
    induction events with
    | nil => exact iff_of_true (.inl rfl) List.Pairwise.nil
    | cons event events ih =>
      rw [run_cons, Unguessed, List.pairwise_cons]
      cases h : ends level s event with
      | false =>
        rw [step_of_not_ends h, ih, Unguessed]
        refine (and_iff_right fun later _ both => ?_).symm
        exact Bool.false_ne_true both.1
      | true =>
        obtain ⟨ended, idle⟩ := step_of_ends accepts h
        have after := run_after accepts idle ended.nextserver events
        rw [ended.spawncount, ended.texts] at after
        rcases after with ⟨unnamed, same⟩ | ⟨⟨later, mem, named⟩, texts⟩
        · refine iff_of_true (.inr ?_) ⟨fun later mem both => ?_, ?_⟩
          · rw [same]
            exact ended.texts
          · exact Bool.false_ne_true ((unnamed later mem).symm.trans both.2)
          · exact List.pairwise_of_forall_mem_list fun _ _ later mem both =>
              Bool.false_ne_true ((unnamed later mem).symm.trans both.2)
        · refine iff_of_false ?_ fun unguessed => unguessed.1 later mem ⟨rfl, named⟩
          have longer := texts.length_le
          have some := List.length_pos_iff.mpr (followUp_ne_nil s.nextserver)
          have more := List.length_pos_iff.mpr (followUp_ne_nil [])
          simp only [List.length_append] at longer
          rintro (none | one)
          · rw [none] at longer
            omega
          · rw [one, List.length_append] at longer
            omega

/-- Two commands of one packet: the second names the number that the first has counted up to. -/
theorem guessed_count_kills : ¬Once ⟨5, [109, 97, 112, 32, 98], false, []⟩
    (run (step ⟨.cinematic, false⟩) ⟨5, [109, 97, 112, 32, 98], false, []⟩
      [.nextserver [53], .nextserver [54]]) := by
  have texts : (run (step ⟨.cinematic, false⟩) ⟨5, [109, 97, 112, 32, 98], false, []⟩
      [.nextserver [53], .nextserver [54]]).texts =
      [[109, 97, 112, 32, 98], [10], [107, 105, 108, 108, 115, 101, 114, 118, 101, 114, 10]] := by
    decide
  rintro (none | one)
  · rw [texts] at none
    cases none
  · rw [texts] at one
    cases one

end NextServer
