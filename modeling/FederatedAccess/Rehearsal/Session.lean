import FederatedAccess.Assertion.Cache
import FederatedAccess.Rehearsal.Script

/-!
# Rehearsals in virtual time

Commands are given at set times and may be cancelled at set times. Whatever can go on goes on, in
the order in which it could, and each as far as it can; only when nothing can, time jumps to the
earliest timer. Timers that are due together go off in the order in which they were set. What is
ready wins over a deadline that has come. A call that comes upon a free lock takes it, even before
those that wait for it and have yet to go on.
-/

namespace FederatedAccess.Rehearsal

/-- How a command begins: with a call, or with a result that stands at once or after a span. -/
inductive Begun (ρ : Type)
  | call (id : CallId)
  | done (result : ρ)
  | later (span : Nat) (result : ρ)

/-- What can be rehearsed: states of type `σ`, commands of type `γ`, results of type `ρ`. -/
structure Subject (σ γ ρ : Type) where
  launch : γ → Nat → World → σ → World × σ × Begun ρ
  turns : σ → List CallId
  isReading : σ → CallId → Bool
  isSending : σ → CallId → Bool
  deadline? : σ → CallId → Option Nat
  result? : σ → CallId → Option ρ
  barge : σ → CallId → σ
  proceed : σ → CallId → σ
  readDone : σ → CallId → Except ReadFailure String → σ
  replied : σ → CallId → Reply → σ
  expire : σ → CallId → σ
  cancel : σ → CallId → σ
  tick : σ → Nat → σ

/-- What a partner will do. -/
inductive Effect
  | read (result : Except ReadFailure String)
  | reply (reply : Reply)

/-- An effect that a call awaits; one that is never due does not take place. -/
structure Awaited where
  call : CallId
  due : Option Nat
  effect : Effect

/-- How it stands with a command. A result that is missing was cancelled. -/
inductive Standing (ρ : Type)
  | absent
  | live (id : CallId)
  | lasting (time : Nat) (result : ρ)
  | ended (time : Nat) (result : Option ρ)

/-- A command with the times at which it begins and is cancelled. -/
structure Cue (γ ρ : Type) where
  command : γ
  begins : Nat
  cancels : Option Nat
  standing : Standing ρ := .absent

/-- What a timer is for. -/
inductive Purpose
  | start
  | elapse
  | effect
  | deadline
  | cancel
deriving DecidableEq

/-- A timer that lets a command go on. -/
structure Timer where
  cue : Nat
  purpose : Purpose
  due : Nat
deriving DecidableEq

/-- A rehearsal under way. Timers are listed in the order in which they were set, and `woken` lists
the commands that can go on. -/
structure Session (σ γ ρ : Type) where
  subject : Subject σ γ ρ
  state : σ
  world : World
  time : Nat
  cues : List (Cue γ ρ) := []
  awaited : List Awaited := []
  timers : List Timer := []
  woken : List Nat := []

namespace Session

variable {σ γ ρ : Type}

/-! ### Timers and standings -/

/-- Sets a timer; one that a command already has for the purpose stays as it is. -/
def setTimer (g : Session σ γ ρ) (cue : Nat) (purpose : Purpose) (due : Nat) : Session σ γ ρ :=
  if g.timers.any fun t => t.cue == cue && t.purpose == purpose then g
  else { g with timers := g.timers ++ [⟨cue, purpose, due⟩] }

/-- Stops a timer. -/
def stopTimer (g : Session σ γ ρ) (cue : Nat) (purpose : Purpose) : Session σ γ ρ :=
  { g with timers := g.timers.filter fun t => !(t.cue == cue && t.purpose == purpose) }

/-- Lets a command go on after those that already can. -/
def wake (g : Session σ γ ρ) (cue : Nat) : Session σ γ ρ :=
  if g.woken.contains cue then g else { g with woken := g.woken ++ [cue] }

/-- Changes how it stands with a command. -/
def place (g : Session σ γ ρ) (cue : Nat) (standing : Standing ρ) : Session σ γ ρ :=
  { g with cues := g.cues.modify cue fun c => { c with standing } }

/-- Ends a command. -/
def close (g : Session σ γ ρ) (cue : Nat) (result : Option ρ) : Session σ γ ρ :=
  { g.place cue (.ended g.time result) with timers := g.timers.filter (·.cue != cue) }

/-- The command of a call. -/
def cueOf? (g : Session σ γ ρ) (call : CallId) : Option Nat :=
  g.cues.findIdx? fun c =>
    match c.standing with
    | .live id => id == call
    | _ => false

/-! ### Calls -/

/-- Whether a call awaits an effect. -/
def isAwaiting (g : Session σ γ ρ) (call : CallId) : Bool := g.awaited.any (·.call == call)

/-- Drops the effects that a call awaits. -/
def unawait (g : Session σ γ ρ) (cue : Nat) (call : CallId) : Session σ γ ρ :=
  { g with awaited := g.awaited.filter (·.call != call) }.stopTimer cue .effect

/-- Lets a call that comes to a lock take it if it is free. -/
def barge (g : Session σ γ ρ) (call : CallId) : Session σ γ ρ :=
  { g with state := g.subject.barge g.state call }

/-- Lets an effect take place. -/
def apply (g : Session σ γ ρ) (call : CallId) : Effect → Session σ γ ρ
  | .read result => { g with state := g.subject.readDone g.state call result }
  | .reply reply => { g with state := g.subject.replied g.state call reply }.barge call

/-- Lists an effect that a call awaits. -/
def await (g : Session σ γ ρ) (call : CallId) (due : Option Nat) (effect : Effect) :
    Session σ γ ρ :=
  { g with awaited := g.awaited ++ [⟨call, due, effect⟩] }

/-- Lets an effect take place at its pace. -/
def expect (g : Session σ γ ρ) (cue : Nat) (call : CallId) (effect : Effect) :
    Pace → Session σ γ ρ
  | .atOnce => g.apply call effect
  | .soon => (g.await call (some g.time) effect).wake cue
  | .after span =>
    (g.await call (some (g.time + span)) effect).setTimer cue .effect (g.time + span)
  | .never => g.await call none effect

/-- Lets an effect take place that a call awaits and that is due. -/
def receive (g : Session σ γ ρ) (cue : Nat) (call : CallId) : Session σ γ ρ :=
  match g.awaited.find? fun a => a.call == call && a.due.any (· ≤ g.time) with
  | none => g
  | some a => ((g.unawait cue call).apply call a.effect).stopTimer cue .deadline

/-- Whether the deadline of a call has come. -/
def isDue (g : Session σ γ ρ) (call : CallId) : Bool :=
  (g.subject.deadline? g.state call).any (· ≤ g.time)

/-- Lets a call go as far as it can, in a bounded number of steps. Each wait has a timer of its own
for the deadline. -/
def drive (cue : Nat) (call : CallId) : Nat → Session σ γ ρ → Session σ γ ρ
  | 0, g => g
  | n + 1, g =>
    if (g.subject.turns g.state).contains call then
      drive cue call n
        (({ g with state := g.subject.proceed g.state call }.barge call).stopTimer cue .deadline)
    else if g.subject.isReading g.state call && !g.isAwaiting call then
      match g.world.beginRead with
      | (item, world) =>
        drive cue call n ({ g with world }.expect cue call (.read item.result) item.pace)
    else if g.subject.isSending g.state call && !g.isAwaiting call then
      match g.world.takeReply with
      | (item, world) =>
        drive cue call n ({ g with world }.expect cue call (.reply item.reply) item.pace)
    else if g.isDue call then
      drive cue call n
        (({ g with state := g.subject.expire g.state call }.unawait cue call).stopTimer cue
          .deadline)
    else
      match g.subject.deadline? g.state call with
      | some t => g.setTimer cue .deadline t
      | none => g

/-- The steps that suffice for a call to come to a halt. -/
def driveBound : Nat := 24

/-- Ends a command whose call has ended. -/
def settle (g : Session σ γ ρ) (cue : Nat) (call : CallId) : Session σ γ ρ :=
  match g.subject.result? g.state call with
  | some r => g.close cue (some r)
  | none => g

/-- A call goes on. -/
def resume (g : Session σ γ ρ) (cue : Nat) (call : CallId) : Session σ γ ρ :=
  (drive cue call driveBound (g.receive cue call)).settle cue call

/-! ### Commands -/

/-- Begins a command. -/
def launch (g : Session σ γ ρ) (cue : Nat) (command : γ) : Session σ γ ρ :=
  match g.subject.launch command g.time g.world g.state with
  | (world, state, .done r) => { g with world, state }.close cue (some r)
  | (world, state, .later span r) =>
    ({ g with world, state }.place cue (.lasting (g.time + span) r)).setTimer cue .elapse
      (g.time + span)
  | (world, state, .call id) =>
    (({ g with world, state }.barge id).place cue (.live id)).resume cue id

/-- Lets a command go on where it stands. -/
def advance (g : Session σ γ ρ) (cue : Nat) (c : Cue γ ρ) : Session σ γ ρ :=
  match c.standing with
  | .absent =>
    if c.begins ≤ g.time then g.launch cue c.command else g.setTimer cue .start c.begins
  | .lasting t r => if t ≤ g.time then g.close cue (some r) else g
  | .live id => g.resume cue id
  | .ended _ _ => g

/-- Drops a command where it stands. -/
def drop (g : Session σ γ ρ) (cue : Nat) : Standing ρ → Session σ γ ρ
  | .live id => ({ g with state := g.subject.cancel g.state id }.unawait cue id).close cue none
  | .ended _ _ => g
  | _ => g.close cue none

/-- Whether a command has no timer for its cancellation: it has ended, or it begins before it is
cancelled and has not begun. -/
def isUntouchable (c : Cue γ ρ) (cancels : Nat) : Bool :=
  match c.standing with
  | .ended _ _ => true
  | .absent => c.begins ≤ cancels
  | _ => false

/-- Cancels a command when its time has come. -/
def cancelDue (g : Session σ γ ρ) (cue : Nat) (c : Cue γ ρ) : Session σ γ ρ :=
  match c.cancels with
  | none => g
  | some t =>
    if isUntouchable c t then g
    else if t ≤ g.time then g.drop cue c.standing
    else g.setTimer cue .cancel t

/-- Wakes the commands of calls whose turn has come. -/
def notify (g : Session σ γ ρ) : Session σ γ ρ :=
  ((g.subject.turns g.state).filterMap g.cueOf?).foldl wake g

/-- Lets the command at a position go on. -/
def poll (g : Session σ γ ρ) (cue : Nat) : Session σ γ ρ :=
  match g.cues[cue]? with
  | none => g
  | some c =>
    let h := g.advance cue c
    match h.cues[cue]? with
    | none => h
    | some d => (h.cancelDue cue d).notify

/-- Moves time on to the earliest timer and wakes the commands whose timers go off. -/
def jump (g : Session σ γ ρ) (time : Nat) : Session σ γ ρ :=
  let (fired, pending) := g.timers.partition (·.due ≤ time)
  (fired.map Timer.cue).foldl wake
    { g with time := max g.time time, state := g.subject.tick g.state (max g.time time),
             timers := pending }

/-- Goes on until no timer is left, in a bounded number of steps. -/
def perform : Nat → Session σ γ ρ → Session σ γ ρ
  | 0, g => g
  | n + 1, g =>
    match g.woken with
    | cue :: rest => perform n (poll { g with woken := rest } cue)
    | [] =>
      match (g.timers.map Timer.due).min? with
      | some t => perform n (g.jump t)
      | none => g

/-- Rehearses commands, whose times count from now, until all have ended. -/
def rehearse (g : Session σ γ ρ) (cues : List (Cue γ ρ)) : Session σ γ ρ :=
  perform (64 * (cues.length + 1)) { g with
    cues := cues.map fun c =>
      { c with begins := g.time + c.begins, cancels := c.cancels.map (g.time + ·) }
    awaited := []
    timers := []
    woken := List.range cues.length }

/-- The results of the last rehearsal, with the times at which they came; a result that is missing
was cancelled. -/
def results (g : Session σ γ ρ) : List (Nat × Option ρ) :=
  g.cues.map fun c =>
    match c.standing with
    | .ended time r => (time, r)
    | _ => (g.time, none)

end Session

end FederatedAccess.Rehearsal
