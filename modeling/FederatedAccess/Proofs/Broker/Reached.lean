import FederatedAccess.Proofs.Broker.Deadline

/-!
# Brokers that are reached

Everything that a broker keeps, whatever comes in, holds of one without calls and is kept by every
move (`Reached`). It makes no difference which assertion is stored at first.
-/

namespace FederatedAccess.Broker

/-- What a broker keeps that is reached from one without calls. -/
structure Reached (b : Broker) : Prop where
  coherent : b.Coherent
  visiting : b.Visiting
  course : b.Course
  punctual : b.Punctual

/-- Nobody exchanges in another's stead, however far a run goes. -/
theorem exchanger_run (b : Broker) (events : List Event) :
    (b.run events).exchanger = b.exchanger :=
  run_keeps (P := fun w => w.exchanger = b.exchanger) (fun _ _ _ h m => m.exchanger_eq.trans h) rfl
    events

namespace Reached

variable {b b' : Broker} {e : Event}

/-- A broker without calls may have an assertion in store. -/
theorem stocked (config : Config) (x : Exchanger) (clock : Instant) (assertion : Option Assertion) :
    Reached { make config x clock with cache := ⟨config.ttl, assertion, []⟩ } := by
  have made := Coherent.make config x clock
  have visiting : Visiting { make config x clock with cache := ⟨config.ttl, assertion, []⟩ } :=
    ⟨List.nodup_nil, by simp, by simp, by simp [Broker.make]⟩
  refine ⟨⟨?_, ?_, ?_⟩, visiting, ?_, ?_⟩
  · exact made.holding.of_eq rfl rfl (Nat.le_refl _)
  · exact made.ledger.of_eq rfl rfl rfl
  · exact made.landing.quiet rfl rfl (.refl _)
  · exact (Course.make config x clock).quiet (.make config x clock) visiting rfl rfl rfl
      fun _ => Iff.rfl
  · exact (Punctual.make config x clock).quiet rfl rfl rfl

theorem make (config : Config) (x : Exchanger) (clock : Instant) :
    Reached (make config x clock) :=
  stocked config x clock none

theorem move (h : b.Reached) (m : Move b e b') : b'.Reached where
  coherent := h.coherent.move m
  visiting := h.visiting.move h.coherent.holding m
  course := h.course.move h.coherent.holding h.coherent.ledger h.visiting m
  punctual := h.punctual.move m

theorem run (h : b.Reached) (events : List Event) : (b.run events).Reached :=
  run_keeps (fun _ _ _ => move) h events

end Reached

end FederatedAccess.Broker
