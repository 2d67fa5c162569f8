/-
# `HartMonitor.Proofs.Simulator.Turn` — the ways in which a turn comes out

Whatever is proved of runs goes by these five cases, and by nothing else that the
definition of a turn says:

    went       the instruction completed, the sweep found no change
    fired      the instruction completed, the sweep found changes
    lost       the instruction completed, the sweep found an expression without a value
    ended      the instruction is the breakpoint
    trapped    the instruction trapped otherwise
-/
import HartMonitor.Simulator

namespace HartMonitor

/-- How a simulator takes a turn, with the simulator after it and the outcome. -/
inductive Taken (s : Simulator) : Simulator × Turn → Prop
  | went {machine : Machine} {step : Step} {watches : WatchPool} :
      s.machine.step = (machine, .ok step) → s.watches.checkIn machine = (watches, .ok []) →
      Taken s ({ s with
          machine := machine
          statistics := s.statistics.record step.inst
          watches := watches },
        .went step)
  | fired {machine : Machine} {step : Step} {watches : WatchPool} {events : List WatchEvent} :
      s.machine.step = (machine, .ok step) → s.watches.checkIn machine = (watches, .ok events) →
      events ≠ [] →
      Taken s ({ s with
          machine := machine
          statistics := (s.statistics.record step.inst).addHits events.length
          watches := watches
          state := .stopped },
        .fired step events)
  | lost {machine : Machine} {step : Step} {watches : WatchPool} {e : PoolError} :
      s.machine.step = (machine, .ok step) → s.watches.checkIn machine = (watches, .error e) →
      Taken s ({ s with
          machine := machine
          statistics := s.statistics.record step.inst
          watches := watches
          state := .aborted machine.pc },
        .failed (.ofWatch e))
  | ended {machine : Machine} {pc code : Word} :
      s.machine.step = (machine, .error (.breakpoint pc code)) →
      Taken s ({ s with
          machine := machine
          statistics := s.statistics.recordBreakpoint
          state := .ended pc code },
        .ended)
  | trapped {machine : Machine} {t : Trap} :
      s.machine.step = (machine, .error t) → t.isFatal = true →
      Taken s ({ s with machine := machine, state := .aborted machine.pc }, .failed (.trap t))

namespace Simulator

/-- A turn is taken in one of the five ways. -/
theorem taken_turn (s : Simulator) : Taken s s.turn := by
  simp only [turn]
  split
  · next machine step hs =>
    simp only [observe]
    split
    · next watches e hw => exact .lost hs hw
    · next watches hw => exact .went hs hw
    · next watches events nonempty hw => exact .fired hs hw fun none => nonempty none
  · next machine pc code hs => exact .ended hs
  · next machine t other hs =>
    refine .trapped hs ?_
    cases t with
    | breakpoint pc code => exact absurd rfl (other pc code)
    | _ => rfl

end Simulator

end HartMonitor
