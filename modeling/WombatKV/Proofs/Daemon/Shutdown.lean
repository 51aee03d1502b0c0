import WombatKV.Daemon.Shutdown
import WombatKV.Proofs.Daemon.AsyncPut

/-! When no acknowledged put is lost at the end of main. -/

namespace WombatKV

open List

def MainPhase.waitsFor : MainPhase → List Nat
  | spawning _ handles | joining handles _ => handles
  | parked | draining _ | closing _ _ | returned _ _ => []

def MainPhase.settled : MainPhase → Bool
  | parked => true
  | closing _ timedOut | returned _ timedOut => !timedOut
  | spawning _ _ | joining _ _ | draining _ => false

theorem MainPhase.waitsFor_of_settled {phase : MainPhase} (settled : phase.settled = true) :
    phase.waitsFor = [] := by
  cases phase with
  | spawning left handles => cases settled
  | joining handles anyFailure => cases settled
  | _ => rfl

namespace DaemonProcess

variable {σ : Type} {backend : KvBackend σ} {config : ServeConfig} {process after : DaemonProcess σ}
  {index : Nat} {phase : MainPhase}

def unfinished (process : DaemonProcess σ) : Nat :=
  process.async.puts.countP fun put => put.phase ≠ .done

def counting (process : DaemonProcess σ) : Nat :=
  process.handlers.countP fun handler => handler.stage.isCounted

structure Accounted (process : DaemonProcess σ) : Prop where
  counted : process.async.inflight = process.unfinished + process.counting
  awaited : ∀ (index : Nat) handler, process.handlers[index]? = some handler →
    handler.isWorker = true →
    (∃ failed, handler.stage = .exited failed) ∨ index ∈ process.main.waitsFor
  settled : process.main.settled = true → process.async.inflight = 0
  acknowledged : ∀ thread ∈ process.acknowledged, thread < process.async.puts.length
  spawned : ∀ handler ∈ process.handlers, ∀ thread, handler.stage = .spawned thread →
    thread < process.async.puts.length

variable (accounted : process.Accounted)

include accounted

theorem Accounted.completed
    (settled : process.main.settled = true) : process.allCompleted = true := by
  have none_ : process.unfinished = 0 := by
    have counted := accounted.counted
    have idle := accounted.settled settled
    omega
  rw [unfinished, countP_eq_zero] at none_
  rw [allCompleted, all_eq_true]
  intro thread member
  have inside := accounted.acknowledged thread member
  have done := none_ _ (getElem_mem inside)
  rw [List.getElem?_eq_getElem inside]
  simpa using done

theorem Accounted.handle {handler : Handler} {stage : HandlerStage}
    (found : process.handlers[index]? = some handler)
    (active : ∀ failed, handler.stage ≠ .exited failed)
    (handlers : after.handlers = process.handlers.set index { handler with stage })
    (main : after.main = process.main)
    (count : after.async.inflight + process.unfinished + (if handler.stage.isCounted then 1 else 0)
      = process.async.inflight + after.unfinished + (if stage.isCounted then 1 else 0))
    (settled : process.main.settled = true → after.async.inflight = 0)
    (grows : process.async.puts.length ≤ after.async.puts.length)
    (acknowledged : ∀ thread ∈ after.acknowledged, thread < after.async.puts.length)
    (spawned : ∀ thread, stage = .spawned thread → thread < after.async.puts.length) :
    after.Accounted := by
  refine ⟨?_, ?_, ?_, acknowledged, ?_⟩
  · have total := countP_set found (fun handler => handler.stage.isCounted) { handler with stage }
    have counted := accounted.counted
    rw [← handlers] at total
    change _ + (if handler.stage.isCounted then 1 else 0) =
      _ + (if stage.isCounted then 1 else 0) at total
    unfold counting at counted ⊢
    omega
  · intro other next listed worker
    rw [main]
    by_cases same : index = other
    · -- The handler had not returned before, so main waits for it.
      subst same
      rw [handlers, List.getElem?_set_self', found] at listed
      cases listed
      refine .inr ((accounted.awaited index handler found worker).resolve_left ?_)
      rintro ⟨failed, exited⟩
      exact active failed exited
    · rw [handlers, List.getElem?_set_ne same] at listed
      exact accounted.awaited other next listed worker
  · rw [main]
    exact settled
  · intro next member thread at_
    rw [handlers] at member
    rcases mem_or_eq_of_mem_set member with old | rfl
    · exact Nat.lt_of_lt_of_le (accounted.spawned next old thread at_) grows
    · exact spawned thread at_

theorem Accounted.unsettled {handler : Handler} {request : WireRequest}
    (found : process.handlers[index]? = some handler) (idle : handler.stage = .idle)
    (calm : process.calm (.count index request) = true) : process.main.settled ≠ true := by
  intro settled
  obtain ⟨isWorker, stage⟩ := handler
  cases isWorker with
  | true =>
    rcases accounted.awaited index _ found rfl with ⟨failed, exited⟩ | waits
    · rw [idle] at exited
      cases exited
    · rw [MainPhase.waitsFor_of_settled settled] at waits
      cases waits
  | false =>
    simp only [DaemonProcess.calm, found] at calm
    cases main : process.main with
    | spawning left handles => simp [main, MainPhase.settled] at settled
    | joining handles anyFailure => simp [main, MainPhase.settled] at settled
    | _ => simp [main] at calm

theorem Accounted.advance
    (awaited : ∀ (index : Nat) handler, process.handlers[index]? = some handler → (∃ failed,
      handler.stage = .exited failed) ∨ (index ∈ process.main.waitsFor → index ∈ phase.waitsFor))
    (settled : phase.settled = true → process.async.inflight = 0) :
    Accounted { process with main := phase } := by
  refine ⟨accounted.counted, ?_, settled, accounted.acknowledged, accounted.spawned⟩
  intro index handler found worker
  rcases awaited index handler found with exited | stays
  · exact .inl exited
  · exact (accounted.awaited index handler found worker).imp_right stays

theorem Accounted.proceed (same : process.main.waitsFor = phase.waitsFor)
    (settled : phase.settled = true → process.async.inflight = 0) :
    Accounted { process with main := phase } := by
  refine accounted.advance ?_ settled
  intro index handler _
  rw [same]
  exact .inr id

theorem Accounted.join {isWorker : Bool}
    (stays : ∀ index ∈ process.main.waitsFor, index ∈ phase.waitsFor)
    (waits : isWorker = true → process.handlers.length ∈ phase.waitsFor)
    (settled : phase.settled = true → process.async.inflight = 0) :
    Accounted { process with
      handlers := process.handlers ++ [⟨isWorker, .idle⟩]
      main := phase } := by
  refine ⟨?_, ?_, settled, accounted.acknowledged, ?_⟩
  · have counted := accounted.counted
    have none_ : [(⟨isWorker, .idle⟩ : Handler)].countP (fun handler => handler.stage.isCounted) = 0 :=
      rfl
    simpa only [counting, unfinished, countP_append, none_, Nat.add_zero] using counted
  · intro index handler found worker
    rcases Nat.lt_or_ge index process.handlers.length with inside | behind
    · rw [List.getElem?_append_left inside] at found
      exact (accounted.awaited index handler found worker).imp_right (stays index)
    · -- The new handler is the only one from here on.
      rw [List.getElem?_append_right behind, List.getElem?_singleton] at found
      split at found
      · cases found
        obtain rfl : index = process.handlers.length := by omega
        exact .inr (waits worker)
      · cases found
  · intro handler member thread at_
    rcases mem_append.mp member with old | new
    · exact accounted.spawned handler old thread at_
    · rw [mem_singleton.mp new] at at_
      cases at_

theorem Accounted.mainStep {elapsed : Bool}
    (made : process.mainStep true elapsed = some after) : after.Accounted := by
  unfold DaemonProcess.mainStep at made
  split at made
  case h_1 handles main =>
    cases made
    exact accounted.proceed (by rw [main]; rfl) nofun
  case h_2 left handles main =>
    cases made
    refine accounted.join ?_ ?_ nofun
    · intro index member
      rw [main] at member
      exact mem_append_left _ member
    · intro _
      exact mem_append_right _ (mem_singleton_self _)
  case h_3 main =>
    have idle := accounted.settled (by rw [main]; rfl)
    split at made
    · cases made
      exact accounted.proceed (by rw [main]; rfl) fun _ => idle
    · cases made
      exact accounted
  case h_4 anyFailure main =>
    cases made
    exact accounted.proceed (by rw [main]; rfl) nofun
  case h_5 handle rest anyFailure main =>
    split at made
    case h_2 => cases made
    case h_1 isWorker failed found =>
      cases made
      refine accounted.advance ?_ nofun
      intro index handler listed
      by_cases joined : index = handle
      · subst joined
        rw [found] at listed
        cases listed
        exact .inl ⟨failed, rfl⟩
      · refine .inr fun member => ?_
        rw [main] at member
        exact (mem_cons.mp member).resolve_left joined
  case h_6 anyFailure main =>
    split at made
    · -- Only here does main learn that no put is in flight.
      rename_i idle
      cases made
      exact accounted.proceed (by rw [main]; rfl) fun _ => idle
    · split at made
      · cases made
        exact accounted.proceed (by rw [main]; rfl) nofun
      · cases made
        exact accounted
  case h_7 anyFailure timedOut main =>
    cases made
    refine accounted.proceed (by rw [main]; rfl) ?_
    intro settled
    exact accounted.settled (by rw [main]; exact settled)
  case h_8 => cases made

theorem Accounted.write {thread : Nat} {async : AsyncDaemon σ}
    (made : process.async.run backend thread = some async) : Accounted { process with async } := by
  obtain ⟨put, phase, found, puts, -, step⟩ := AsyncDaemon.run_cases made
  have length : async.puts.length = process.async.puts.length := by rw [puts, length_set]
  refine ⟨AsyncDaemon.run_counted made accounted.counted, accounted.awaited, ?_, ?_, ?_⟩
  · intro settled
    have idle := accounted.settled settled
    show async.inflight = 0
    rcases step with ⟨_, same⟩ | ⟨_, less⟩ <;> omega
  · intro other member
    show other < async.puts.length
    rw [length]
    exact accounted.acknowledged other member
  · intro handler member other at_
    show other < async.puts.length
    rw [length]
    exact accounted.spawned handler member other at_

omit accounted in
theorem fallBack_puts {backend : KvBackend σ} {state async : AsyncDaemon σ} {request : WireRequest}
    (made : state.fallBack backend request = some async) : async.inflight = state.inflight ∧
      ∃ more : List AsyncPut, async.puts = state.puts ++ more ∧
        more.countP (fun put => put.phase ≠ .done) = 0 := by
  obtain ⟨response, -, rfl⟩ := Option.map_eq_some_iff.mp made
  refine ⟨rfl, ?_⟩
  by_cases stored : response.status = Status.ok
  · exact ⟨[⟨request, .done⟩], if_pos stored, rfl⟩
  · exact ⟨[], (if_neg stored).trans (append_nil _).symm, rfl⟩

theorem Accounted.count {request : WireRequest} (calm : process.calm (.count index request) = true)
    (made : process.liveStep backend config (.count index request) = some after) :
    after.Accounted := by
  obtain ⟨handler, found, made⟩ := Option.bind_eq_some_iff.mp made
  split at made
  case h_2 => cases made
  case h_1 idle =>
    cases made
    refine accounted.handle found (by simp [idle]) rfl rfl ?_ ?_ (Nat.le_refl _)
      accounted.acknowledged nofun
    · rw [idle]
      show process.async.inflight + 1 + process.unfinished + 0 =
        process.async.inflight + process.unfinished + 1
      omega
    · intro settled
      exact absurd settled (accounted.unsettled found idle calm)

theorem Accounted.spawn {spawns : Bool}
    (made : process.liveStep backend config (.spawn index spawns) = some after) :
    after.Accounted := by
  obtain ⟨handler, found, made⟩ := Option.bind_eq_some_iff.mp made
  split at made
  case h_2 => cases made
  case h_1 request was =>
    have counted : 0 < process.async.inflight := by
      have some_ : 0 < process.counting :=
        countP_pos_iff.mpr ⟨handler, mem_of_getElem? found, by rw [was]; rfl⟩
      have counted := accounted.counted
      omega
    split at made
    · cases made
      have one : [(⟨request, .waiting⟩ : AsyncPut)].countP (fun put => put.phase ≠ .done) = 1 := rfl
      have length : (process.async.spawn request).puts.length = process.async.puts.length + 1 :=
        length_append
      refine accounted.handle found (by simp [was]) rfl rfl ?_ accounted.settled ?_ ?_ ?_
      · rw [was]
        simp only [unfinished, AsyncDaemon.spawn, countP_append, one]
        show process.async.inflight + _ + 1 = process.async.inflight + (_ + 1) + 0
        omega
      · show process.async.puts.length ≤ (process.async.spawn request).puts.length
        omega
      · intro thread member
        have inside := accounted.acknowledged thread member
        show thread < (process.async.spawn request).puts.length
        omega
      · intro thread same
        cases same
        show process.async.puts.length < (process.async.spawn request).puts.length
        omega
    · obtain ⟨async, fell, rfl⟩ := Option.map_eq_some_iff.mp made
      obtain ⟨inflight, more, puts, done⟩ := fallBack_puts fell
      have length : process.async.puts.length ≤ async.puts.length := by
        rw [puts, length_append]
        exact Nat.le_add_right _ _
      refine accounted.handle found (by simp [was]) rfl rfl ?_ ?_ length ?_ (by simp)
      · rw [was]
        simp only [unfinished, puts, inflight, countP_append, done, AsyncDaemon.uncount]
        show process.async.inflight - 1 + _ + 1 = process.async.inflight + (_ + 0) + 0
        omega
      · intro settled
        have idle := accounted.settled settled
        omega
      · intro thread member
        exact Nat.lt_of_lt_of_le (accounted.acknowledged thread member) length

theorem Accounted.acknowledge
    (made : process.liveStep backend config (.acknowledge index) = some after) :
    after.Accounted := by
  obtain ⟨handler, found, made⟩ := Option.bind_eq_some_iff.mp made
  split at made
  case h_2 => cases made
  case h_1 thread was =>
    cases made
    refine accounted.handle found (by simp [was]) rfl rfl ?_ accounted.settled (Nat.le_refl _)
      ?_ nofun
    · rw [was]
      rfl
    · intro other member
      rcases mem_append.mp member with old | new
      · exact accounted.acknowledged other old
      · rw [mem_singleton.mp new]
        exact accounted.spawned handler (mem_of_getElem? found) thread was

theorem Accounted.exit {failed : Bool}
    (made : process.liveStep backend config (.exit index failed) = some after) :
    after.Accounted := by
  obtain ⟨handler, found, made⟩ := Option.bind_eq_some_iff.mp made
  split at made
  case isFalse => cases made
  case isTrue idle =>
    cases made
    refine accounted.handle found (by simp [idle.2]) rfl rfl ?_ accounted.settled (Nat.le_refl _)
      accounted.acknowledged nofun
    rw [idle.2]
    rfl

omit accounted in
theorem start_accounted (config : ServeConfig) (daemon : Daemon σ) :
    (start config daemon).Accounted :=
  ⟨rfl, nofun, fun _ => rfl, nofun, nofun⟩

theorem Accounted.step {label : ProcessStep} (calm : process.calm label = true)
    (made : process.step backend config label = some after) : after.Accounted := by
  have live : process.liveStep backend config label = some after := by
    unfold DaemonProcess.step at made
    split at made
    · cases made
    · exact made
  cases label with
  | signal =>
    cases live
    exact ⟨accounted.counted, accounted.awaited, accounted.settled, accounted.acknowledged,
      accounted.spawned⟩
  | main spawns elapsed =>
    obtain rfl : spawns = true := calm
    exact accounted.mainStep live
  | connect =>
    simp only [DaemonProcess.liveStep] at live
    split at live
    · cases live
      exact accounted.join (fun _ member => member) nofun accounted.settled
    · cases live
  | count index request => exact accounted.count calm live
  | spawn index spawns => exact accounted.spawn live
  | acknowledge index => exact accounted.acknowledge live
  | write thread =>
    obtain ⟨async, ran, made⟩ := Option.bind_eq_some_iff.mp live
    cases made
    exact accounted.write ran
  | exit index failed => exact accounted.exit live

end DaemonProcess

open DaemonProcess in
/-- When main returns without having reported a timeout, every acknowledged put has completed. -/
theorem acknowledged_puts_are_drained {σ : Type} (backend : KvBackend σ) (config : ServeConfig)
    (daemon : Daemon σ) {process : DaemonProcess σ} {success : Bool}
    (reached : (system backend config daemon).Reachable (fun before label => before.calm label)
      process)
    (returned : process.main = .returned success false) : process.allCompleted = true := by
  have initial : (system backend config daemon).start.Accounted := start_accounted config daemon
  have kept (before : DaemonProcess σ) (label : ProcessStep) (after : DaemonProcess σ)
      (accounted : before.Accounted) (calm : before.calm label = true)
      (made : (system backend config daemon).step before label = some after) : after.Accounted :=
    accounted.step calm made
  have accounted : process.Accounted := reached.invariant initial kept
  apply accounted.completed
  rw [returned]
  rfl

def localOnly : ServeConfig := ⟨[['p']], [], []⟩

def remoteOnly : ServeConfig := ⟨[], [['a']], []⟩

def localAndRemote : ServeConfig := ⟨[['p']], [['a']], []⟩

def takesOn (handler : Nat) : List ProcessStep :=
  [.count handler (bytePut 1), .spawn handler true, .acknowledge handler]

def DaemonProcess.ending {σ : Type} (process : DaemonProcess σ) : MainPhase × Bool × List Nat × Bool :=
  (process.main, process.signalled, process.acknowledged, process.allCompleted)

open DaemonProcess in
theorem acknowledged_puts_are_drained_local :
    ∃ process, (system memoryBackend localOnly emptyDaemon).Reachable
      (fun before label => before.calm label) process ∧
      (process.main, process.signalled, process.acknowledged) = (.returned true false, true, [0]) ∧
      process.allCompleted = true := by
  obtain ⟨process, reached, outcome⟩ : ∃ process,
      (system memoryBackend localOnly emptyDaemon).Reachable
        (fun before label => before.calm label) process ∧
      (process.main, process.signalled, process.acknowledged) =
        (.returned true false, true, [0]) :=
    System.reaches calm (fun _ _ calm => calm)
      ([.main true false, .main true false] ++ takesOn 0 ++ [.signal, .exit 0 false] ++
        List.replicate 3 (.main true false) ++ List.replicate 5 (.write 0) ++
        List.replicate 2 (.main true false)) (by decide +kernel)
  exact ⟨process, reached, outcome, acknowledged_puts_are_drained memoryBackend localOnly emptyDaemon
    reached (Prod.mk.inj outcome).1⟩

open DaemonProcess in
theorem acknowledged_puts_are_dropped :
    (∃ process, (system memoryBackend remoteOnly emptyDaemon).Reachable (fun _ _ => True) process ∧
      process.ending = (.returned true false, true, [0], false)) ∧
    ∃ process, (system memoryBackend localAndRemote emptyDaemon).Reachable (fun _ _ => True)
      process ∧ process.ending = (.returned true false, true, [0], false) := by
  constructor
  · exact System.reaches (fun _ _ => true) (fun _ _ _ => trivial)
      ([.connect] ++ takesOn 0 ++ [.signal, .main true false]) (by decide +kernel)
  · exact System.reaches (fun _ _ => true) (fun _ _ _ => trivial)
      ([.main true false, .main true false, .connect, .signal, .exit 0 false] ++
        List.replicate 3 (.main true false) ++ takesOn 1 ++ [.main true false])
      (by decide +kernel)

end WombatKV

