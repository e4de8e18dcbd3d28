import RvBoard.Proofs.Virtio.Requests

/-!
# Turns of a queue

A round of a queue takes the next request, serves it and looks at the flags of the driver. The
rounds of a queue end when the requests that were waiting have been served.
-/

set_option autoImplicit false

namespace RvBoard.Virtio

namespace Service

variable {δ : Type}

structure Turned (service final : Service δ) (index : Nat) (queue : VirtQueue) (dma : Dma δ) (calls : Bool) : Prop where
  backend : final.transport.backend = dma.backend
  bus : final.bus = dma.bus
  raise : final.raise = (service.raise || calls)
  interruptStatus : final.transport.interruptStatus = service.transport.interruptStatus
  slots : ∀ other, final.transport.slots[other]? =
    if index = other then service.transport.slots[other]?.map fun slot => { slot with queue := queue }
    else service.transport.slots[other]?

theorem Turned.trans {first second third : Service δ} {index : Nat} {queue queue' : VirtQueue} {dma dma' : Dma δ}
    {calls calls' : Bool} (starts : Turned first second index queue dma calls)
    (follows : Turned second third index queue' dma' calls') : Turned first third index queue' dma' (calls || calls') := by
  refine ⟨follows.backend, follows.bus, ?_, follows.interruptStatus.trans starts.interruptStatus, ?_⟩
  · rw [follows.raise, starts.raise, Bool.or_assoc]
  · intro other
    rw [follows.slots, starts.slots]
    by_cases here : index = other
    · simp only [if_pos here, Option.map_map]
      rfl
    · simp only [if_neg here]

theorem setQueue_slots (service : Service δ) (index : Nat) (queue : VirtQueue) (other : Nat) :
    (service.setQueue index queue).transport.slots[other]? =
      if index = other then service.transport.slots[other]?.map fun slot => { slot with queue := queue }
      else service.transport.slots[other]? :=
  Array.getElem?_modify

theorem onRing_ok {α : Type} {service : Service δ} {index : Nat} {queue after : VirtQueue} {operation : RingM α} {value : α}
    {next : Bus} (done : operation ⟨queue, service.bus⟩ = .ok value ⟨after, next⟩) :
    service.onRing index queue operation = (.ok value, setQueue { service with bus := next } index after) := by
  obtain ⟨transport, bus, raise⟩ := service
  unfold onRing
  dsimp only at done ⊢
  rw [done]

theorem onRing_error {α : Type} {service : Service δ} {index : Nat} {queue after : VirtQueue} {operation : RingM α}
    {error : QueueError} {next : Bus} (failed : operation ⟨queue, service.bus⟩ = .error error ⟨after, next⟩) :
    service.onRing index queue operation = (.error error, setQueue { service with bus := next } index after) := by
  obtain ⟨transport, bus, raise⟩ := service
  unfold onRing
  dsimp only at failed ⊢
  rw [failed]

theorem handle_respond [Processor δ] {service : Service δ} (index : Nat) {queue : VirtQueue} {head : UInt16}
    {result : Except QueueError Chain} (walked : readChain queue head service.bus = resultAt result service.bus) :
    service.handle index queue head =
      let (length, ⟨backend, bus⟩) := respond index result.toOption ⟨service.transport.backend, service.bus⟩
      (length, ⟨{ service.transport with backend := backend }, bus, service.raise⟩) := by
  obtain ⟨transport, bus, raise⟩ := service
  unfold handle respond
  dsimp only at walked ⊢
  rw [walked]
  cases result with
  | error error => rfl
  | ok chain =>
    dsimp only [resultAt, Except.toOption]
    generalize Processor.process index chain (⟨transport.backend, bus⟩ : Dma δ) = outcome
    cases outcome <;> rfl

theorem finish_reported {service : Service δ} {index : Nat} {queue : VirtQueue} {head : UInt16} {length : UInt32} {next : Bus}
    {other : Bus} (mapped : queue.Mapped other) (reported : queue.report head length service.bus = .ok () next) {flags : UInt64}
    (shows : next.Shows queue.avail 1 flags) :
    service.finish index queue head length =
      (true, { setQueue { service with bus := next } index { queue with usedIndex := queue.usedIndex + 1 } with
        raise := service.raise || !(flags.toUInt16 &&& 1 != 0) }) := by
  unfold finish
  rw [onRing_ok (pushUsed_report mapped reported)]
  obtain ⟨transport, bus, raise⟩ := service
  dsimp only [setQueue]
  rw [suppressed_shows shows]

section Rounds

variable [Processor δ] {base : Bus} {region filled : Bus.Cell → Prop} {service : Service δ} {index : Nat} {queue : VirtQueue}
  {notified : Bool}

theorem round_unready (slot : service.transport.slots[index]? = some ⟨queue, notified⟩) (unready : queue.ready = false) :
    ∃ next, service.round index = (false, next) ∧
      Turned service next index queue ⟨service.transport.backend, service.bus⟩ false := by
  have stopped : service.round index = (false, (setQueue service index queue).setStatus needsReset) := by
    unfold round
    rw [slot]
    dsimp only
    rw [onRing_error (popAvail_not_ready unready)]
  exact ⟨_, stopped, rfl, rfl, (Bool.or_false _).symm, rfl, setQueue_slots service index queue⟩

theorem round_reports (slot : service.transport.slots[index]? = some ⟨queue, notified⟩) {head : UInt16}
    (takes : popAvail ⟨queue, service.bus⟩ = .ok (some head) ⟨{ queue with lastAvail := queue.lastAvail + 1 }, service.bus⟩)
    {result : Except QueueError Chain} (walked : readChain queue head service.bus = resultAt result service.bus)
    {answer : UInt32 × Dma δ} (responded : respond index result.toOption ⟨service.transport.backend, service.bus⟩ = answer)
    {other next : Bus} (mapped : queue.Mapped other) (reported : queue.report head answer.1 answer.2.bus = .ok () next)
    {flags : UInt64} (shows : next.Shows queue.avail 1 flags) :
    ∃ final, service.round index = (true, final) ∧
      Turned service final index (queue.advanced 1) ⟨answer.2.backend, next⟩ (!(flags.toUInt16 &&& 1 != 0)) := by
  subst responded
  let answer := respond index result.toOption ⟨service.transport.backend, service.bus⟩
  let taken : VirtQueue := { queue with lastAvail := queue.lastAvail + 1 }
  let popped : Service δ := service.setQueue index taken
  let handled : Service δ := ⟨{ popped.transport with backend := answer.2.backend }, answer.2.bus, service.raise⟩
  have pops : service.onRing index queue popAvail = (.ok (some head), popped) := onRing_ok takes
  have handles : popped.handle index taken head = (answer.1, handled) := by
    have walks : popped.handle index taken head = _ := handle_respond index walked
    exact walks
  have mappedTaken : taken.Mapped other := mapped.moved _ _
  have reportedTaken : taken.report head answer.1 handled.bus = .ok () next := reported
  have finishes : handled.finish index taken head answer.1 = _ := finish_reported mappedTaken reportedTaken shows
  have rounded : service.round index = handled.finish index taken head answer.1 := by
    unfold round
    rw [slot]
    dsimp only
    rw [pops]
    dsimp only
    rw [handles]
  refine ⟨_, rounded.trans finishes, rfl, rfl, rfl, rfl, ?_⟩
  intro other
  refine (setQueue_slots _ index _ other).trans ?_
  have before := setQueue_slots service index taken other
  by_cases here : index = other
  · rw [if_pos here] at before ⊢
    rw [if_pos here]
    refine (congrArg (Option.map _) before).trans ?_
    rw [Option.map_map]
    rfl
  · rw [if_neg here] at before ⊢
    rw [if_neg here]
    exact before

section Sound

variable (sound : Sound base region queue) (confined : Bus.Confined region base service.bus)

include sound confined

omit [Processor δ] in
theorem available_shows : ∃ available, service.bus.Shows (queue.avail + 2) 1 available ∧
    available.toUInt16 = half base (queue.avail + 2) := by
  obtain ⟨available, shows⟩ := sound.mapped.index.mapped.shows
  exact ⟨available, shows.confined confined sound.index, (half_shows shows).symm⟩

theorem round_caughtUp (slot : service.transport.slots[index]? = some ⟨queue, notified⟩) (ready : queue.ready = true)
    (caughtUp : half base (queue.avail + 2) = queue.lastAvail) :
    ∃ next, service.round index = (false, next) ∧
      Turned service next index queue ⟨service.transport.backend, service.bus⟩ false := by
  obtain ⟨available, shows, same⟩ := available_shows sound confined
  have stopped : service.round index = (false, setQueue service index queue) := by
    unfold round
    rw [slot]
    dsimp only
    rw [onRing_ok (popAvail_empty ready sound.mapped.index.fits shows (same.trans caughtUp))]
  exact ⟨_, stopped, rfl, rfl, (Bool.or_false _).symm, rfl, setQueue_slots service index queue⟩

omit [Processor δ] sound in
theorem walk_unchanged (clear : Clear base region filled (queue.request index base)) :
    ∃ result, readChain queue (queue.head base) service.bus = resultAt result service.bus ∧
      result.toOption = (queue.request index base).chain? := by
  obtain ⟨result, before, now⟩ := readChain_alike confined clear.entries
  refine ⟨result, now, ?_⟩
  have given : value? (resultAt result base) = result.toOption := by cases result <;> rfl
  exact given.symm.trans (congrArg value? before.symm)

variable [Confining δ]

theorem round_next (clear : Clear base region filled (queue.request index base)) (inside : ∀ cell, filled cell → region cell)
    (slot : service.transport.slots[index]? = some ⟨queue, notified⟩) (ready : queue.ready = true)
    (waiting : half base (queue.avail + 2) ≠ queue.lastAvail) :
    ∃ next, service.round index = (true, next) ∧
      Turned service next index (queue.advanced 1)
        ((queue.request index base).serve ⟨service.transport.backend, service.bus⟩).2 (!queue.quiet base) := by
  let dma : Dma δ := ⟨service.transport.backend, service.bus⟩
  have serves : Serves base filled (queue.request index base) dma _ _ := serve_serves sound clear inside confined
  have within := serves.within sound inside confined
  obtain ⟨result, walked, chain⟩ := walk_unchanged confined clear
  obtain ⟨available, showsIndex, same⟩ := available_shows sound confined
  obtain ⟨head, showsHead⟩ := (sound.mapped.heads queue.lastAvail).mapped.shows
  obtain ⟨flags, showsFlags⟩ := sound.mapped.flags.shows
  have named : queue.head base = head.toUInt16 := half_shows showsHead
  have asked : queue.quiet base = (flags.toUInt16 &&& 1 != 0) := by
    unfold VirtQueue.quiet
    rw [half_shows showsFlags]
  have takes := popAvail_next ready sound.mapped.index.fits showsIndex (fun caughtUp => waiting (same.symm.trans caughtUp))
    (sound.mapped.heads queue.lastAvail).fits (showsHead.confined confined (sound.heads _))
  rw [← named] at takes
  rw [asked]
  exact round_reports slot takes walked (congrArg (respond index · dma) chain) sound.mapped serves.reported
    (showsFlags.confined within sound.flags)

end Sound

theorem toNat_sub_zero {a b : UInt16} (none : (a - b).toNat = 0) : a = b := by
  have left := a.toNat_lt
  have right := b.toNat_lt
  rw [UInt16.toNat_sub] at none
  apply UInt16.toNat_inj.mp
  omega

theorem toNat_sub_succ {a b : UInt16} {n : Nat} (more : (a - b).toNat = n + 1) : a ≠ b ∧ (a - (b + 1)).toNat = n := by
  have left := a.toNat_lt
  have right := b.toNat_lt
  have one : (1 : UInt16).toNat = 1 := rfl
  rw [UInt16.toNat_sub] at more
  refine ⟨?_, ?_⟩
  · rintro rfl
    omega
  · rw [UInt16.toNat_sub, UInt16.toNat_add]
    omega

theorem rounds_turn [Confining δ] {n : Nat} (sound : Sound base region queue) (inside : ∀ cell, filled cell → region cell)
    (clear : ∀ request ∈ queue.pending index base n, Clear base region filled request)
    (confined : Bus.Confined region base service.bus) (slot : service.transport.slots[index]? = some ⟨queue, notified⟩)
    (ready : queue.ready = true) (count : (half base (queue.avail + 2) - queue.lastAvail).toNat = n) :
    ∃ final, rounds index service = some final ∧ Bus.Confined region base final.bus ∧
      Turned service final index (queue.advanced n)
        (serveAll (queue.pending index base n) ⟨service.transport.backend, service.bus⟩).2 (n != 0 && !queue.quiet base) := by
  induction n generalizing service queue with
  | zero =>
    obtain ⟨final, stopped, turned⟩ := round_caughtUp sound confined slot ready (toNat_sub_zero count)
    refine ⟨final, ?_, ?_, ?_⟩
    · rw [rounds, stopped]
    · rw [turned.bus]
      exact confined
    · rw [VirtQueue.advanced_zero]
      exact turned
  | succ n ih =>
    obtain ⟨waiting, rest⟩ := toNat_sub_succ count
    rw [VirtQueue.pending_succ] at clear ⊢
    have first := clear _ List.mem_cons_self
    obtain ⟨next, continues, turned⟩ := round_next sound confined first inside slot ready waiting
    have within : Bus.Confined region base next.bus := by
      rw [turned.bus]
      exact (serve_serves sound first inside confined).within sound inside confined
    have moved : next.transport.slots[index]? = some ⟨queue.advanced 1, notified⟩ := by
      rw [turned.slots, if_pos rfl, slot]
      rfl
    obtain ⟨final, done, kept, turns⟩ := ih (sound.advanced 1)
      (fun request member => clear request (List.mem_cons_of_mem _ member)) within moved ready rest
    refine ⟨final, ?_, kept, ?_⟩
    · rw [rounds, continues]
      exact done
    · have both := turned.trans turns
      rw [VirtQueue.advanced_add, Nat.add_comm 1 n, turned.backend, turned.bus] at both
      have calls : (!queue.quiet base || (n != 0 && !(queue.advanced 1).quiet base)) = (n + 1 != 0 && !queue.quiet base) := by
        have asked : (queue.advanced 1).quiet base = queue.quiet base := rfl
        rw [asked]
        cases queue.quiet base <;> simp
      rw [calls] at both
      exact both

end Rounds

end Service

end RvBoard.Virtio
