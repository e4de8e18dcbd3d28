import RvBoard.Proofs.Virtio.Chains
import RvBoard.Proofs.Virtio.Service

/-!
# Requests one after the other

The requests that wait in a queue, as memory shows them before any of them is served, and what it
is to serve them: each is handed to the device and then reported. As long as nothing that is
written lies on what is consulted, the rounds of the queue come to exactly that.
-/

set_option autoImplicit false

namespace RvBoard.Virtio

def half (bus : Bus) (address : UInt64) : UInt16 :=
  ((value? (Bus.load address 1 bus)).getD 0).toUInt16

structure Request where
  index : Nat
  queue : VirtQueue
  head : UInt16
  -- The buffers, unless the request is malformed.
  chain? : Option Chain

namespace VirtQueue

-- How many requests the driver has made available.
def due (queue : VirtQueue) (bus : Bus) : Nat :=
  if queue.ready then (half bus (queue.avail + 2) - queue.lastAvail).toNat else 0

def quiet (queue : VirtQueue) (bus : Bus) : Bool :=
  half bus queue.avail &&& 1 != 0

def head (queue : VirtQueue) (bus : Bus) : UInt16 :=
  half bus (queue.headAddress queue.lastAvail)

def request (queue : VirtQueue) (index : Nat) (bus : Bus) : Request :=
  { index, queue, head := queue.head bus, chain? := value? (readChain queue (queue.head bus) bus) }

-- The requests that wait, in ring order.
def pending (queue : VirtQueue) (index : Nat) (bus : Bus) (n : Nat) : List Request :=
  (List.range n).map fun k => (queue.advanced k).request index bus

theorem due_ready {queue : VirtQueue} (bus : Bus) (ready : queue.ready = true) :
    queue.due bus = (half bus (queue.avail + 2) - queue.lastAvail).toNat :=
  if_pos ready

theorem due_unready {queue : VirtQueue} (bus : Bus) (unready : queue.ready = false) : queue.due bus = 0 := by
  unfold due
  rw [unready]
  rfl

theorem advanced_zero (queue : VirtQueue) : queue.advanced 0 = queue := by
  unfold advanced
  simp

theorem advanced_add (queue : VirtQueue) (m n : Nat) : (queue.advanced m).advanced n = queue.advanced (m + n) := by
  unfold advanced
  simp [UInt16.add_assoc]

theorem pending_succ (queue : VirtQueue) (index : Nat) (bus : Bus) (n : Nat) :
    queue.pending index bus (n + 1) = queue.request index bus :: (queue.advanced 1).pending index bus n := by
  unfold pending
  rw [List.range_succ_eq_map, List.map_cons, List.map_map, advanced_zero]
  congr 1
  apply List.map_congr_left
  intro k _
  change (queue.advanced (k + 1)).request index bus = ((queue.advanced 1).advanced k).request index bus
  rw [advanced_add, Nat.add_comm]

theorem pending_split (queue : VirtQueue) (index : Nat) (bus : Bus) {k n : Nat} (inside : k < n) :
    queue.pending index bus n = queue.pending index bus k ++
      (queue.advanced k).request index bus :: (queue.advanced (k + 1)).pending index bus (n - (k + 1)) := by
  induction k generalizing queue n with
  | zero =>
    obtain ⟨m, rfl⟩ := Nat.exists_eq_add_of_lt inside
    rw [advanced_zero, Nat.zero_add, pending_succ]
    rfl
  | succ k ih =>
    obtain ⟨m, rfl⟩ := Nat.exists_eq_add_of_lt inside
    have first : k + 1 + m + 1 = k + m + 1 + 1 := by omega
    have rest : k + 1 + m + 1 - (k + 1 + 1) = k + m + 1 - (k + 1) := by omega
    have tail := ih (queue.advanced 1) (show k < k + m + 1 by omega)
    rw [advanced_add, advanced_add, Nat.add_comm 1 k, Nat.add_comm 1 (k + 1)] at tail
    rw [rest, first, pending_succ queue index bus (k + m + 1), tail, pending_succ queue index bus k]
    rfl

theorem mem_pending {queue : VirtQueue} {index : Nat} {bus : Bus} {n : Nat} {request : Request}
    (waits : request ∈ queue.pending index bus n) : ∃ k < n, (queue.advanced k).request index bus = request := by
  obtain ⟨k, inside, same⟩ := List.mem_map.mp waits
  exact ⟨k, List.mem_range.mp inside, same⟩

theorem pending_index {queue : VirtQueue} {index : Nat} {bus : Bus} {n : Nat} {request : Request}
    (waits : request ∈ queue.pending index bus n) : request.index = index := by
  obtain ⟨k, _, rfl⟩ := mem_pending waits
  rfl

end VirtQueue

section Serving

variable {δ : Type} [Processor δ]

def respond (index : Nat) (chain? : Option Chain) (dma : Dma δ) : UInt32 × Dma δ :=
  match chain? with
  | none => (0, dma)
  | some chain =>
    match Processor.process index chain dma with
    | .ok length dma => (length, dma)
    | .error _ dma => (0, dma)

-- A request is handed to the device and reported.
def Request.serve (request : Request) (dma : Dma δ) : UInt32 × Dma δ :=
  let (length, ⟨backend, bus⟩) := respond request.index request.chain? dma
  (length, ⟨backend, left (request.queue.report request.head length bus)⟩)

def serveAll : List Request → Dma δ → List (Request × UInt32) × Dma δ
  | [], dma => ([], dma)
  | request :: rest, dma =>
    let (length, dma) := request.serve dma
    let (log, dma) := serveAll rest dma
    ((request, length) :: log, dma)

theorem serveAll_append (first rest : List Request) (dma : Dma δ) :
    serveAll (first ++ rest) dma =
      ((serveAll first dma).1 ++ (serveAll rest (serveAll first dma).2).1, (serveAll rest (serveAll first dma).2).2) := by
  induction first generalizing dma with
  | nil => rfl
  | cons request first ih =>
    simp only [List.cons_append, serveAll, ih]

theorem log_requests (requests : List Request) (dma : Dma δ) : (serveAll requests dma).1.map Prod.fst = requests := by
  induction requests generalizing dma with
  | nil => rfl
  | cons request rest ih => simp only [serveAll, List.map_cons, ih]

theorem serveAll_entry (before later : List Request) (request : Request) (dma : Dma δ) :
    (request, (request.serve (serveAll before dma).2).1) ∈ (serveAll (before ++ request :: later) dma).1 ∧
      (serveAll (before ++ request :: later) dma).2 = (serveAll later (request.serve (serveAll before dma).2).2).2 := by
  rw [serveAll_append]
  exact ⟨List.mem_append_right _ List.mem_cons_self, rfl⟩

end Serving

theorem half_shows {bus : Bus} {address value : UInt64} (shows : bus.Shows address 1 value) :
    half bus address = value.toUInt16 := by
  unfold half
  rw [shows.load]
  rfl

theorem VirtQueue.Mapped.confined {region : Bus.Cell → Prop} {bus next : Bus} {queue : VirtQueue}
    (mapped : queue.Mapped bus) (confined : Bus.Confined region bus next) : queue.Mapped next := by
  have field : ∀ {base offset : UInt64} {size : Nat}, Field bus base offset size → Field next base offset size :=
    fun field => ⟨field.fits, field.mapped.confined confined⟩
  exact ⟨mapped.flags.confined confined, field mapped.index, fun i => field (mapped.heads i), field mapped.counter,
    fun i => field (mapped.ids i), fun i => field (mapped.lengths i)⟩

theorem Separate.confined {region : Bus.Cell → Prop} {bus next : Bus} {queue : VirtQueue} (separate : Separate bus queue)
    (confined : Bus.Confined region bus next) : Separate next queue :=
  fun f g a b inF inG different cell first second =>
    separate f g a b inF inG different cell (confined.covers first) (confined.covers second)

structure Sound (base : Bus) (region : Bus.Cell → Prop) (queue : VirtQueue) : Prop where
  mapped : queue.Mapped base
  flags : ∀ cell, base.Covers ⟨queue.avail, 2⟩ cell → ¬ region cell
  index : ∀ cell, base.Covers ⟨queue.avail + 2, 2⟩ cell → ¬ region cell
  heads : ∀ i cell, base.Covers ⟨queue.headAddress i, 2⟩ cell → ¬ region cell
  used : ∀ {field area}, UsedArea queue field area → ∀ cell, base.Covers area cell → region cell
  separate : Separate base queue

structure Clear (base : Bus) (region filled : Bus.Cell → Prop) (request : Request) : Prop where
  entries : ∀ address, VisitsChain base request.queue request.head address → Untouched base region ⟨address, descriptorSize⟩
  buffers : ∀ chain, request.chain? = some chain → ∀ descriptor ∈ chain.writable,
    ∀ cell, base.Covers ⟨descriptor.address, descriptor.length.toNat⟩ cell → filled cell

section Turns

variable {base : Bus} {region filled : Bus.Cell → Prop} {queue : VirtQueue}

theorem UsedArea.advanced {field : UsedField} {area : Bus.Area} {n : Nat} (used : UsedArea (queue.advanced n) field area) :
    UsedArea queue field area := by
  cases used with
  | counter => exact .counter
  | id i => exact .id i
  | length i => exact .length i

theorem Separate.advanced {bus : Bus} (separate : Separate bus queue) (n : Nat) : Separate bus (queue.advanced n) :=
  fun f g a b inF inG => separate f g a b inF.advanced inG.advanced

theorem Sound.advanced (sound : Sound base region queue) (n : Nat) : Sound base region (queue.advanced n) := by
  obtain ⟨mapped, flags, index, heads, used, separate⟩ := sound
  exact ⟨mapped.moved _ _, flags, index, heads, fun inRing => used inRing.advanced, separate.advanced n⟩

variable {δ : Type} [Processor δ] [Confining δ]

theorem respond_confined (index : Nat) {chain? : Option Chain} {dma : Dma δ} (confined : Bus.Confined region base dma.bus)
    (buffers : ∀ chain, chain? = some chain → ∀ descriptor ∈ chain.writable,
      ∀ cell, base.Covers ⟨descriptor.address, descriptor.length.toNat⟩ cell → filled cell) :
    Bus.Confined filled dma.bus (respond index chain? dma).2.bus := by
  unfold respond
  cases chain? with
  | none => exact .refl filled dma.bus
  | some chain =>
    have legible : Bus.Legible (Bus.Confined filled dma.bus) :=
      ⟨fun address size bus start => start.trans (Bus.load_confined filled address size bus),
        fun address n bus start => start.trans (Bus.readBytes_confined filled address n bus)⟩
    have spares : Spares (Bus.Confined filled dma.bus) chain.writable := by
      intro descriptor member address bytes above below bus start
      refine start.trans (Bus.writeBytes_confined address bytes bus ?_)
      intro cell covered
      exact buffers chain rfl descriptor member cell ((confined.covers (start.covers covered)).within above below)
    have kept := Confining.process_keeps legible index chain spares dma (.refl filled dma.bus)
    dsimp only
    generalize Processor.process index chain dma = outcome at kept
    cases outcome with
    | ok length after => exact kept
    | error fault after => exact kept

-- What serving a request does to memory.
structure Serves (base : Bus) (filled : Bus.Cell → Prop) (request : Request) (dma after : Dma δ) (length : UInt32) :
    Prop where
  reported : request.queue.report request.head length (respond request.index request.chain? dma).2.bus = .ok () after.bus
  confined : Bus.Confined (fun cell => filled cell ∨ UsedCells base request.queue (· ∈ request.queue.reported) cell)
    dma.bus after.bus
  id : after.bus.Shows (request.queue.elementAddress request.queue.usedIndex) 2 request.head.toUInt64
  length : after.bus.Shows (request.queue.elementAddress request.queue.usedIndex + 4) 2 length.toUInt64
  counter : after.bus.Shows (request.queue.used + 2) 1 (request.queue.usedIndex + 1).toUInt64

theorem serve_serves {request : Request} {dma : Dma δ} (sound : Sound base region request.queue)
    (clear : Clear base region filled request) (inside : ∀ cell, filled cell → region cell)
    (confined : Bus.Confined region base dma.bus) :
    Serves base filled request dma (request.serve dma).2 (request.serve dma).1 := by
  have responded := respond_confined request.index confined clear.buffers
  unfold Request.serve
  generalize answered : respond request.index request.chain? dma = answer at responded
  obtain ⟨length, backend, bus⟩ := answer
  have between := confined.trans (responded.mono inside)
  obtain ⟨next, reported, changed, shows⟩ := report_mapped (sound.mapped.confined between) request.head length
  obtain ⟨showsId, showsLength, showsCounter⟩ := shows (sound.separate.confined between)
  have cells : ∀ cell, UsedCells bus request.queue (· ∈ request.queue.reported) cell →
      UsedCells base request.queue (· ∈ request.queue.reported) cell := by
    rintro cell ⟨field, area, among, inRing, covered⟩
    exact ⟨field, area, among, inRing, between.covers covered⟩
  dsimp only
  rw [reported]
  refine ⟨?_, ?_, showsId, showsLength, showsCounter⟩
  · rw [answered]
    exact reported
  · exact (responded.mono fun _ touched => .inl touched).trans (changed.mono fun cell touched => .inr (cells cell touched))

omit [Confining δ] in
theorem Serves.within {request : Request} {dma after : Dma δ} {length : UInt32}
    (serves : Serves base filled request dma after length) (sound : Sound base region request.queue)
    (inside : ∀ cell, filled cell → region cell) (confined : Bus.Confined region base dma.bus) :
    Bus.Confined region base after.bus := by
  refine confined.trans (serves.confined.mono ?_)
  rintro cell (touched | ⟨field, area, _, inRing, covered⟩)
  · exact inside cell touched
  · exact sound.used inRing cell covered

section Logs

variable {requests : List Request} (sound : ∀ request ∈ requests, Sound base region request.queue)
  (clear : ∀ request ∈ requests, Clear base region filled request) (inside : ∀ cell, filled cell → region cell)

include sound clear inside

theorem serveAll_within {dma : Dma δ} (confined : Bus.Confined region base dma.bus) :
    Bus.Confined region base (serveAll requests dma).2.bus := by
  induction requests generalizing dma with
  | nil => exact confined
  | cons request rest ih =>
    have here : request ∈ request :: rest := List.mem_cons_self
    have serves := serve_serves (sound request here) (clear request here) inside confined
    exact ih (fun other member => sound other (List.mem_cons_of_mem _ member))
      (fun other member => clear other (List.mem_cons_of_mem _ member)) (serves.within (sound request here) inside confined)

theorem serveAll_shows {dma : Dma δ} (confined : Bus.Confined region base dma.bus) {address value : UInt64} {size : Nat}
    (shows : dma.bus.Shows address size value)
    (unfilled : ∀ cell, base.Covers ⟨address, byteCount size⟩ cell → ¬ filled cell)
    (apart : ∀ request ∈ requests, ∀ field ∈ request.queue.reported, ∀ area, UsedArea request.queue field area →
      base.Apart ⟨address, byteCount size⟩ area) : (serveAll requests dma).2.bus.Shows address size value := by
  induction requests generalizing dma with
  | nil => exact shows
  | cons request rest ih =>
    have here : request ∈ request :: rest := List.mem_cons_self
    have serves := serve_serves (sound request here) (clear request here) inside confined
    refine ih (fun other member => sound other (List.mem_cons_of_mem _ member))
      (fun other member => clear other (List.mem_cons_of_mem _ member)) (serves.within (sound request here) inside confined)
      (shows.confined serves.confined ?_) (fun other member => apart other (List.mem_cons_of_mem _ member))
    rintro cell covered (touched | ⟨field, area, among, inRing, written⟩)
    · exact unfilled cell (confined.covers covered) touched
    · exact apart request here field among area inRing cell (confined.covers covered) written

end Logs

end Turns

end RvBoard.Virtio
