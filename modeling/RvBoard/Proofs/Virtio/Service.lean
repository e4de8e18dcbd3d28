import RvBoard.Proofs.Steady
import RvBoard.Virtio.Process

/-!
# What serving requests keeps

A device reaches memory through the bus only, so what every access to the bus keeps is kept by the
walk along a chain, by every request and by the whole step of a device.
-/

set_option autoImplicit false

namespace RvBoard.Virtio

variable {Holds : Bus → Prop}

theorem onBus_keeps {α : Type} {operation : BusM α} (address : UInt64) (kept : Keeps Holds operation) :
    Keeps Holds (onBus address operation) := by
  intro bus start
  have after := kept bus start
  unfold onBus
  generalize operation bus = outcome at after
  cases outcome with
  | ok value next => exact after
  | error fault next => exact after

theorem onRing_keeps {α : Type} {operation : EStateM QueueError Bus α} (kept : Keeps Holds operation) :
    Keeps (fun ring => Holds ring.bus) (onRing operation) := by
  rintro ⟨queue, bus⟩ start
  have after := kept bus start
  unfold onRing
  dsimp only
  generalize operation bus = outcome at after
  cases outcome with
  | ok value next => exact after
  | error error next => exact after

theorem liftExcept_keeps {σ α : Type} {Holds : σ → Prop} (value : Except QueueError α) :
    Keeps Holds (liftExcept value) := by
  cases value with
  | ok value => exact keeps_pure value
  | error error => exact keeps_throw error

theorem dmaBus_keeps {δ α : Type} {operation : BusM α} (kept : Keeps Holds operation) :
    Keeps (fun dma : Dma δ => Holds dma.bus) (DmaM.onBus operation) := by
  rintro ⟨backend, bus⟩ start
  have after := kept bus start
  unfold DmaM.onBus
  dsimp only
  generalize operation bus = outcome at after
  cases outcome with
  | ok value next => exact after
  | error fault next => exact after

theorem backend_keeps {δ α : Type} (operation : δ → α × δ) :
    Keeps (fun dma : Dma δ => Holds dma.bus) (DmaM.onBackend operation) :=
  fun _ start => start

theorem pushUsed_keeps (steady : Bus.Steady Holds) (head : UInt16) (length : UInt32) :
    Keeps (fun ring => Holds ring.bus) (pushUsed head length) := by
  refine keeps_bind keeps_get (fun ring => ?_)
  refine keeps_bind (liftExcept_keeps _) (fun element => ?_)
  refine keeps_bind (liftExcept_keeps _) (fun lengthAddress => ?_)
  refine keeps_bind (onRing_keeps (onBus_keeps element ?_)) (fun _ => ?_)
  · exact keeps_bind (steady.store element 2 _) (fun _ => steady.store lengthAddress 2 _)
  refine keeps_bind (keeps_modify (fun _ start => start)) (fun _ => ?_)
  refine keeps_bind (liftExcept_keeps _) (fun address => ?_)
  exact onRing_keeps (onBus_keeps address (steady.store address 1 _))

-- What holds of a bus holds after every write to one of the buffers.
def Spares (Holds : Bus → Prop) (buffers : List Descriptor) : Prop :=
  ∀ descriptor ∈ buffers, ∀ (address : UInt64) (bytes : ByteArray), descriptor.address ≤ address →
    address.toNat + bytes.size ≤ descriptor.address.toNat + descriptor.length.toNat → Keeps Holds (Bus.writeBytes address bytes)

theorem steady_spares (steady : Bus.Steady Holds) (buffers : List Descriptor) : Spares Holds buffers :=
  fun _ _ address bytes _ _ => steady.writeBytes address bytes

theorem scatter_keeps {buffers : List Descriptor} (spares : Spares Holds buffers) (bytes : ByteArray) (start skip : Nat) :
    Keeps Holds (scatter bytes start skip buffers) := by
  induction buffers generalizing start skip with
  | nil => exact keeps_pure 0
  | cons descriptor rest ih =>
    have others := ih (fun other member => spares other (List.mem_cons_of_mem descriptor member))
    unfold scatter
    by_cases written : bytes.size ≤ start
    · rw [if_pos written]
      exact keeps_pure 0
    rw [if_neg written]
    by_cases behind : descriptor.length.toNat ≤ skip
    · dsimp only
      rw [if_pos behind]
      exact others _ _
    dsimp only
    rw [if_neg behind]
    cases place : checkedAdd descriptor.address (UInt64.ofNat skip) with
    | none => exact keeps_throw _
    | some address =>
      have small : skip < UInt64.size := by
        have word := descriptor.length.toNat_lt
        have large : 2 ^ 32 < UInt64.size := by decide
        omega
      have spot := checkedAdd_eq_some place
      rw [UInt64.toNat_ofNat_of_lt' small] at spot
      refine keeps_bind (spares descriptor List.mem_cons_self address _ ?_ ?_) (fun _ => ?_)
      · exact UInt64.le_iff_toNat_le.mpr (by omega)
      · rw [ByteArray.size_extract]
        omega
      · exact keeps_bind (others _ _) (fun _ => keeps_pure _)

theorem writeAt_keeps {chain : Chain} (spares : Spares Holds chain.writable) (offset : Nat) (bytes : ByteArray) :
    Keeps Holds (chain.writeAt offset bytes) :=
  keeps_bind (scatter_keeps spares bytes _ _) (fun _ => keeps_pure _)

section Requests

variable (legible : Bus.Legible Holds)

include legible

theorem load16_keeps (address : UInt64) : Keeps (fun ring => Holds ring.bus) (load16 address) :=
  onRing_keeps (keeps_bind (onBus_keeps address (legible.load address 1)) (fun _ => keeps_pure _))

theorem popAvail_keeps : Keeps (fun ring => Holds ring.bus) popAvail := by
  refine keeps_bind keeps_get (fun ring => keeps_ite (keeps_throw _) ?_)
  refine keeps_bind (liftExcept_keeps _) (fun indexAddress => ?_)
  refine keeps_bind (load16_keeps legible indexAddress) (fun available => keeps_ite (keeps_pure none) ?_)
  refine keeps_bind (liftExcept_keeps _) (fun headAddress => ?_)
  refine keeps_bind (load16_keeps legible headAddress) (fun head => ?_)
  exact keeps_bind (keeps_modify (fun _ start => start)) (fun _ => keeps_pure _)

theorem suppressed_keeps (queue : VirtQueue) : Keeps Holds (suppressed queue) :=
  keeps_tryCatch (keeps_bind (legible.load queue.avail 1) (fun _ => keeps_pure _)) (fun _ => keeps_pure _)

theorem readDescriptor_keeps (table : UInt64) (index : UInt16) : Keeps Holds (readDescriptor table index) := by
  refine keeps_bind (liftExcept_keeps _) (fun address => ?_)
  exact keeps_bind (onBus_keeps address (legible.readBytes address _)) (fun _ => keeps_pure _)

theorem followTable_keeps {indirect : Descriptor → EStateM QueueError Bus (List Descriptor)}
    (indirectly : ∀ descriptor, Keeps Holds (indirect descriptor)) (table : UInt64) (size : UInt32) (left : Nat)
    (index : UInt16) : Keeps Holds (followTable indirect table size left index) := by
  induction left generalizing index with
  | zero => exact keeps_ite (keeps_throw _) (keeps_throw _)
  | succ left ih =>
    refine keeps_ite (keeps_throw _) (keeps_bind (readDescriptor_keeps legible table index) (fun descriptor => ?_))
    refine keeps_ite (indirectly descriptor) (keeps_ite ?_ (keeps_pure _))
    exact keeps_bind (ih descriptor.next) (fun _ => keeps_pure _)

theorem followIndirect_keeps (descriptor : Descriptor) : Keeps Holds (followIndirect descriptor) :=
  keeps_ite (keeps_throw _) (followTable_keeps legible (fun _ => keeps_throw _) _ _ _ _)

theorem readChain_keeps (queue : VirtQueue) (head : UInt16) : Keeps Holds (readChain queue head) :=
  keeps_bind (followTable_keeps legible (followIndirect_keeps legible) _ _ _ _) (fun _ => keeps_pure _)

theorem gather_keeps (buffers : List Descriptor) (out : ByteArray) (total : Nat) :
    Keeps Holds (gather out total buffers) := by
  induction buffers generalizing out total with
  | nil => exact keeps_pure out
  | cons descriptor rest ih =>
    refine keeps_ite (keeps_pure out) (keeps_bind (legible.readBytes _ _) (fun bytes => ?_))
    exact ih _ _

theorem readPrefix_keeps (chain : Chain) (limit : Nat) : Keeps Holds (chain.readPrefix limit) :=
  gather_keeps legible _ _ _

namespace Block

omit legible in
theorem answer_keeps {chain : Chain} (spares : Spares Holds chain.writable) (bytes : ByteArray) :
    Keeps (fun dma : Dma Block => Holds dma.bus) (answer chain bytes) :=
  keeps_bind (dmaBus_keeps (writeAt_keeps spares 0 bytes)) (fun _ => keeps_pure _)

theorem perform_keeps {chain : Chain} (spares : Spares Holds chain.writable) (sector : UInt64) (n : Nat)
    (type : Option RequestType) : Keeps (fun dma : Dma Block => Holds dma.bus) (perform chain sector n type) := by
  have backend : Keeps (fun dma : Dma Block => Holds dma.bus) backend := keeps_bind keeps_get (fun _ => keeps_pure _)
  cases type with
  | none => exact keeps_pure _
  | some type =>
    cases type with
    | input =>
      refine keeps_bind backend (fun block => ?_)
      cases block.readSectors sector n with
      | none => exact keeps_pure _
      | some bytes => exact answer_keeps spares bytes
    | output =>
      refine keeps_bind backend (fun block => keeps_ite ?_ (keeps_pure _))
      refine keeps_bind (dmaBus_keeps (readPrefix_keeps legible chain _)) (fun request => ?_)
      exact keeps_bind (backend_keeps _) (fun _ => keeps_pure _)
    | flush =>
      refine keeps_bind backend (fun block => ?_)
      cases block.store.flush <;> exact keeps_pure _
    | getId => exact answer_keeps spares _

theorem process_keeps {chain : Chain} (spares : Spares Holds chain.writable) :
    Keeps (fun dma : Dma Block => Holds dma.bus) (process chain) := by
  refine keeps_ite (keeps_pure 0) (keeps_ite (dmaBus_keeps (writeAt_keeps spares _ _)) ?_)
  refine keeps_bind (dmaBus_keeps (readPrefix_keeps legible chain _)) (fun header => ?_)
  refine keeps_bind (perform_keeps legible spares _ _ _) (fun done => ?_)
  exact keeps_bind (dmaBus_keeps (writeAt_keeps spares _ _)) (fun _ => keeps_pure _)

end Block

theorem Share.process_keeps {chain : Chain} (spares : Spares Holds chain.writable) :
    Keeps (fun dma : Dma Share => Holds dma.bus) (Share.process chain) := by
  refine keeps_bind keeps_get (fun dma => keeps_ite (keeps_pure 0) ?_)
  refine keeps_bind (dmaBus_keeps (readPrefix_keeps legible chain _)) (fun request => ?_)
  exact keeps_bind (backend_keeps _) (fun reply => dmaBus_keeps (writeAt_keeps spares 0 _))

theorem Echo.process_keeps {chain : Chain} (spares : Spares Holds chain.writable) :
    Keeps (fun dma : Dma Echo => Holds dma.bus) (Echo.process chain) :=
  dmaBus_keeps (keeps_bind (readPrefix_keeps legible chain _) (fun _ => writeAt_keeps spares 0 _))

end Requests

-- A device that writes no memory but the writable buffers of its request.
class Confining (δ : Type) [Processor δ] : Prop where
  process_keeps {Holds : Bus → Prop} (legible : Bus.Legible Holds) (index : Nat) (chain : Chain)
    (spares : Spares Holds chain.writable) : Keeps (fun dma : Dma δ => Holds dma.bus) (Processor.process index chain)

instance : Confining Block :=
  ⟨fun legible _ _ spares => Block.process_keeps legible spares⟩

instance : Confining Share :=
  ⟨fun legible _ _ spares => Share.process_keeps legible spares⟩

instance : Confining Echo :=
  ⟨fun legible _ _ spares => Echo.process_keeps legible spares⟩

namespace Service

variable {δ : Type}

-- The turns of some queues.
def turns [Processor δ] (queues : List Nat) (service : Service δ) : Option (Service δ) :=
  queues.foldlM (fun service index => service.rounds index) service

theorem turns_cons [Processor δ] (index : Nat) (rest : List Nat) (service : Service δ) :
    turns (index :: rest) service = rounds index service >>= turns rest :=
  List.foldlM_cons

theorem onRing_keeps {α : Type} {operation : RingM α} (kept : Keeps (fun ring => Holds ring.bus) operation)
    (service : Service δ) (index : Nat) (queue : VirtQueue) (start : Holds service.bus) :
    Holds (service.onRing index queue operation).2.bus := by
  have after := kept ⟨queue, service.bus⟩ start
  obtain ⟨transport, bus, raise⟩ := service
  unfold onRing
  dsimp only at after ⊢
  generalize operation ⟨queue, bus⟩ = outcome at after
  cases outcome with
  | ok value ring => exact after
  | error error ring => exact after

theorem finish_keeps (steady : Bus.Steady Holds) (service : Service δ) (index : Nat) (queue : VirtQueue)
    (head : UInt16) (length : UInt32) (start : Holds service.bus) : Holds (service.finish index queue head length).2.bus := by
  have pushed := onRing_keeps (pushUsed_keeps steady head length) service index queue start
  unfold finish
  generalize service.onRing index queue (pushUsed head length) = outcome at pushed
  obtain ⟨result, transport, bus, raise⟩ := outcome
  cases result with
  | error error => exact pushed
  | ok done =>
    have told := suppressed_keeps steady.legible queue bus pushed
    dsimp only
    generalize suppressed queue bus = outcome at told
    cases outcome with
    | ok quiet bus => exact told
    | error fault bus => exact told

variable [Processor δ] [Confining δ] (steady : Bus.Steady Holds)

include steady

theorem handle_keeps (service : Service δ) (index : Nat) (queue : VirtQueue) (head : UInt16) (start : Holds service.bus) :
    Holds (service.handle index queue head).2.bus := by
  have read := readChain_keeps steady.legible queue head service.bus start
  obtain ⟨transport, bus, raise⟩ := service
  unfold handle
  dsimp only at read ⊢
  generalize readChain queue head bus = outcome at read
  cases outcome with
  | error error bus => exact read
  | ok chain bus =>
    have served := Confining.process_keeps steady.legible index chain (steady_spares steady _) ⟨transport.backend, bus⟩ read
    dsimp only
    generalize Processor.process index chain (⟨transport.backend, bus⟩ : Dma δ) = outcome at served
    cases outcome with
    | ok length dma => exact served
    | error fault dma => exact served

theorem round_keeps (service : Service δ) (index : Nat) (start : Holds service.bus) :
    Holds (service.round index).2.bus := by
  unfold round
  cases service.transport.slots[index]? with
  | none => exact start
  | some slot =>
    have popped := onRing_keeps (popAvail_keeps steady.legible) service index slot.queue start
    dsimp only
    generalize service.onRing index slot.queue popAvail = outcome at popped
    obtain ⟨result, service⟩ := outcome
    cases result with
    | error error => exact popped
    | ok head =>
      cases head with
      | none => exact popped
      | some head =>
        have handled := handle_keeps steady service index { slot.queue with lastAvail := slot.queue.lastAvail + 1 }
          head popped
        exact finish_keeps steady _ index _ head _ handled

theorem rounds_keeps (index : Nat) (service final : Service δ) (done : rounds index service = some final)
    (start : Holds service.bus) : Holds final.bus := by
  refine rounds.partial_correctness index (fun service final => Holds service.bus → Holds final.bus) ?_ service final done start
  intro rounds ih service final done start
  have after := round_keeps steady service index start
  generalize service.round index = outcome at done after
  obtain ⟨more, next⟩ := outcome
  cases more with
  | true => exact ih next final done after
  | false =>
    cases done
    exact after

theorem turns_keeps (queues : List Nat) (service final : Service δ) (done : turns queues service = some final)
    (start : Holds service.bus) : Holds final.bus := by
  induction queues generalizing service with
  | nil =>
    cases done
    exact start
  | cons index rest ih =>
    rw [turns_cons] at done
    obtain ⟨middle, first, last⟩ := Option.bind_eq_some_iff.mp done
    exact ih middle last (rounds_keeps steady index service middle first start)

theorem step_keeps {transport next : Transport δ} {bus after : Bus} (done : step transport bus = some (next, after))
    (start : Holds bus) : Holds after := by
  unfold step at done
  obtain ⟨service, all, same⟩ := Option.bind_eq_some_iff.mp done
  have kept := turns_keeps steady _ _ service all start
  obtain ⟨transport, bus, raise⟩ := service
  unfold interrupting at same
  cases raise <;> cases same <;> exact kept

end Service

end RvBoard.Virtio
