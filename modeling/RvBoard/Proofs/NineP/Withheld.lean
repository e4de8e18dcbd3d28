import RvBoard.Proofs.NineP.Effects
import RvBoard.Proofs.NineP.MessageSizes
import RvBoard.Proofs.Share.Directories
import RvBoard.Proofs.Virtio.Buffers

/-!
# Answers that do not fit

How long an answer is shows when the request has been carried out. If the buffers of the guest have no room for it, the
guest gets an error in its place, and what the request has done stays done.
-/

set_option autoImplicit false

namespace RvBoard.NineP.Server

open HostShare (Looked)
open Virtio (Chain DmaM)
open Virtio.Share (replySpace fitted)

theorem left_bind {ε σ α β : Type} {first : EStateM ε σ α} {rest other : α → EStateM ε σ β} {state : σ}
    (same : ∀ value mid, left (rest value mid) = left (other value mid)) :
    left ((first >>= rest) state) = left ((first >>= other) state) := by
  cases outcome : first state with
  | ok value mid =>
    rw [bind_of_ok outcome, bind_of_ok outcome]
    exact same value mid
  | error fault mid => rw [bind_of_error outcome, bind_of_error outcome]

section Files

variable {start : HostShare}

theorem onFs_looks {α : Type} {operation : FsM HostShare α} (looks : Keeps (Looked start) operation) :
    Keeps (fun server => Looked start server.fs) (onFs operation) := by
  intro server looked
  rw [onFs_left]
  exact looks server.fs looked

theorem fill_keeps {Holds : HostShare → Prop} (path : Path) (offset : UInt64) (n : Nat) :
    Keeps Holds (FileSystem.read path offset n) := by
  change Keeps Holds (Filled.ofBytes n <$> HostShare.read path offset n)
  rw [map_eq_pure_bind]
  exact keeps_bind (HostShare.read_keeps path offset n) fun _ => keeps_pure _

theorem files_looks : Looks fun server : Server HostShare => Looked start server.fs where
  getattr path := onFs_looks (HostShare.getattr_looks path)
  readDir path := onFs_looks (HostShare.readDir_looks path)
  read path offset n := onFs_looks (fill_keeps path offset n)
  statfs := onFs_looks HostShare.statfs_keeps
  fsync path := onFs_looks (HostShare.fsync_keeps path)

theorem read_same (path : Path) (offset : UInt64) (n : Nat) (server : Server HostShare) :
    Keeps (· = server) (onFs (FileSystem.read path offset n)) := by
  intro state start
  subst state
  have kept : Keeps (· = server.fs) (FileSystem.read path offset n) := fill_keeps path offset n
  have same : left (FileSystem.read path offset n server.fs) = server.fs := kept server.fs rfl
  rw [onFs_left, same]

theorem perform_left (space room : UInt32) (request : Request) (server : Server HostShare) :
    left (perform space request server) = left (perform room request server) := by
  cases request with
  | read fid offset count =>
    refine left_bind fun current _ => left_bind fun path mid => ?_
    have reads (n : Nat) : Keeps (· = mid) (onFs (FileSystem.read path offset n) >>= fun filled =>
        filledBytes filled >>= fun bytes =>
          (pure [.u32 (UInt32.ofNat filled.count), .bytes bytes.toList] : M HostShare (List Field))) :=
      keeps_bind (read_same path offset n mid) fun filled => keeps_bind (filledBytes_keeps filled) fun _ => keeps_pure _
    exact (reads _ mid rfl).trans (reads _ mid rfl).symm
  | readdir fid offset count =>
    exact left_bind fun current _ => left_bind fun path _ => left_bind fun entries _ => rfl
  | _ => rfl

end Files

section Messages

variable {message : List UInt8} {request : Request}

theorem handle_left (server : Server HostShare) (asks : Asks message request) (space : UInt32) :
    (server.handle message space).2 = left (perform space request server) := by
  unfold handle
  rcases serve_asked server asks space with ⟨_, _, run, _, _, _, _, same⟩ | ⟨_, _, run, _, same⟩ | ⟨_, run, same⟩ <;>
    rw [same, run] <;>
    rfl

theorem handle_unasked (server : Server HostShare) (unasked : ∀ request, ¬ Asks message request) (space : UInt32) :
    (server.handle message space).2 = server := by
  have served := serve_serves server message space
  unfold handle
  generalize server.serve message space = outcome at served
  cases served with
  | unread | unknown => rfl
  | done read parsed | failed read parsed | panicked read parsed => exact absurd ⟨_, _, _, read, parsed⟩ (unasked _)

theorem handle_roomless (server : Server HostShare) (message : List UInt8) (space room : UInt32) :
    (server.handle message space).2 = (server.handle message room).2 := by
  by_cases asked : ∃ request, Asks message request
  · obtain ⟨request, asks⟩ := asked
    rw [handle_left server asks, handle_left server asks, perform_left space room]
  · have unasked : ∀ request, ¬ Asks message request := fun request asks => asked ⟨request, asks⟩
    rw [handle_unasked server unasked, handle_unasked server unasked]

theorem bears_session (start : Server HostShare) (quiet : ¬ request.Binds) : Bears request (SameSession start) where
  looks := (sameSession_indifferent start).looks
  session binds := absurd binds quiet
  files _ := sameSession_indifferent start

theorem bears_files (start : HostShare) (quiet : ¬ request.Alters) :
    Bears request fun server : Server HostShare => Looked start server.fs where
  looks := files_looks
  session _ _ _ _ looked := looked
  files alters := absurd alters quiet

end Messages

theorem process_withholds {server : Server HostShare} {chain : Chain} {bus mid : Bus} {bytes : ByteArray}
    (agreed : chain.readableLength ≤ server.msize.toNat)
    (read : chain.readPrefix chain.readableLength bus = .ok bytes mid)
    (long : (replySpace chain).toNat < (server.handle bytes.toList (replySpace chain)).1.size) :
    Virtio.Share.process chain ⟨server, bus⟩ =
      DmaM.onBus (chain.writeAt 0
        (Bytes.ofList (errorReply (server.handle bytes.toList (replySpace chain)).1.tag .io).bytes))
        ⟨(server.handle bytes.toList (replySpace chain)).2, mid⟩ := by
  have gathered : DmaM.onBus (chain.readPrefix chain.readableLength) ⟨server, bus⟩ = .ok bytes ⟨server, mid⟩ := by
    simp only [DmaM.onBus, read]
  have answered : DmaM.onBackend (fun server => server.handle bytes.toList (replySpace chain)) ⟨server, mid⟩ =
      .ok (server.handle bytes.toList (replySpace chain)).1
        ⟨(server.handle bytes.toList (replySpace chain)).2, mid⟩ := rfl
  have replaced : fitted (server.handle bytes.toList (replySpace chain)).1 (replySpace chain) =
      errorReply (server.handle bytes.toList (replySpace chain)).1.tag .io := if_neg (Nat.not_le.mpr long)
  unfold Virtio.Share.process
  refine (bind_of_ok (get_run _)).trans ?_
  rw [if_neg (Nat.not_lt.mpr agreed)]
  refine (bind_of_ok gathered).trans ((bind_of_ok answered).trans ?_)
  rw [replaced]

/-- An answer that is longer than the guest's buffers is replaced by an error of the same tag, when the request has been
carried out. The fids, the message size and the files are what the same request leaves with any other room for its
answer. The session is as before if the request has failed or is none that changes it. The files are as before if it is
none that changes them, but that they may have been given numbers. -/
theorem unfitting_answer_withheld (server : Server HostShare) {chain : Chain} {bus mid : Bus} {bytes : ByteArray}
    (agreed : chain.readableLength ≤ server.msize.toNat)
    (read : chain.readPrefix chain.readableLength bus = .ok bytes mid)
    (long : (replySpace chain).toNat <
      (server.handle bytes.toList (replySpace chain)).1.size) :
    let message := bytes.toList
    let answer := (server.handle message (replySpace chain)).1
    let next := (server.handle message (replySpace chain)).2
    Virtio.Share.process chain ⟨server, bus⟩ =
        DmaM.onBus (chain.writeAt 0 (Bytes.ofList (errorReply answer.tag .io).bytes)) ⟨next, mid⟩ ∧
      (∀ room, (server.handle message room).2 = next) ∧
      (answer.type = errorType → SameSession server next) ∧
      ((∀ request, ¬ Asks message request) → next = server) ∧
      ∀ request, Asks message request →
        (¬ request.Binds → SameSession server next) ∧ (¬ request.Alters → Looked server.fs next.fs) := by
  intro message answer next
  have before := sameSession_refl server
  refine ⟨process_withholds agreed read long, fun room => handle_roomless server message room _,
    error_session server message _, fun unasked => handle_unasked server unasked _, fun request asks => ?_⟩
  have same : next = left (perform (replySpace chain) request server) := handle_left server asks _
  rw [same]
  exact ⟨fun quiet => perform_keeps (bears_session server quiet) _ server before,
    fun quiet => perform_keeps (bears_files server.fs quiet) _ server (HostShare.looked_refl server.fs)⟩

def narrow (message : List UInt8) : Chain :=
  ⟨0, [⟨0x100c, UInt32.ofNat message.length, 1, 1⟩, ⟨0x1000, 12, 2, 0⟩]⟩

def narrowBus (message : List UInt8) : Bus :=
  Bus.ofMemory 0x1000 ⟨Bytes.ofList (List.replicate 12 0 ++ message)⟩

theorem unfitting_answer_withheld_attributes :
    let next := (sharing.handle inspecting 12).2
    Virtio.Share.process (narrow inspecting) ⟨sharing, narrowBus inspecting⟩ =
        DmaM.onBus ((narrow inspecting).writeAt 0 (Bytes.ofList (errorReply 2 .io).bytes))
          ⟨next, narrowBus inspecting⟩ ∧
      (sharing.handle inspecting 8192).2 = next ∧ SameSession sharing next ∧ Looked sharing.fs next.fs := by
  have message : (Bytes.ofList inspecting).toList = inspecting := by cbv
  have space : replySpace (narrow inspecting) = 12 := by cbv
  have tag : (sharing.handle inspecting 12).1.tag = 2 := by cbv
  have agreed : (narrow inspecting).readableLength ≤ sharing.msize.toNat := by cbv
  have read : (narrow inspecting).readPrefix (narrow inspecting).readableLength (narrowBus inspecting) =
      .ok (Bytes.ofList inspecting) (narrowBus inspecting) := by cbv
  have asks : Asks inspecting (.getattr 0) := ⟨24, 2, inspecting.drop 7, by cbv, by cbv⟩
  have withheld := unfitting_answer_withheld sharing agreed read
  rw [message, space] at withheld
  obtain ⟨replaced, roomless, _, _, quiet⟩ := withheld (by cbv)
  obtain ⟨session, files⟩ := quiet (.getattr 0) asks
  rw [tag] at replaced
  exact ⟨replaced, roomless 8192, session id, files id⟩

theorem withheld_attachment :
    let server := withTag "share" lettered
    let outcome := Virtio.Share.process (narrow attaching) ⟨server, narrowBus attaching⟩
    replySpace (narrow attaching) = 12 ∧ (server.handle attaching 12).1.size = 20 ∧ value? outcome = some 11 ∧
      Virtio.bytesIn (left outcome).bus (narrow attaching).writable = (errorReply 1 .io).bytes ++ [0] ∧
      server.fids = [] ∧ (left outcome).backend.fids = [(0, ⟨[], false⟩)] := by
  refine ⟨?_, ?_, ?_, ?_, ?_, ?_⟩ <;> cbv

end RvBoard.NineP.Server
