import RvBoard.Proofs.NineP.Failures
import RvBoard.Virtio.Process

/-!
# Message sizes

A session starts with a message size that client and server agree on. What the server sends until the next
session keeps to it, but for three answers that take what they take: those to a walk and to requests for the
attributes of a file or of the file system.
-/

set_option autoImplicit false

namespace RvBoard.NineP

open Virtio.Share (fitted)

def KeepsTo (size : UInt32) (message : List UInt8) (answer : Message) : Prop :=
  answer.bytes.length ≤ size.toNat ∨ ∃ request, Server.Asks message request ∧ answer.bytes.length ≤ request.ownSize

-- It is answered within a session, without starting another one.
def Event.GoesOn {φ : Type} : Server.Event φ → Prop
  | .message bytes _ => ∀ request, Server.Asks bytes request → ¬ request.Opens
  | .reset => False
  | .changed _ => True

namespace Server

variable {φ : Type} {size : UInt32} {message : List UInt8}

theorem errorReply_keeps (large : 25 ≤ size) (tag : UInt16) (errno : Errno) :
    KeepsTo size message (errorReply tag errno) := by
  have room : 25 ≤ size.toNat := UInt32.le_iff_toNat_le.mp large
  have length : (errorReply tag errno).bytes.length = 11 := rfl
  exact .inl (by omega)

-- Where a reply does not fit the room for it, what is sent instead keeps to the message size as well.
theorem keepsTo_fitted (large : 25 ≤ size) {answer : Message} (keeps : KeepsTo size message answer) (room : UInt32) :
    KeepsTo size message (fitted answer room) := by
  unfold Virtio.Share.fitted
  split
  · exact keeps
  · exact errorReply_keeps large _ _

theorem keepsTo_large {answer : Message} (keeps : KeepsTo size message answer) (large : 217 ≤ size) :
    answer.bytes.length ≤ size.toNat := by
  have room : 217 ≤ size.toNat := UInt32.le_iff_toNat_le.mp large
  rcases keeps with within | ⟨request, ⟨type, tag, fields, _, parsed⟩, own⟩
  · exact within
  · exact Nat.le_trans own (Nat.le_trans (Request.ownSize_le (Request.parse_valid parsed)) room)

theorem keepsTo_of_fits {request : Request} (asks : Asks message request) {answer : Message}
    (fits : request.Fits size answer.fields) : KeepsTo size message answer := by
  unfold Request.Fits at fits
  rw [← answer.length_bytes] at fits
  exact (le_max_iff.mp fits).imp id fun own => ⟨request, asks, own⟩

theorem agreed_le {proposed : UInt32} (enough : 25 ≤ proposed) : max 25 (min proposed maxMsize) ≤ proposed := by
  have least : min proposed maxMsize ≤ proposed := by
    change (if proposed ≤ maxMsize then proposed else maxMsize) ≤ proposed
    split
    · exact UInt32.le_refl _
    · exact UInt32.le_of_lt (UInt32.not_le.mp ‹_›)
  change (if 25 ≤ min proposed maxMsize then min proposed maxMsize else 25) ≤ proposed
  split
  · exact least
  · exact enough

variable [FileSystem φ]

theorem handle_keeps (large : 25 ≤ size) {server : Server φ} (agreed : server.Agreed size) (space : UInt32) :
    KeepsTo size message (server.handle message space).1 ∧
      ((∀ request, Asks message request → ¬ request.Opens) → (server.handle message space).2.Agreed size) := by
  have served := serve_serves server message space
  unfold handle
  generalize server.serve message space = outcome at served
  -- A request that opens a session does not fail, and any other one keeps the message size.
  have kept {type : UInt8} {tag : UInt16} {fields : List UInt8} {request : Request}
      (read : header message = .ok (type, tag) fields) (parsed : Request.parse type fields = .ok request)
      (goesOn : ∀ request, Asks message request → ¬ request.Opens) : (left (perform space request server)).Agreed size :=
    (perform_fits large space (goesOn request ⟨type, tag, fields, read, parsed⟩) server agreed).1
  cases served with
  | unread | unknown => exact ⟨errorReply_keeps large _ _, fun _ => agreed⟩
  | @done type tag fields request answer next read parsed run =>
    refine ⟨keepsTo_of_fits ⟨type, tag, fields, read, parsed⟩ ?_, fun goesOn => ?_⟩
    · by_cases opens : request.Opens
      · obtain ⟨msize, text, rfl⟩ := opens
        obtain ⟨fields, next, done, few, _⟩ := version_agrees msize text server
        have same : perform space (.version msize text) server = .ok fields next := done
        rw [run] at same
        cases same
        exact fits_few large (Nat.le_trans few (by decide))
      · have gives := (perform_fits large space opens server agreed).2
        rw [run] at gives
        exact gives answer rfl
    · have kept := kept read parsed goesOn
      rwa [run] at kept
  | failed read parsed run | panicked read parsed run =>
    refine ⟨errorReply_keeps large _ _, fun goesOn => ?_⟩
    have kept := kept read parsed goesOn
    rwa [run] at kept

theorem run_agreed (large : 25 ≤ size) (events : List (Event φ)) {server : Server φ}
    (agreed : server.Agreed size) (goesOn : ∀ event ∈ events, Event.GoesOn event) :
    (events.foldl after server).Agreed size := by
  induction events generalizing server with
  | nil => exact agreed
  | cons event events ih =>
    have first := goesOn event List.mem_cons_self
    refine ih ?_ fun other member => goesOn other (List.mem_cons_of_mem _ member)
    cases event with
    | message bytes space => exact (handle_keeps large agreed space).2 first
    | reset => exact first.elim
    | changed change => exact agreed

/-- A client that asks for a session is told a message size, which is the one that it proposes where this is between 25
and 8192, and else the nearer of the two. Whatever happens until the next session: the answer to any message is no longer
than that, unless the message asks for a walk, the attributes of a file or the state of the file system. The answers to
these take at most 9 bytes and 13 for each name, 160 bytes and 67 bytes, so that they are no longer than the message size
either where it is at least 217. The same holds of what is sent in place of an answer that has too little room. -/
theorem agreed_size_kept (server : Server φ) {opening : List UInt8} {proposed : UInt32} {text : String}
    (asks : Asks opening (.version proposed text)) (space : UInt32) :
    ∃ agreed : UInt32, (server.handle opening space).1.fields.head? = some (.u32 agreed) ∧
      agreed = max 25 (min proposed 8192) ∧ (25 ≤ proposed → agreed ≤ proposed) ∧
      ∀ (events : List (Event φ)) (message : List UInt8) (room : UInt32), (∀ event ∈ events, Event.GoesOn event) →
        let answer := ((events.foldl after (server.handle opening space).2).handle message room).1
        KeepsTo agreed message answer ∧ KeepsTo agreed message (fitted answer room) ∧
          (217 ≤ agreed → answer.bytes.length ≤ agreed.toNat) := by
  obtain ⟨fields, next, done, _, named, agreed⟩ := version_agrees proposed text server
  have run : perform space (.version proposed text) server = .ok fields next := done
  have large : 25 ≤ next.msize := by
    rw [agreed]
    exact (agreed_bounds proposed).1
  obtain ⟨answer, after', performed, shown, left⟩ | ⟨errno, after', failed, _⟩ := handle_asked server asks space
  · rw [run] at performed
    cases performed
    refine ⟨next.msize, ?_, agreed, fun enough => ?_, fun events message room goesOn => ?_⟩
    · rw [shown, named]
    · rw [agreed]
      exact agreed_le enough
    · have start : Agreed next.msize (server.handle opening space).2 := congrArg Server.msize left
      have kept := run_agreed large events start goesOn
      have keeps : KeepsTo next.msize message _ := (handle_keeps large kept room).1
      exact ⟨keeps, keepsTo_fitted large keeps room, keepsTo_large keeps⟩
  · rw [run] at failed
    cases failed

def proposing (msize : UInt8) : List UInt8 :=
  [21, 0, 0, 0, 100, 0xff, 0xff, msize, 0, 0, 0, 8, 0, 0x39, 0x50, 0x32, 0x30, 0x30, 0x30, 0x2e, 0x4c]

def attaching : List UInt8 :=
  [23, 0, 0, 0, 104, 1, 0, 0, 0, 0, 0, 0xff, 0xff, 0xff, 0xff, 0, 0, 0, 0, 0, 0, 0, 0]

def inspecting : List UInt8 :=
  [19, 0, 0, 0, 24, 2, 0, 0, 0, 0, 0, 0xff, 7, 0, 0, 0, 0, 0, 0]

theorem attaching_goesOn (space : UInt32) : Event.GoesOn (.message attaching space : Event HostShare) := by
  intro request asks
  have attaches : Asks attaching (.attach 0) := ⟨104, 1, attaching.drop 7, by cbv, by cbv⟩
  rw [← asks_unique attaches asks]
  rintro ⟨_, _, same⟩
  cases same

theorem agreed_size_kept_small :
    Asks (proposing 64) (.version 64 "9P2000.L") ∧
      Event.GoesOn (.message attaching 8192 : Event HostShare) ∧
      KeepsTo 64 inspecting
        ((([.message attaching 8192].foldl after ((withTag "share" lettered).handle (proposing 64) 8192).2)).handle
          inspecting 8192).1 := by
  have asks : Asks (proposing 64) (.version 64 "9P2000.L") := ⟨100, 0xffff, (proposing 64).drop 7, by cbv, by cbv⟩
  obtain ⟨agreed, _, same, _, keeps⟩ := agreed_size_kept (withTag "share" lettered) asks 8192
  have size : agreed = 64 := same
  subst size
  refine ⟨asks, attaching_goesOn 8192, (keeps [.message attaching 8192] inspecting 8192 ?_).1⟩
  intro event member
  rw [List.mem_singleton.mp member]
  exact attaching_goesOn 8192

theorem agreed_size_exceeded :
    Asks (proposing 24) (.version 24 "9P2000.L") ∧
      ((withTag "share" lettered).handle (proposing 24) 8192).1.fields.head? = some (.u32 25) ∧
      Asks (proposing 64) (.version 64 "9P2000.L") ∧
      ((withTag "share" lettered).handle (proposing 64) 8192).1.fields.head? = some (.u32 64) ∧
      ((([.message attaching 8192].foldl after ((withTag "share" lettered).handle (proposing 64) 8192).2)).handle
        inspecting 8192).1.bytes.length = 160 := by
  have small : Asks (proposing 24) (.version 24 "9P2000.L") := ⟨100, 0xffff, (proposing 24).drop 7, by cbv, by cbv⟩
  have middling : Asks (proposing 64) (.version 64 "9P2000.L") := ⟨100, 0xffff, (proposing 64).drop 7, by cbv, by cbv⟩
  exact ⟨small, by cbv, middling, by cbv, by cbv⟩

end Server

end RvBoard.NineP
