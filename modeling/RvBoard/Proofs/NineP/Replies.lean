import Mathlib
import RvBoard.Proofs.Cells
import RvBoard.Proofs.NineP.Containment
import RvBoard.Proofs.NineP.Panics
import RvBoard.Virtio.Process

/-!
# Replies

Every message is answered, whatever its bytes. The answer is as long as it says, carries the tag of the
message and is of the type that answers it, or is an error with its number and nothing else. The agreed
message size stays where the sizes of replies can be taken from it.
-/

set_option autoImplicit false

namespace RvBoard

namespace NineP

structure Answers (request answer : List UInt8) : Prop where
  whole : headerSize ≤ answer.length
  sized : (Bytes.ofLittleEndian (answer.take 4)).toNat = answer.length
  typed : answer[4]? = some errorType ∨ headerSize ≤ request.length ∧ answer[4]? = request[4]?.map (· + 1)
  tagged : (answer.drop 5).take 2 = if headerSize ≤ request.length then (request.drop 5).take 2 else [0xff, 0xff]
  failed : answer[4]? = some errorType → ∃ errno : Errno, answer.drop headerSize = Bytes.littleEndian 4 errno.toUInt64

def fieldsSize (fields : List Field) : Nat :=
  (fields.flatMap Field.encode).length

@[simp] theorem fieldsSize_nil : fieldsSize [] = 0 := rfl

@[simp] theorem fieldsSize_cons (field : Field) (fields : List Field) :
    fieldsSize (field :: fields) = field.encode.length + fieldsSize fields := by
  simp [fieldsSize]

@[simp] theorem fieldsSize_append (first second : List Field) :
    fieldsSize (first ++ second) = fieldsSize first + fieldsSize second := by
  simp [fieldsSize]

@[simp] theorem length_u8 (value : UInt8) : (Field.u8 value).encode.length = 1 := rfl

@[simp] theorem length_u16 (value : UInt16) : (Field.u16 value).encode.length = 2 := rfl

@[simp] theorem length_u32 (value : UInt32) : (Field.u32 value).encode.length = 4 := rfl

@[simp] theorem length_u64 (value : UInt64) : (Field.u64 value).encode.length = 8 := rfl

@[simp] theorem length_qid (value : Qid) : (Field.qid value).encode.length = Qid.size := rfl

@[simp] theorem length_bytes (value : List UInt8) : (Field.bytes value).encode.length = value.length := rfl

@[simp] theorem length_string (value : String) : (Field.string value).encode.length = 2 + value.utf8ByteSize := by
  simp only [Field.encode, encodeString, List.length_append, Bytes.length_littleEndian, Bytes.length_toList]
  rfl

theorem fieldsSize_qids (qids : List Qid) : fieldsSize (qids.map .qid) = Qid.size * qids.length := by
  induction qids with
  | nil => rfl
  | cons qid qids ih =>
    rw [List.map_cons, fieldsSize_cons, ih, length_qid, List.length_cons, Nat.mul_succ, Nat.add_comm]

theorem Message.length_bytes (message : Message) : message.bytes.length = headerSize + fieldsSize message.fields := by
  simp only [Message.bytes, List.length_append, List.length_cons, Bytes.length_littleEndian, headerSize]
  rfl

theorem Message.answers {message : Message} {request : List UInt8} (short : headerSize + fieldsSize message.fields < 2 ^ 32)
    (typed : message.type = errorType ∨ headerSize ≤ request.length ∧ some message.type = request[4]?.map (· + 1))
    (tagged : Bytes.littleEndian 2 message.tag.toUInt64 =
      if headerSize ≤ request.length then (request.drop 5).take 2 else [0xff, 0xff])
    (failed : message.type = errorType → ∃ errno, message.fields = [.u32 errno]) : Answers request message.bytes where
  whole := by
    rw [message.length_bytes]
    exact Nat.le_add_right ..
  sized := by
    have size : message.size = headerSize + fieldsSize message.fields := rfl
    have same : (UInt64.ofNat message.size).toNat = message.size := by
      rw [UInt64.toNat_ofNat']
      exact Nat.mod_eq_of_lt (by omega)
    change (Bytes.ofLittleEndian (Bytes.littleEndian 4 (UInt64.ofNat message.size))).toNat = _
    rw [Bytes.ofLittleEndian_littleEndian (by decide) (by omega), same, message.length_bytes]
    rfl
  typed := typed.imp (congrArg some) id
  tagged := tagged
  failed := by
    intro same
    obtain ⟨errno, only⟩ := failed (Option.some.inj same)
    refine ⟨errno, ?_⟩
    change message.fields.flatMap Field.encode = _
    rw [only]
    rfl

namespace Server

theorem header_short {request : List UInt8} (short : request.length < headerSize) :
    ∃ why rest, header request = .error why rest := by
  match request with
  | [] => exact ⟨_, _, rfl⟩
  | [_] => exact ⟨_, _, rfl⟩
  | [_, _] => exact ⟨_, _, rfl⟩
  | [_, _, _] => exact ⟨_, _, rfl⟩
  | [_, _, _, _] => exact ⟨_, _, rfl⟩
  | [_, _, _, _, _] => exact ⟨_, _, rfl⟩
  | [_, _, _, _, _, _] => exact ⟨_, _, rfl⟩
  | _ :: _ :: _ :: _ :: _ :: _ :: _ :: rest =>
    simp only [List.length_cons, headerSize] at short
    omega

theorem header_long {request : List UInt8} (long : headerSize ≤ request.length) :
    ∃ type tag, header request = .ok (type, tag) (request.drop headerSize) ∧ request[4]? = some type ∧
      Bytes.littleEndian 2 tag.toUInt64 = (request.drop 5).take 2 := by
  match request with
  | a :: b :: c :: d :: type :: low :: high :: rest =>
    have kept : (Bytes.ofLittleEndian [low, high]).toUInt16.toUInt64 = Bytes.ofLittleEndian [low, high] := by
      have small := @Bytes.ofLittleEndian_lt [low, high] (by simp)
      simp only [List.length_cons, List.length_nil] at small
      apply UInt64.toNat_inj.mp
      rw [UInt16.toNat_toUInt64, UInt64.toNat_toUInt16]
      omega
    refine ⟨type, (Bytes.ofLittleEndian [low, high]).toUInt16, ?_, rfl, ?_⟩
    · have first : (Bytes.ofLittleEndian [type]).toUInt8 = type := by
        have byte := @Bytes.littleEndian_ofLittleEndian [type] (by simp)
        exact (List.cons.inj byte).1
      change EStateM.Result.ok ((Bytes.ofLittleEndian [type]).toUInt8, _) rest = _
      rw [first]
      rfl
    · rw [kept]
      exact @Bytes.littleEndian_ofLittleEndian [low, high] (by simp)
  | [] | [_] | [_, _] | [_, _, _] | [_, _, _, _] | [_, _, _, _, _] | [_, _, _, _, _, _] =>
    simp [headerSize] at long

section Sessions

variable {φ : Type}

-- The message size is one that the server agrees to. It leaves room for data behind the header of a reply.
def Sized (server : Server φ) : Prop :=
  25 ≤ server.msize ∧ server.msize ≤ maxMsize

-- An answer that fits into a message, whatever the message size.
def Short (fields : List Field) : Prop :=
  fieldsSize fields ≤ maxMsize.toNat

def Agreed (size : UInt32) (server : Server φ) : Prop :=
  server.msize = size

theorem agreed_indifferent (size : UInt32) : Indifferent (@Agreed φ size) :=
  fun _ _ agreed => agreed

theorem ioLimit_le {server : Server φ} (large : 25 ≤ server.msize) (space : UInt32) :
    server.ioLimit space + ioHeaderSize.toNat ≤ server.msize.toNat := by
  have least : (min server.msize space).toNat ≤ server.msize.toNat := by
    change (if server.msize ≤ space then server.msize else space).toNat ≤ _
    split
    · exact Nat.le_refl _
    · rename_i less
      exact Nat.le_of_lt (UInt32.lt_iff_toNat_lt.mp (UInt32.not_le.mp less))
  have header : 25 ≤ server.msize.toNat := UInt32.le_iff_toNat_le.mp large
  simp only [ioLimit, ioHeaderSize, UInt32.reduceToNat]
  omega

theorem agreed_bounds (msize : UInt32) :
    25 ≤ max (ioHeaderSize + 1) (min msize maxMsize) ∧ max (ioHeaderSize + 1) (min msize maxMsize) ≤ maxMsize := by
  have low : (25 : UInt32) ≤ maxMsize := by decide
  change 25 ≤ (if 25 ≤ min msize maxMsize then min msize maxMsize else 25) ∧
    (if 25 ≤ min msize maxMsize then min msize maxMsize else 25) ≤ maxMsize
  have most : min msize maxMsize ≤ maxMsize := by
    change (if msize ≤ maxMsize then msize else maxMsize) ≤ maxMsize
    split
    · assumption
    · exact UInt32.le_refl _
  split
  · exact ⟨‹_›, most⟩
  · exact ⟨UInt32.le_refl _, low⟩

theorem sized_agreed {size : UInt32} {server : Server φ} (agreed : server.Agreed size) (bounds : 25 ≤ size ∧ size ≤ maxMsize) :
    server.Sized := by
  cases agreed
  exact bounds

theorem sized_most {server : Server φ} (most : server.msize = maxMsize) : server.Sized :=
  sized_agreed most (by decide)

end Sessions

end Server

-- What the answer to a request may take whatever the message size.
def Request.ownSize : Request → Nat
  | .walk _ _ names => headerSize + 2 + Qid.size * names.length
  | .getattr _ => 160
  | .statfs _ => 67
  | _ => 0

theorem Request.ownSize_le {request : Request} (valid : request.isValid = true) : request.ownSize ≤ 217 := by
  cases request with
  | walk fid newFid names =>
    have few : names.length ≤ 16 := of_decide_eq_true valid
    simp only [ownSize, headerSize, Qid.size]
    omega
  | _ => simp [ownSize]

-- A message with these fields keeps to the message size, as far as answers to the request do.
def Request.Fits (request : Request) (size : UInt32) (fields : List Field) : Prop :=
  headerSize + fieldsSize fields ≤ max size.toNat request.ownSize

def Request.Opens (request : Request) : Prop :=
  ∃ msize text, request = .version msize text

namespace Server

section Sessions

variable {φ : Type} {size : UInt32} {request : Request}

theorem fits_few (large : 25 ≤ size) {fields : List Field} (few : fieldsSize fields ≤ 18) : request.Fits size fields := by
  have room : 25 ≤ size.toNat := UInt32.le_iff_toNat_le.mp large
  simp only [Request.Fits, headerSize]
  omega

theorem setFid_agreed (fid : FidNumber) (entry : Fid) : Keeps (@Agreed φ size) (setFid fid entry) :=
  keeps_modify fun _ agreed => agreed

theorem opened_fits (large : 25 ≤ size) (attr : FileAttr) : Ensures (@Agreed φ size) (request.Fits size) (opened attr) :=
  ensures_bind ensures_get fun _ _ => ensures_pure (fits_few large (by simp [Qid.size]))

variable [FileSystem φ]

omit [FileSystem φ] in
theorem packed_size (index room : Nat) (entries : List Listed) :
    fieldsSize (packed index room entries).1 = (packed index room entries).2 ∧ (packed index room entries).2 ≤ room := by
  induction entries generalizing index room with
  | nil => exact ⟨rfl, Nat.zero_le room⟩
  | cons entry rest ih =>
    unfold packed
    by_cases fits : entry.size ≤ room
    · obtain ⟨same, small⟩ := ih (index + 1) (room - entry.size)
      have size : fieldsSize (entry.fields index) = entry.size := by
        simp [Listed.fields, Listed.size]
        omega
      rw [if_pos fits]
      dsimp only
      rw [fieldsSize_append, size, same]
      exact ⟨rfl, by omega⟩
    · rw [if_neg fits]
      exact ⟨rfl, Nat.zero_le room⟩

theorem movePath_fits (large : 25 ≤ size) (old new : Path) :
    Ensures (@Agreed φ size) (request.Fits size) (movePath old new) := by
  have moves : Ensures (@Agreed φ size) (request.Fits size) (do
      onFs (FileSystem.rename old new)
      modify fun server => { server with fids := server.fids.map fun entry => (entry.1, repath old new entry.2) }
      return ([] : List Field)) := by
    refine ensures_bind (ensures_of_keeps (onFs_keeps (agreed_indifferent size) _)) fun _ _ => ?_
    exact ensures_bind (ensures_modify fun _ agreed => agreed) fun _ _ => ensures_pure (fits_few large (Nat.zero_le _))
  have fails : Ensures (@Agreed φ size) (fun _ : Unit => True) (fail .invalid) := ensures_throw _
  unfold movePath
  extract_lets jump
  split
  · exact ensures_bind fails fun _ _ => moves
  · exact moves

omit [FileSystem φ] in
theorem filledBytes_ensures {n : Nat} (filled : Filled n) :
    Ensures (@Agreed φ size) (fun bytes => bytes.size ≤ n) (filledBytes filled) := by
  unfold filledBytes
  cases cut : filled.bytes? with
  | none => exact ensures_throw _
  | some bytes =>
    obtain ⟨same, within⟩ := Filled.bytes_some cut
    exact ensures_pure (same ▸ within)

theorem perform_fits (large : 25 ≤ size) (space : UInt32) (goesOn : ¬ request.Opens) :
    Ensures (@Agreed φ size) (request.Fits size) (perform space request) := by
  have indifferent := @agreed_indifferent φ size
  have looks := @Indifferent.looks φ _ _ indifferent
  have following {α : Type} {first : M φ α} {rest : α → M φ (List Field)} (kept : Keeps (Agreed size) first)
      (follows : ∀ value, Ensures (Agreed size) (request.Fits size) (rest value)) :
      Ensures (Agreed size) (request.Fits size) (first >>= rest) :=
    ensures_bind (ensures_of_keeps kept) fun value _ => follows value
  have few {fields : List Field} (small : fieldsSize fields ≤ 18) :
      Ensures (@Agreed φ size) (request.Fits size) (pure fields : M φ (List Field)) :=
    ensures_pure (fits_few large small)
  have room {server : Server φ} (agreed : server.Agreed size) : server.ioLimit space + 24 ≤ size.toNat := by
    have limit := ioLimit_le (agreed.symm ▸ large) space
    rwa [agreed] at limit
  cases request with
  | version msize text => exact absurd ⟨msize, text, rfl⟩ goesOn
  | attach fid =>
    change Ensures _ _ (attach fid)
    unfold attach
    refine ensures_when (ensures_throw _) (following (onFs_keeps indifferent _) fun attr => ?_)
    exact following (setFid_agreed fid _) fun _ => few (by simp [Qid.size])
  | walk fid newFid names =>
    refine following (lookup_keeps fid) fun entry => following keeps_get fun server => ensures_when (ensures_throw _) ?_
    refine ensures_bind (walkFrom_counts looks names entry.path) fun reached counted => ensures_when (ensures_throw _) ?_
    refine ensures_when (ensures_of_keeps (setFid_agreed newFid _)) (ensures_pure ?_)
    simp only [Request.Fits, Request.ownSize, fieldsSize_cons, fieldsSize_qids, length_u16, Qid.size]
    omega
  | clunk fid => exact following (lookup_keeps fid) fun _ => following (keeps_modify fun _ agreed => agreed) fun _ => few (Nat.zero_le _)
  | getattr fid =>
    refine following (lookup_keeps fid) fun _ => following (onFs_keeps indifferent _) fun _ => ensures_pure ?_
    exact Nat.le_trans (by simp [Request.ownSize, headerSize, Qid.size]) (Nat.le_max_right ..)
  | setattr fid valid setSize =>
    exact following (lookup_keeps fid) fun _ => ensures_when (ensures_of_keeps (onFs_keeps indifferent _)) (few (Nat.zero_le _))
  | lopen fid flags =>
    refine following (lookup_keeps fid) fun entry => following (onFs_keeps indifferent _) fun attr => ?_
    exact ensures_when (ensures_of_keeps (onFs_keeps indifferent _)) (following (setFid_agreed fid _) fun _ => opened_fits large attr)
  | lcreate fid name =>
    refine following (directoryPath_keeps looks fid) fun path => following (onFs_keeps indifferent _) fun attr => ?_
    exact following (setFid_agreed fid _) fun _ => opened_fits large attr
  | read fid offset count =>
    refine ensures_bind ensures_get fun server agreed => following (openPath_keeps fid) fun path => ?_
    refine following (onFs_keeps indifferent _) fun filled => ?_
    refine ensures_bind (filledBytes_ensures filled) fun bytes small => ensures_pure ?_
    have limit := room agreed
    simp only [Request.Fits, headerSize, fieldsSize_cons, fieldsSize_nil, length_u32, length_bytes, Bytes.length_toList]
    omega
  | write fid offset data =>
    exact following (openPath_keeps fid) fun path => following (onFs_keeps indifferent _) fun _ => few (by simp)
  | readdir fid offset count =>
    refine ensures_bind ensures_get fun server agreed => following (directoryPath_keeps looks fid) fun path => ?_
    refine following (listing_keeps looks path) fun entries => ensures_pure ?_
    have limit := room agreed
    obtain ⟨same, small⟩ := packed_size offset.toNat (min count.toNat (server.ioLimit space)) (entries.drop offset.toNat)
    simp only [Request.Fits, headerSize, fieldsSize_cons, length_u32, same]
    omega
  | mkdir fid name =>
    exact following (directoryPath_keeps looks fid) fun path => following (onFs_keeps indifferent _) fun attr => few (by simp [Qid.size])
  | unlinkat fid name =>
    exact following (directoryPath_keeps looks fid) fun path => following (onFs_keeps indifferent _) fun _ => few (Nat.zero_le _)
  | renameat oldFid oldName newFid newName =>
    refine following (directoryPath_keeps looks oldFid) fun _ => following (directoryPath_keeps looks newFid) fun _ => ?_
    exact movePath_fits large _ _
  | rename fid newDir name =>
    exact following (lookup_keeps fid) fun _ => following (directoryPath_keeps looks newDir) fun _ => movePath_fits large _ _
  | statfs fid =>
    refine following (lookup_keeps fid) fun _ => following (onFs_keeps indifferent _) fun _ => ensures_pure ?_
    exact Nat.le_trans (by simp [Request.ownSize, headerSize]) (Nat.le_max_right ..)
  | fsync fid => exact following (lookup_keeps fid) fun _ => following (onFs_keeps indifferent _) fun _ => few (Nat.zero_le _)
  | flush => exact few (Nat.zero_le _)

omit [FileSystem φ] in
theorem version_agrees (msize : UInt32) (text : String) (server : Server φ) :
    ∃ fields next, version msize text server = .ok fields next ∧ fieldsSize fields ≤ 14 ∧
      fields.head? = some (.u32 next.msize) ∧ next.msize = max (ioHeaderSize + 1) (min msize maxMsize) := by
  refine ⟨_, _, rfl, ?_, rfl, rfl⟩
  have name : (if text = protocolVersion then protocolVersion else "unknown").utf8ByteSize ≤ 8 := by
    split
    · decide +kernel
    · decide +kernel
  simp only [fieldsSize_cons, fieldsSize_nil, length_u32, length_string]
  omega

theorem perform_short (space : UInt32) {request : Request} (valid : request.isValid = true) :
    Ensures (@Sized φ) Short (perform space request) := by
  intro server sized
  by_cases opens : request.Opens
  · obtain ⟨msize, text, rfl⟩ := opens
    obtain ⟨fields, next, done, few, _, agreed⟩ := version_agrees msize text server
    have run : perform space (.version msize text) server = .ok fields next := done
    rw [run]
    refine ⟨sized_agreed agreed (agreed_bounds msize), fun value same => ?_⟩
    cases same
    exact Nat.le_trans few (by decide)
  · obtain ⟨kept, gives⟩ := perform_fits sized.1 space opens server rfl
    refine ⟨sized_agreed kept sized, fun fields given => ?_⟩
    have within : headerSize + fieldsSize fields ≤ _ := gives fields given
    have most := UInt32.le_iff_toNat_le.mp sized.2
    have own := Request.ownSize_le valid
    simp only [Short, maxMsize, UInt32.reduceToNat] at most ⊢
    omega

omit [FileSystem φ] in
theorem error_answers {request : List UInt8} {tag : UInt16} (errno : Errno)
    (tagged : Bytes.littleEndian 2 tag.toUInt64 =
      if headerSize ≤ request.length then (request.drop 5).take 2 else [0xff, 0xff]) :
    Answers request (errorReply tag errno).bytes :=
  Message.answers (by simp [errorReply, headerSize]) (.inl rfl) tagged fun _ => ⟨errno, rfl⟩

theorem parse_answerable {type : UInt8} {fields : List UInt8} {request : Request}
    (parsed : Request.parse type fields = .ok request) : type + 1 ≠ errorType := by
  intro same
  have six : type = 6 := by
    have before := congrArg (· - 1) same
    simpa [errorType] using before
  rw [six] at parsed
  cases parsed

theorem header_read {request rest : List UInt8} {type : UInt8} {tag : UInt16}
    (read : header request = .ok (type, tag) rest) :
    headerSize ≤ request.length ∧ request[4]? = some type ∧
      Bytes.littleEndian 2 tag.toUInt64 = (request.drop 5).take 2 := by
  by_cases long : headerSize ≤ request.length
  · obtain ⟨_, _, again, typed, tagged⟩ := header_long long
    rw [read] at again
    cases again
    exact ⟨long, typed, tagged⟩
  · obtain ⟨why, rest, unread⟩ := header_short (Nat.lt_of_not_le long)
    rw [read] at unread
    cases unread

theorem serve_answers {server : Server φ} (sized : server.Sized) {request : List UInt8} {space : UInt32} {answer : Message}
    (answered : (server.serve request space).1 = some answer) : Answers request answer.bytes := by
  have served := serve_serves server request space
  generalize server.serve request space = outcome at served answered
  cases served with
  | unread unread =>
    cases answered
    refine error_answers _ (if_neg fun long => ?_).symm
    obtain ⟨_, _, read, _⟩ := header_long long
    rw [unread] at read
    cases read
  | unknown read _ | failed read _ _ =>
    cases answered
    obtain ⟨long, _, tagged⟩ := header_read read
    exact error_answers _ (tagged.trans (if_pos long).symm)
  | done read parsed run =>
    cases answered
    obtain ⟨long, typed, tagged⟩ := header_read read
    have gives := (perform_short space (Request.parse_valid parsed) server sized).2
    rw [run] at gives
    have short := gives _ rfl
    simp only [Short, maxMsize, UInt32.reduceToNat] at short
    refine Message.answers ?_ (.inr ⟨long, by rw [typed]; rfl⟩) (tagged.trans (if_pos long).symm) fun error => ?_
    · simp only [headerSize]
      omega
    · exact absurd error (parse_answerable parsed)
  | panicked _ _ _ => cases answered

theorem after_sized {server : Server φ} (sized : server.Sized) (event : Event φ) : (server.after event).Sized := by
  cases event with
  | message bytes space =>
    exact serve_keeps sized bytes space fun parsed => (perform_short space (Request.parse_valid parsed) server sized).1
  | reset => exact sized_most rfl
  | changed change => exact sized

theorem run_sized {server : Server φ} (sized : server.Sized) (events : List (Event φ)) :
    (events.foldl after server).Sized := by
  induction events generalizing server with
  | nil => exact sized
  | cons event events ih => exact ih (after_sized sized event)

omit [FileSystem φ] in
theorem process_long (share : Virtio.Share) {chain : Virtio.Chain} (bus : Bus)
    (long : share.msize.toNat < chain.readableLength) : Virtio.Share.process chain ⟨share, bus⟩ = .ok 0 ⟨share, bus⟩ := by
  unfold Virtio.Share.process
  refine (bind_of_ok (get_run _)).trans ?_
  rw [if_pos long]
  rfl

/-- Whatever messages a session has had, whatever became of the files under it and whenever it was reset: every message is
answered, unless it asks for a read for which the file system says that it has put more into the buffer than there is room
for, and then the server panics. The message size stays between 25 and 8192, so that the header of a reply can be taken
from it. The answer has the length that it says, the tag of the message (0xffff if the message is shorter than a header),
and the type that answers it or that of an error. An error has a number, and nothing else. The directory of a host never
has the server panic, and a request that is longer than the message size does not get to the server. -/
theorem messages_answered (fs : φ) (tag : String) (events : List (Event φ)) (request : List UInt8) (space : UInt32) :
    let server := events.foldl after (withTag tag fs)
    ((server.serve request space).1 = none ↔ server.Overreads request space) ∧
      (∀ answer, (server.serve request space).1 = some answer → Answers request answer.bytes) ∧
      25 ≤ server.msize ∧ server.msize ≤ 8192 ∧
      ∀ share : Virtio.Share, ¬ share.Overreads request space ∧ ∀ (chain : Virtio.Chain) (bus : Bus),
        share.msize.toNat < chain.readableLength → Virtio.Share.process chain ⟨share, bus⟩ = .ok 0 ⟨share, bus⟩ := by
  intro server
  have start : (withTag tag fs).Sized := sized_most rfl
  have sized := run_sized start events
  refine ⟨serve_none server request space, fun answer answered => serve_answers sized answered, sized.1, sized.2, fun share => ?_⟩
  refine ⟨?_, fun chain bus long => process_long share bus long⟩
  rintro ⟨fid, offset, count, _, more⟩
  exact host_fills share fid offset count space more

end Sessions

def reading : List (Event HostShare) := [
  .message [21, 0, 0, 0, 100, 0xff, 0xff, 0, 0, 0, 0, 8, 0, 0x39, 0x50, 0x32, 0x30, 0x30, 0x30, 0x2e, 0x4c] 8192,
  .message [23, 0, 0, 0, 104, 1, 0, 0, 0, 0, 0, 0xff, 0xff, 0xff, 0xff, 0, 0, 0, 0, 0, 0, 0, 0] 8192,
  .message [20, 0, 0, 0, 110, 2, 0, 0, 0, 0, 0, 1, 0, 0, 0, 1, 0, 1, 0, 0x66] 8192,
  .message [15, 0, 0, 0, 12, 3, 0, 1, 0, 0, 0, 0, 0, 0, 0] 8192]

def readRequest : List UInt8 :=
  [23, 0, 0, 0, 116, 4, 0, 1, 0, 0, 0, 0, 0, 0, 0, 0, 0, 0, 0, 100, 0, 0, 0]

def lettered : HostShare where
  host := ⟨.directory [(.text "f", .file (.ofBytes ⟨#[0x61, 0x62, 0x63]⟩) false)] false⟩
  root := []

theorem messages_answered_reading : Answers readRequest [12, 0, 0, 0, 117, 4, 0, 1, 0, 0, 0, 0x61] := by
  obtain ⟨_, answers, _⟩ := messages_answered lettered "share" reading readRequest 8192
  have answered : ((reading.foldl after (withTag "share" lettered)).serve readRequest 8192).1 =
      some ⟨117, 4, [.u32 1, .bytes [0x61]]⟩ := by cbv
  exact answers _ answered

structure Boastful where

instance : FileSystem Boastful where
  getattr _ := return ⟨.file, 1, 0, 1, 0, 0, 0, 0, 0⟩
  readDir _ := return []
  read _ _ size := return ⟨size + 1, Bytes.zeros size, Bytes.size_zeros size⟩
  write _ _ data := return data.size
  create _ := throw .io
  mkdir _ := throw .io
  remove _ := throw .io
  rename _ _ := throw .io
  truncate _ _ := throw .io
  statfs := throw .io
  fsync _ := throw .io

def opening : List (Event Boastful) := [
  .message [23, 0, 0, 0, 104, 1, 0, 1, 0, 0, 0, 0xff, 0xff, 0xff, 0xff, 0, 0, 0, 0, 0, 0, 0, 0] 8192,
  .message [15, 0, 0, 0, 12, 2, 0, 1, 0, 0, 0, 0, 0, 0, 0] 8192]

def lengthy : List UInt8 :=
  [33, 0, 0, 0, 104, 1, 0, 0, 0, 0, 0, 0xff, 0xff, 0xff, 0xff, 10, 0] ++ List.replicate 10 0x75 ++ [0, 0, 0, 0, 0, 0]

def limited : Virtio.Share :=
  { withTag "share" lettered with msize := 32 }

def lengthyChain : Virtio.Chain :=
  ⟨0, [⟨0x1000, 33, 1, 1⟩, ⟨0x1021, 20, 2, 0⟩]⟩

def lengthyBus : Bus :=
  Bus.ofMemory 0x1000 ⟨Bytes.ofList (lengthy ++ List.replicate 20 0)⟩

theorem messages_unanswered :
    ((opening.foldl after (withTag "share" Boastful.mk)).serve readRequest 8192).1 = none ∧
      (limited.serve lengthy 20).1 = some ⟨105, 1, [.qid ⟨0x80, 0, 1⟩]⟩ ∧
      lengthyChain.readPrefix lengthyChain.readableLength lengthyBus = .ok (Bytes.ofList lengthy) lengthyBus ∧
      Virtio.Share.process lengthyChain ⟨limited, lengthyBus⟩ = .ok 0 ⟨limited, lengthyBus⟩ := by
  have long : limited.msize.toNat < lengthyChain.readableLength := by cbv
  refine ⟨?_, ?_, ?_, process_long limited lengthyBus long⟩ <;> cbv

end Server

end NineP

end RvBoard
