import RvBoard.Proofs.NineP.Effects

/-!
# Mount tag

Requests change the session and the file system under it. The tag by which a guest mounts the share
stays what it was set up with.
-/

set_option autoImplicit false

namespace RvBoard.NineP.Server

variable {φ : Type} [FileSystem φ]

def Tagged (tag : ByteArray) (server : Server φ) : Prop :=
  server.tag = tag

variable {tag : ByteArray}

omit [FileSystem φ] in
theorem tagged_indifferent : Indifferent (@Tagged φ tag) :=
  fun _ _ tagged => tagged

theorem perform_tagged (space : UInt32) (request : Request) : Keeps (@Tagged φ tag) (perform space request) :=
  perform_keeps ⟨tagged_indifferent.looks, fun _ _ _ _ tagged => tagged, fun _ => tagged_indifferent⟩ space

theorem handle_tag (server : Server φ) (message : List UInt8) (space : UInt32) :
    (server.handle message space).2.tag = server.tag :=
  have tagged : Tagged server.tag server := rfl
  serve_keeps tagged message space fun _ => perform_tagged space _ server tagged

end RvBoard.NineP.Server
