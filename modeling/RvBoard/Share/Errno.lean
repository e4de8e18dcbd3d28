/-!
# Error numbers

The numbers by which a file system tells a client why a request failed.
-/

set_option autoImplicit false

namespace RvBoard

abbrev Errno := UInt32

namespace Errno

def noEntry : Errno := 2
def io : Errno := 5
def badDescriptor : Errno := 9
def access : Errno := 13
def busy : Errno := 16
def alreadyExists : Errno := 17
def notDirectory : Errno := 20
def isDirectory : Errno := 21
def invalid : Errno := 22
def fileTooBig : Errno := 27
def noSpace : Errno := 28
def nameTooLong : Errno := 36
def notEmpty : Errno := 39
def loop : Errno := 40
def notSupported : Errno := 95

def ofKind (kind : String) : Errno :=
  match kind with
  | "NotFound" => noEntry
  | "PermissionDenied" => access
  | "AlreadyExists" => alreadyExists
  | "InvalidInput" => invalid
  | "NotADirectory" => notDirectory
  | "IsADirectory" => isDirectory
  | "DirectoryNotEmpty" => notEmpty
  | "StorageFull" => noSpace
  | _ => io

def kind (errno : Errno) : String :=
  match errno.toNat with
  | 2 => "NotFound"
  | 13 => "PermissionDenied"
  | 17 => "AlreadyExists"
  | 20 => "NotADirectory"
  | 21 => "IsADirectory"
  | 22 => "InvalidInput"
  | 28 => "StorageFull"
  | 36 => "InvalidFilename"
  | 39 => "DirectoryNotEmpty"
  | 40 => "FilesystemLoop"
  | _ => "Other"

def text (errno : Errno) : String :=
  let description :=
    match errno.toNat with
    | 2 => "No such file or directory"
    | 5 => "Input/output error"
    | 9 => "Bad file descriptor"
    | 13 => "Permission denied"
    | 17 => "File exists"
    | 20 => "Not a directory"
    | 21 => "Is a directory"
    | 22 => "Invalid argument"
    | 36 => "File name too long"
    | 39 => "Directory not empty"
    | 40 => "Too many levels of symbolic links"
    | _ => "Unknown error " ++ toString errno.toNat
  description ++ " (os error " ++ toString errno.toNat ++ ")"

end Errno

end RvBoard
